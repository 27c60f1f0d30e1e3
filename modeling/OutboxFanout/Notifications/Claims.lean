import OutboxFanout.Lib.Rows
import OutboxFanout.Notifications.Service
import OutboxFanout.Shared.Settlement

/-!
# Claims and who holds them

`Answered` lists what an answer does to a call of `handle`. A call that
returns has sent, or has found the key set by a claim (`settles`). While no
process is killed, no Redis command fails and no key expires, a key is set
exactly as long as its claim is held or has sent (`Owned`), unless a claim was
released after another delivery had been turned away by it.
-/

namespace OutboxFanout.Notifications

abbrev State := Site Store Call
abbrev Action := SiteAction Answer Nat

def machine (config : Config) : Machine State Action :=
  ⟨fun s action => s.step (handle config) action⟩

variable {config : Config} {store store' : Store} {s s' : State}

-- ---------------------------------------------------------------------------
-- What an answer does
-- ---------------------------------------------------------------------------

inductive Answered (config : Config) (store : Store) :
    Call → Answer → Store → Progress Call → Prop
  | duplicate (hfind : store.find key = some entry)
      (hreply : reply = .ok ∧ progress = .continues (.duplicate key) ∨
        ∃ exc, reply = .lost exc ∧ progress = .raised exc) :
    Answered config store (.claiming key value payload) (.set reply)
      (store.note (.duplicate key entry.claim)) progress
  | claimed (hfind : store.find key = none)
      (hreply : reply = .ok ∧ progress = .continues (.claimed key store.claims payload) ∨
        ∃ exc, reply = .lost exc ∧ progress = .raised exc) :
    Answered config store (.claiming key value payload) (.set reply)
      (store.claim config key value) progress
  | setRefused : Answered config store (.claiming key value payload) (.set (.refused exc)) store
      (.raised exc)
  | got : Answered config store (.duplicate key) (.get .ok) store .returned
  | getFails (hreply : reply = .refused exc ∨ reply = .lost exc) :
    Answered config store (.duplicate key) (.get reply) store (.raised exc)
  | sendRaises : Answered config store (.claimed key claim payload) (.send result) store
      (.continues (.releasing key claim exc))
  | sent : Answered config store (.claimed key claim payload) (.send (.ok ()))
      (store.note (.sent key claim store.now)) .returned
  | released (hreply : reply = .ok ∨ ∃ exc, reply = .lost exc) :
    Answered config store (.releasing key claim exc) (.del reply) (store.del key claim)
      (.raised exc')
  | delRefused : Answered config store (.releasing key claim exc) (.del (.refused exc')) store
      (.raised exc')

theorem step_cases (h : step config store call answer = some (store', progress)) :
    Answered config store call answer store' progress := by
  unfold step at h
  split at h
  next key value payload reply =>
    cases hfind : store.find key with
    | none =>
      simp only [hfind, Store.set] at h
      cases reply <;> cases h
      · exact .claimed hfind (.inl ⟨rfl, rfl⟩)
      · exact .setRefused
      · exact .claimed hfind (.inr ⟨_, rfl, rfl⟩)
    | some entry =>
      simp only [hfind, Store.set] at h
      cases reply <;> cases h
      · exact .duplicate hfind (.inl ⟨rfl, rfl⟩)
      · exact .setRefused
      · exact .duplicate hfind (.inr ⟨_, rfl, rfl⟩)
  next => cases h; exact .got
  next => cases h; exact .getFails (.inl rfl)
  next => cases h; exact .getFails (.inr rfl)
  next key claim payload result =>
    split at h
    · cases h
    split at h <;> cases h
    · exact .sendRaises
    · exact .sendRaises
    · exact .sent
  next key claim exc reply =>
    cases reply <;> cases h
    · exact .released (.inl rfl)
    · exact .delRefused
    · exact .released (.inr ⟨_, rfl⟩)
  next => cases h

-- ---------------------------------------------------------------------------
-- A call that returns has sent or was turned away
-- ---------------------------------------------------------------------------

def Store.Sent (store : Store) (key : String) : Prop :=
  ∃ claim now, .sent key claim now ∈ store.history

def Store.TurnedAway (store : Store) (key : String) (claim : Nat) : Prop :=
  .duplicate key claim ∈ store.history

def Grows (store store' : Store) : Prop := ∀ event ∈ store.history, event ∈ store'.history

def Call.key : Call → String
  | .claiming key _ _ | .duplicate key | .claimed key _ _ | .releasing key _ _ => key

def During (store : Store) (event : Json) (call : Call) : Prop :=
  keyOf event = .ok call.key ∧ ∀ key, call = .duplicate key → ∃ claim, store.TurnedAway key claim

def Done (store : Store) (event : Json) : Prop :=
  ∃ key, keyOf event = .ok key ∧ (store.Sent key ∨ ∃ claim, store.TurnedAway key claim)

theorem del_grows : Grows store (store.del key claim) := by
  intro event hmem
  unfold Store.del
  split
  · exact List.mem_cons_of_mem _ hmem
  · exact hmem

theorem Answered.grows (h : Answered config store call answer store' progress) :
    Grows store store' := by
  cases h with
  | duplicate | claimed | sent => exact fun _ => List.mem_cons_of_mem _
  | released => exact del_grows
  | _ => exact fun _ hmem => hmem

theorem Answered.continues (h : Answered config store call answer store' (.continues call'))
    (hduring : During store event call) : During store' event call' := by
  obtain ⟨hkey, -⟩ := hduring
  cases h with
  | duplicate hfind hreply =>
    rcases hreply with ⟨-, heq⟩ | ⟨_, -, heq⟩ <;> cases heq
    refine ⟨hkey, ?_⟩
    rintro _ ⟨⟩
    exact ⟨_, List.mem_cons_self⟩
  | claimed hfind hreply =>
    rcases hreply with ⟨-, heq⟩ | ⟨_, -, heq⟩ <;> cases heq
    exact ⟨hkey, nofun⟩
  | sendRaises => exact ⟨hkey, nofun⟩

theorem Answered.returned (h : Answered config store call answer store' .returned)
    (hduring : During store event call) : Done store' event := by
  obtain ⟨hkey, hduplicate⟩ := hduring
  cases h with
  | duplicate hfind hreply | claimed hfind hreply =>
    rcases hreply with ⟨-, heq⟩ | ⟨_, -, heq⟩ <;> cases heq
  | got => exact ⟨_, hkey, .inr (hduplicate _ rfl)⟩
  | sent => exact ⟨_, hkey, .inl ⟨_, _, List.mem_cons_self⟩⟩

theorem settles (config : Config) : Settles (handle config) Grows During Done where
  refl := fun _ h => h
  during_le := by
    rintro store store' event call ⟨hkey, hduplicate⟩ hgrows
    refine ⟨hkey, fun key hcall => ?_⟩
    obtain ⟨claim, haway⟩ := hduplicate key hcall
    exact ⟨claim, hgrows _ haway⟩
  done_le := by
    rintro store store' event ⟨key, hkey, ⟨claim, now, hsent⟩ | ⟨claim, haway⟩⟩ hgrows
    · exact ⟨key, hkey, .inl ⟨claim, now, hgrows _ hsent⟩⟩
    · exact ⟨key, hkey, .inr ⟨claim, hgrows _ haway⟩⟩
  start := by
    intro store event call hstart
    simp only [handle, start, Except.bind_eq_ok, Except.pure_eq_ok] at hstart
    obtain ⟨key, hkey, _, _, _, _, _, _, rfl⟩ := hstart
    exact ⟨hkey, nofun⟩
  grows := fun hstep => (step_cases hstep).grows
  dies := fun _ hmem => hmem
  continues := fun hduring hstep => (step_cases hstep).continues hduring
  returned := fun hduring hstep => (step_cases hstep).returned hduring

theorem env_grows (h : (handle config).env store n = some store') : Grows store store' := by
  cases h
  exact fun _ hmem => hmem

-- ---------------------------------------------------------------------------
-- Claims in progress
-- ---------------------------------------------------------------------------

/-- The claim of a call that has made it and not ended. -/
def Call.claim? : Call → Option (String × Nat)
  | .claimed key claim _ | .releasing key claim _ => some (key, claim)
  | _ => none

def claimOf (s : State) (c : ConsumerId) : Option (String × Nat) :=
  (s.consumers c).pc.call?.bind Call.claim?

theorem claimOf_handling (hpc : (s.consumers c).pc = .handling delivery event call rest) :
    claimOf s c = call.claim? := by
  rw [claimOf, hpc]
  rfl

theorem claimOf_none (hcall : (s.consumers c).pc.call? = none) : claimOf s c = none := by
  rw [claimOf, hcall]
  rfl

def Store.HasKey (store : Store) (key : String) (claim : Nat) : Prop :=
  ∃ entry ∈ store.entries, entry.key = key ∧ entry.claim = claim

/-- `holder c` is the claim consumer `c` is working under. -/
structure Owned (store : Store) (holder : ConsumerId → Option (String × Nat)) : Prop where
  keyed : Rows.Keyed Entry.key store.entries
  bound : ∀ entry ∈ store.entries, entry.claim < store.claims
  held : ∀ c key claim, holder c = some (key, claim) → store.HasKey key claim
  alone : ∀ c c' claim, holder c = some claim → holder c' = some claim → c = c'
  away : ∀ key claim, store.TurnedAway key claim → store.HasKey key claim
  owner : ∀ entry ∈ store.entries, store.Sent entry.key ∨ ∃ c, holder c = some (entry.key, entry.claim)

section
variable {holder : ConsumerId → Option (String × Nat)}

theorem find_none (h : store.find key = none) : ∀ entry ∈ store.entries, entry.key ≠ key := by
  simpa [Store.find, List.find?_eq_none] using h

theorem find_some (h : store.find key = some entry) : entry ∈ store.entries ∧ entry.key = key :=
  ⟨List.mem_of_find?_eq_some h, by simpa using List.find?_some h⟩

theorem Owned.empty : Owned .empty fun _ => none :=
  ⟨List.nodup_nil, nofun, nofun, nofun, nofun, nofun⟩

/-- Every claim in progress has its key, and the key no other. -/
structure Holding (store : Store) (holder : ConsumerId → Option (String × Nat)) : Prop where
  keyed : Rows.Keyed Entry.key store.entries
  bound : ∀ entry ∈ store.entries, entry.claim < store.claims
  held : ∀ c key claim, holder c = some (key, claim) → store.HasKey key claim
  alone : ∀ c c' claim, holder c = some claim → holder c' = some claim → c = c'

theorem Owned.holding (h : Owned store holder) : Holding store holder :=
  ⟨h.keyed, h.bound, h.held, h.alone⟩

theorem Holding.eq_of_hasKey (h : Holding store holder) (hkey : store.HasKey key claim)
    (hkey' : store.HasKey key claim') : claim = claim' := by
  obtain ⟨entry, hmem, rfl, rfl⟩ := hkey
  obtain ⟨entry', hmem', hk, rfl⟩ := hkey'
  rw [h.keyed.eq_of_mem hmem' hmem hk]

theorem hasKey_claim {claim : Nat} (hkey : store.HasKey key' claim) :
    (store.claim config key value).HasKey key' claim := by
  obtain ⟨entry, hmem, hkey⟩ := hkey
  exact ⟨entry, List.mem_cons_of_mem _ hmem, hkey⟩

theorem keyed_claim (h : Rows.Keyed Entry.key store.entries) (hfind : store.find key = none) :
    Rows.Keyed Entry.key (store.claim config key value).entries := by
  refine List.nodup_cons.mpr ⟨?_, h⟩
  intro hmem
  obtain ⟨entry, hentry, hkey⟩ := List.mem_map.mp hmem
  exact find_none hfind entry hentry hkey

theorem Holding.acquire (h : Holding store holder) (hfind : store.find key = none) :
    Holding (store.claim config key value) (Function.update holder c (some (key, store.claims))) := by
  have hfresh : ∀ c', holder c' ≠ some (key, store.claims) := by
    intro c' hc'
    obtain ⟨entry, hmem, -, hclaim⟩ := h.held c' key _ hc'
    exact (h.bound entry hmem).ne hclaim
  constructor
  case keyed => exact keyed_claim h.keyed hfind
  case bound =>
    intro entry hmem
    rcases List.mem_cons.mp hmem with rfl | hmem
    · exact Nat.lt_succ_self _
    · exact Nat.lt_succ_of_lt (h.bound entry hmem)
  case held =>
    intro c' key' claim hc'
    rcases holder_of_acquire hc' with ⟨-, heq⟩ | ⟨-, hc'⟩
    · cases heq
      exact ⟨_, List.mem_cons_self, rfl, rfl⟩
    · exact hasKey_claim (h.held c' key' claim hc')
  case alone => exact fun _ _ _ => alone_of_acquire h.alone hfresh

theorem mem_del {entry : Entry} : entry ∈ (store.del key claim).entries ↔
    entry ∈ store.entries ∧ entry.key ≠ key := by
  unfold Store.del
  split
  next => simp
  next hfind => exact ⟨fun hmem => ⟨hmem, find_none hfind entry hmem⟩, And.left⟩

theorem hasKey_del : (store.del key claim).HasKey key' claim' ↔
    store.HasKey key' claim' ∧ key' ≠ key := by
  constructor
  · rintro ⟨entry, hmem, rfl, rfl⟩
    obtain ⟨hmem, hne⟩ := mem_del.mp hmem
    exact ⟨⟨entry, hmem, rfl, rfl⟩, hne⟩
  · rintro ⟨⟨entry, hmem, rfl, rfl⟩, hne⟩
    exact ⟨entry, mem_del.mpr ⟨hmem, hne⟩, rfl, rfl⟩

theorem mem_history_del (h : event ∈ (store.del key claim).history) :
    event ∈ store.history ∨ ∃ removed, event = .released key claim removed := by
  unfold Store.del at h
  split at h
  · rcases List.mem_cons.mp h with rfl | h
    · exact .inr ⟨_, rfl⟩
    · exact .inl h
  · exact .inl h

theorem del_claims : (store.del key claim).claims = store.claims := by
  unfold Store.del
  split <;> rfl

theorem del_now : (store.del key claim).now = store.now := by
  unfold Store.del
  split <;> rfl

theorem keyed_del (h : Rows.Keyed Entry.key store.entries) :
    Rows.Keyed Entry.key (store.del key claim).entries := by
  unfold Store.del
  split
  · exact h.sublist (List.filter_sublist.map _)
  · exact h

/-- No other call holds the key that is released. -/
theorem Holding.release (h : Holding store holder) (hc : holder c = some (key, claim)) :
    Holding (store.del key claim) (Function.update holder c none) where
  keyed := keyed_del h.keyed
  bound := by
    intro entry hmem
    rw [del_claims]
    exact h.bound entry (mem_del.mp hmem).1
  held := by
    intro c' key' claim' hc'
    obtain ⟨hne, hc'⟩ := holder_of_leave hc'
    have hkey' := h.held c' key' claim' hc'
    refine hasKey_del.mpr ⟨hkey', ?_⟩
    rintro rfl
    obtain rfl := h.eq_of_hasKey (h.held c key' claim hc) hkey'
    exact hne (h.alone c' c _ hc' hc)
  alone := fun c' c'' claim' hc' hc'' =>
    h.alone c' c'' claim' (holder_of_leave hc').2 (holder_of_leave hc'').2

theorem Owned.duplicate (h : Owned store holder) (hfind : store.find key = some entry) :
    Owned (store.note (.duplicate key entry.claim)) holder where
  keyed := h.keyed
  bound := h.bound
  held := h.held
  alone := h.alone
  away := by
    intro key' claim haway
    rcases List.mem_cons.mp haway with heq | haway
    · cases heq
      exact ⟨entry, (find_some hfind).1, (find_some hfind).2, rfl⟩
    · exact h.away key' claim haway
  owner := by
    intro entry' hmem
    refine (h.owner entry' hmem).imp_left ?_
    rintro ⟨claim, now, hsent⟩
    exact ⟨claim, now, List.mem_cons_of_mem _ hsent⟩

theorem Owned.acquire (h : Owned store holder) (hfind : store.find key = none)
    (hnone : holder c = none) :
    Owned (store.claim config key value) (Function.update holder c (some (key, store.claims))) := by
  obtain ⟨hkeyed, hbound, hheld, halone⟩ := h.holding.acquire hfind
  refine ⟨hkeyed, hbound, hheld, halone, ?_, ?_⟩
  · intro key' claim haway
    rcases List.mem_cons.mp haway with heq | haway
    · cases heq
    · exact hasKey_claim (h.away key' claim haway)
  · intro entry hmem
    rcases List.mem_cons.mp hmem with rfl | hmem
    · exact .inr ⟨c, Function.update_self ..⟩
    · rcases h.owner entry hmem with ⟨claim, now, hsent⟩ | ⟨c', hc'⟩
      · exact .inl ⟨claim, now, List.mem_cons_of_mem _ hsent⟩
      · refine .inr ⟨c', ?_⟩
        rwa [Function.update_of_ne]
        rintro rfl
        rw [hnone] at hc'
        cases hc'

theorem Owned.send (h : Owned store holder) (hc : holder c = some (key, claim)) :
    Owned (store.note (.sent key claim now)) (Function.update holder c none) where
  keyed := h.keyed
  bound := h.bound
  held := fun c' key' claim' hc' => h.held c' key' claim' (holder_of_leave hc').2
  alone := fun c' c'' claim' hc' hc'' =>
    h.alone c' c'' claim' (holder_of_leave hc').2 (holder_of_leave hc'').2
  away := by
    intro key' claim' haway
    rcases List.mem_cons.mp haway with heq | haway
    · cases heq
    · exact h.away key' claim' haway
  owner := by
    intro entry hmem
    rcases h.owner entry hmem with ⟨claim', now', hsent⟩ | ⟨c', hc'⟩
    · exact .inl ⟨claim', now', List.mem_cons_of_mem _ hsent⟩
    · by_cases heq : c' = c
      · subst heq
        rw [hc] at hc'
        cases hc'
        exact .inl ⟨_, _, List.mem_cons_self⟩
      · exact .inr ⟨c', by rwa [Function.update_of_ne heq]⟩

theorem Owned.release (h : Owned store holder) (hc : holder c = some (key, claim))
    (haway : ¬store.TurnedAway key claim) :
    Owned (store.del key claim) (Function.update holder c none) := by
  have hkey := h.held c key claim hc
  obtain ⟨hkeyed, hbound, hheld, halone⟩ := h.holding.release hc
  refine ⟨hkeyed, hbound, hheld, halone, ?_, ?_⟩
  · intro key' claim' haway'
    replace haway' : store.TurnedAway key' claim' :=
      (mem_history_del haway').resolve_right (by rintro ⟨_, ⟨⟩⟩)
    have hkey' := h.away key' claim' haway'
    refine hasKey_del.mpr ⟨hkey', ?_⟩
    rintro rfl
    obtain rfl := h.holding.eq_of_hasKey hkey hkey'
    exact haway haway'
  · intro entry hmem
    obtain ⟨hmem, hne⟩ := mem_del.mp hmem
    rcases h.owner entry hmem with ⟨claim', now, hsent⟩ | ⟨c', hc'⟩
    · exact .inl ⟨claim', now, del_grows _ hsent⟩
    · refine .inr ⟨c', ?_⟩
      rwa [Function.update_of_ne]
      rintro rfl
      rw [hc] at hc'
      cases hc'
      exact hne rfl

end

-- ---------------------------------------------------------------------------
-- Runs without kills, Redis failures and expiry
-- ---------------------------------------------------------------------------

/-- No process is killed, Redis executes and answers every command, no key expires. -/
def Smooth (s : State) : Action → Prop
  | .consumer _ .kill => False
  | .consumer _ (.handle (.set reply)) => reply = .ok
  | .consumer _ (.handle (.get reply)) => reply = .ok
  | .consumer _ (.handle (.del reply)) => reply = .ok
  | .env n => ∀ entry ∈ s.store.entries, s.store.now + n ≤ entry.deadline
  | _ => True

/-- A claim is released only while no other delivery has been turned away by it. -/
def ReleasesUncontested (s : State) : Action → Prop
  | .consumer c (.handle (.del _)) =>
    ∀ claim ∈ claimOf s c, ¬s.store.TurnedAway claim.1 claim.2
  | _ => True

theorem tick_eq (h : ∀ entry ∈ store.entries, store.now + n ≤ entry.deadline) :
    store.tick n = { store with now := store.now + n } := by
  simp only [Store.tick]
  rw [List.filter_eq_self.mpr fun entry hmem => by simpa using h entry hmem]

theorem claim?_open :
    ((handle config).open_ depth delivery rest).call?.bind Call.claim? = none := by
  refine Handler.open_cases rfl fun event call _ hcall => ?_
  simp only [handle, start, Except.bind_eq_ok, Except.pure_eq_ok] at hcall
  obtain ⟨_, _, _, _, _, _, _, _, rfl⟩ := hcall
  rfl

theorem claimOf_put {s : State} :
    claimOf (s.put c p) = Function.update (claimOf s) c (p.pc.call?.bind Call.claim?) :=
  Site.holders_put

/-- The consumer moves on under the claim it has, or without one. -/
theorem Owned.put (h : Owned store (claimOf s)) (hpc : p.pc.call?.bind Call.claim? = claimOf s c) :
    Owned store (claimOf (s.put c p)) := by
  rwa [claimOf_put, hpc, Function.update_eq_self]

theorem Owned.answered {s : State} (h : Owned s.store (claimOf s))
    (hpc : (s.consumers c).pc = .handling delivery event call rest)
    (hanswer : Answered config s.store call answer store progress)
    (hsmooth : Smooth s (.consumer c (.handle answer)))
    (hrelease : ReleasesUncontested s (.consumer c (.handle answer))) :
    Owned store (claimOf ({ s with store }.goto c (progress.pc delivery event rest))) := by
  have hclaim : claimOf s c = call.claim? := claimOf_handling hpc
  cases hanswer with
  | duplicate hfind hreply =>
    obtain rfl : _ = Reply.ok := hsmooth
    rcases hreply with ⟨-, rfl⟩ | ⟨_, heq, -⟩
    · exact (h.duplicate hfind).put hclaim.symm
    · cases heq
  | claimed hfind hreply =>
    obtain rfl : _ = Reply.ok := hsmooth
    rcases hreply with ⟨-, rfl⟩ | ⟨_, heq, -⟩
    · rw [Site.goto, claimOf_put]
      exact h.acquire hfind hclaim
    · cases heq
  | setRefused | delRefused => cases hsmooth
  | getFails hreply =>
    obtain rfl : _ = Reply.ok := hsmooth
    rcases hreply with heq | heq <;> cases heq
  | got => exact h.put hclaim.symm
  | sendRaises => exact h.put hclaim.symm
  | sent =>
    rw [Site.goto, claimOf_put]
    exact h.send hclaim
  | released hreply =>
    rw [Site.goto, claimOf_put]
    exact h.release hclaim (hrelease _ hclaim)

theorem Owned.step (h : Owned s.store (claimOf s)) (hs : SiteStep (handle config) s action s')
    (hsmooth : Smooth s action) (hrelease : ReleasesUncontested s action) :
    Owned s'.store (claimOf s') := by
  have hidle : ∀ {c pc}, (s.consumers c).pc = pc → pc.call? = none → claimOf s c = none :=
    fun hpc hcall => claimOf_none (hpc ▸ hcall)
  cases hs with
  | killCall | kill => exact hsmooth.elim
  | stop => exact h.put rfl
  | receive hpc hq hnext =>
    refine h.put ((Eq.trans ?_) (hidle hpc rfl).symm)
    rcases hnext with ⟨-, rfl⟩ | ⟨-, rfl⟩ <;> rfl
  | next hpc => exact h.put (claim?_open.trans (hidle hpc rfl).symm)
  | handle hpc hcall => exact h.answered hpc (step_cases hcall) hsmooth hrelease
  | start hpc | exit hpc | drop hpc | delete hpc | keep hpc =>
    exact h.put (hidle hpc rfl).symm
  | deliver | expire | redrive => exact h
  | env hstore =>
    cases hstore
    rw [tick_eq hsmooth]
    exact ⟨h.keyed, h.bound, h.held, h.alone, h.away, h.owner⟩

end OutboxFanout.Notifications
