import OutboxFanout.Notifications.Loss

/-!
# Sends for one order are a TTL apart

As long as every call ends within the TTL of its claim, the key of a claim in
progress, or of one that has sent and whose TTL has not passed, is set by that
claim. So the next claim of the key comes after the TTL, and only a claim in
progress sends.
-/

namespace OutboxFanout.Notifications

variable {config : Config} {store store' : Store} {holder holder' : ConsumerId → Option (String × Nat)}

def Config.ttl (config : Config) : Nat := 1000 * config.ttlSeconds

/-- The claims whose calls have sent for the key, latest first. -/
def Store.sends (store : Store) (key : String) : List Nat :=
  store.history.filterMap fun
    | .sent key' claim _ => if key' = key then some claim else none
    | _ => none

@[simp] theorem note_entries : (store.note event).entries = store.entries := rfl
@[simp] theorem note_claims : (store.note event).claims = store.claims := rfl
@[simp] theorem note_now : (store.note event).now = store.now := rfl
@[simp] theorem note_hasKey : (store.note event).HasKey key claim ↔ store.HasKey key claim := .rfl

def Store.ClaimedAt (store : Store) (key : String) (claim now : Nat) : Prop :=
  .claimed key claim now ∈ store.history

/-- Any two sends for the key belong to claims at least the TTL apart. -/
def SendsSpaced (config : Config) (store : Store) (key : String) : Prop :=
  (store.sends key).Pairwise fun later earlier => ∃ t t', store.ClaimedAt key later t ∧
    store.ClaimedAt key earlier t' ∧ t' + config.ttl ≤ t

theorem mem_sends : claim ∈ store.sends key ↔ ∃ now, .sent key claim now ∈ store.history := by
  simp only [Store.sends, List.mem_filterMap]
  constructor
  · rintro ⟨event, hmem, heq⟩
    split at heq
    next key' claim' now =>
      split at heq
      next hkey => cases heq; exact ⟨now, hkey ▸ hmem⟩
      next => cases heq
    next => cases heq
  · rintro ⟨now, hmem⟩
    exact ⟨_, hmem, by simp⟩

theorem sends_note_of_ne (hsent : ∀ claim t, event ≠ .sent key claim t) :
    (store.note event).sends key = store.sends key := by
  cases event with
  | sent key' claim t =>
    have hne : key' ≠ key := by
      rintro rfl
      exact hsent claim t rfl
    simp [Store.sends, Store.note, hne]
  | claimed | duplicate | released => rfl

theorem claimedAt_note (hclaimed : ∀ key claim t, event ≠ .claimed key claim t) :
    (store.note event).ClaimedAt key claim t ↔ store.ClaimedAt key claim t := by
  simp [Store.ClaimedAt, Store.note, (hclaimed key claim t).symm]

theorem claimedAt_claim : (store.claim config key value).ClaimedAt key' claim t ↔
    store.ClaimedAt key' claim t ∨ key' = key ∧ claim = store.claims ∧ t = store.now := by
  simp [Store.ClaimedAt, Store.claim, Store.note, or_comm]

theorem claimedAt_del :
    (store.del key claim).ClaimedAt key' claim' t ↔ store.ClaimedAt key' claim' t :=
  ⟨fun hmem => (mem_history_del hmem).resolve_right (by rintro ⟨_, ⟨⟩⟩), fun hmem => del_grows _ hmem⟩

-- ---------------------------------------------------------------------------
-- When the claims were made
-- ---------------------------------------------------------------------------

/-- Every entry is a claim of its time, and has the TTL from there. -/
structure Clocked (config : Config) (store : Store) : Prop where
  keyed : Rows.Keyed Entry.key store.entries
  entry : ∀ e ∈ store.entries, ∃ t, store.ClaimedAt e.key e.claim t ∧ e.deadline = t + config.ttl
  unexpired : ∀ e ∈ store.entries, store.now ≤ e.deadline
  fresh : ∀ key claim t, store.ClaimedAt key claim t → claim < store.claims
  unique : ∀ key claim t t', store.ClaimedAt key claim t → store.ClaimedAt key claim t' → t = t'

/-- A record that is no claim. -/
theorem Clocked.note (h : Clocked config store) (event : Event)
    (hclaimed : ∀ key claim t, event ≠ .claimed key claim t) : Clocked config (store.note event) where
  keyed := h.keyed
  entry := by simpa [claimedAt_note hclaimed] using h.entry
  unexpired := h.unexpired
  fresh := by simpa [claimedAt_note hclaimed] using h.fresh
  unique := by simpa [claimedAt_note hclaimed] using h.unique

theorem Clocked.acquire (h : Clocked config store) (hfind : store.find key = none) :
    Clocked config (store.claim config key value) := by
  constructor
  case keyed => exact keyed_claim h.keyed hfind
  case entry =>
    intro e hmem
    rcases List.mem_cons.mp hmem with rfl | hmem
    · exact ⟨store.now, claimedAt_claim.mpr (.inr ⟨rfl, rfl, rfl⟩), rfl⟩
    · obtain ⟨t, ht, hdeadline⟩ := h.entry e hmem
      exact ⟨t, claimedAt_claim.mpr (.inl ht), hdeadline⟩
  case unexpired =>
    intro e hmem
    rcases List.mem_cons.mp hmem with rfl | hmem
    · exact Nat.le_add_right ..
    · exact h.unexpired e hmem
  case fresh =>
    intro key' claim t hclaim
    rcases claimedAt_claim.mp hclaim with hold | ⟨-, rfl, -⟩
    · exact Nat.lt_succ_of_lt (h.fresh key' claim t hold)
    · exact Nat.lt_succ_self _
  case unique =>
    intro key' claim t t' hclaim hclaim'
    rcases claimedAt_claim.mp hclaim with hold | ⟨-, rfl, rfl⟩ <;>
      rcases claimedAt_claim.mp hclaim' with hold' | ⟨-, heq, rfl⟩
    · exact h.unique key' claim t t' hold hold'
    · exact absurd (heq ▸ h.fresh key' claim t hold) (Nat.lt_irrefl _)
    · exact absurd (h.fresh key' _ t' hold') (Nat.lt_irrefl _)
    · rfl

theorem Clocked.release (h : Clocked config store) : Clocked config (store.del key claim) := by
  constructor
  case keyed => exact keyed_del h.keyed
  case entry => simpa only [claimedAt_del] using fun e hmem => h.entry e (mem_del.mp hmem).1
  case unexpired => simpa only [del_now] using fun e hmem => h.unexpired e (mem_del.mp hmem).1
  case fresh => simpa only [claimedAt_del, del_claims] using h.fresh
  case unique => simpa only [claimedAt_del] using h.unique

theorem Clocked.tick (h : Clocked config store) : Clocked config (store.tick n) where
  keyed := h.keyed.sublist (List.filter_sublist.map _)
  entry e hmem := h.entry e (List.mem_of_mem_filter hmem)
  unexpired _ hmem := of_decide_eq_true (List.mem_filter.mp hmem).2
  fresh := h.fresh
  unique := h.unique

/-- A claim made within the last TTL that sets its key goes on setting it. -/
theorem Clocked.hasKey_tick (h : Clocked config store) (hkey : store.HasKey key claim)
    (ht : store.ClaimedAt key claim t) (hle : store.now + n ≤ t + config.ttl) :
    (store.tick n).HasKey key claim := by
  obtain ⟨e, hmem, rfl, rfl⟩ := hkey
  obtain ⟨t', ht', hdeadline⟩ := h.entry e hmem
  rw [h.unique _ _ t t' ht ht', ← hdeadline] at hle
  exact ⟨e, List.mem_filter.mpr ⟨hmem, by simpa using hle⟩, rfl, rfl⟩

-- ---------------------------------------------------------------------------
-- Calls that end in time
-- ---------------------------------------------------------------------------

/-- Claims, sends and holders in a store whose calls end in time. -/
structure Timed (config : Config) (store : Store) (holder : ConsumerId → Option (String × Nat)) :
    Prop where
  keyed : Rows.Keyed Entry.key store.entries
  entry : ∀ e ∈ store.entries, ∃ t, store.ClaimedAt e.key e.claim t ∧ e.deadline = t + config.ttl
  newest : ∀ e ∈ store.entries, ∀ claim t, store.ClaimedAt e.key claim t → claim ≤ e.claim
  unexpired : ∀ e ∈ store.entries, store.now ≤ e.deadline
  fresh : ∀ key claim t, store.ClaimedAt key claim t → claim < store.claims
  unique : ∀ key claim t t', store.ClaimedAt key claim t → store.ClaimedAt key claim t' → t = t'
  held : ∀ c key claim, holder c = some (key, claim) → store.HasKey key claim
  alone : ∀ c c' claim, holder c = some claim → holder c' = some claim → c = c'
  made : ∀ key, ∀ claim ∈ store.sends key, ∃ t, store.ClaimedAt key claim t
  ended : ∀ key, ∀ claim ∈ store.sends key, ∀ c, holder c ≠ some (key, claim)
  kept : ∀ key, ∀ claim ∈ store.sends key, ∀ t, store.ClaimedAt key claim t →
    store.now ≤ t + config.ttl → store.HasKey key claim
  passed : ∀ key, ∀ claim ∈ store.sends key, ∀ t, store.ClaimedAt key claim t →
    ∀ claim' t', store.ClaimedAt key claim' t' → claim < claim' → t + config.ttl < t'
  ordered : ∀ key, (store.sends key).Pairwise fun later earlier => earlier < later

theorem Timed.empty : Timed config .empty fun _ => none where
  keyed := List.nodup_nil
  entry := nofun
  newest := nofun
  unexpired := nofun
  fresh := nofun
  unique := nofun
  held := nofun
  alone := nofun
  made := nofun
  ended := nofun
  kept := nofun
  passed := nofun
  ordered := fun _ => .nil

theorem Timed.clocked (h : Timed config store holder) : Clocked config store :=
  ⟨h.keyed, h.entry, h.unexpired, h.fresh, h.unique⟩

theorem Timed.spaced (h : Timed config store holder) (key : String) :
    SendsSpaced config store key := by
  refine (h.ordered key).imp_of_mem fun {later earlier} hlater hearlier hlt => ?_
  obtain ⟨t, ht⟩ := h.made key later hlater
  obtain ⟨t', ht'⟩ := h.made key earlier hearlier
  exact ⟨t, t', ht, ht', (h.passed key earlier hearlier t' ht' later t ht hlt).le⟩

theorem Timed.holding (h : Timed config store holder) : Holding store holder where
  keyed := h.keyed
  bound := by
    intro entry hmem
    obtain ⟨t, ht, -⟩ := h.entry entry hmem
    exact h.fresh _ _ t ht
  held := h.held
  alone := h.alone

/-- Calls end, or go on under the claim they have. -/
theorem Timed.leave (h : Timed config store holder)
    (hholder : ∀ c claim, holder' c = some claim → holder c = some claim) :
    Timed config store holder' :=
  { h with
    held := fun c key claim hc => h.held c key claim (hholder c _ hc)
    alone := fun c c' claim hc hc' => h.alone c c' claim (hholder c _ hc) (hholder c' _ hc')
    ended := fun key claim hsent c hc => h.ended key claim hsent c (hholder c _ hc) }

theorem Timed.drop (h : Timed config store holder) :
    Timed config store (Function.update holder c none) :=
  h.leave fun _ _ hc => (holder_of_leave hc).2

/-- A record that is neither a claim nor a send. -/
theorem Timed.note (h : Timed config store holder) (event : Event)
    (hclaimed : ∀ key claim t, event ≠ .claimed key claim t)
    (hsent : ∀ key claim t, event ≠ .sent key claim t) : Timed config (store.note event) holder := by
  have hclaim : ∀ key claim t, (store.note event).ClaimedAt key claim t ↔ store.ClaimedAt key claim t :=
    fun _ _ _ => claimedAt_note hclaimed
  have hsends : ∀ key, (store.note event).sends key = store.sends key := fun key =>
    sends_note_of_ne (hsent key)
  have hclocked : Clocked config (store.note event) := h.clocked.note event hclaimed
  constructor
  case keyed => exact hclocked.keyed
  case entry => exact hclocked.entry
  case newest => simpa [hclaim] using h.newest
  case unexpired => exact hclocked.unexpired
  case fresh => exact hclocked.fresh
  case unique => exact hclocked.unique
  case held => exact h.held
  case alone => exact h.alone
  case made => simpa [hclaim, hsends] using h.made
  case ended => simpa [hsends] using h.ended
  case kept => simpa [hclaim, hsends] using h.kept
  case passed => simpa [hclaim, hsends] using h.passed
  case ordered => simpa [hsends] using h.ordered

/-- The key is free: every claim of it that has sent is a TTL old. -/
theorem Timed.acquire (h : Timed config store holder) (hfind : store.find key = none) :
    Timed config (store.claim config key value)
      (Function.update holder c (some (key, store.claims))) := by
  have hsends : ∀ key', (store.claim config key value).sends key' = store.sends key' := fun _ => rfl
  have hsent : ∀ {key' claim t}, claim ∈ store.sends key' →
      (store.claim config key value).ClaimedAt key' claim t → store.ClaimedAt key' claim t := by
    intro key' claim t hmem hclaim
    refine (claimedAt_claim.mp hclaim).resolve_right ?_
    rintro ⟨rfl, rfl, rfl⟩
    obtain ⟨t, ht⟩ := h.made key' store.claims hmem
    exact (h.fresh key' store.claims t ht).false
  have hholding : Holding (store.claim config key value)
      (Function.update holder c (some (key, store.claims))) := h.holding.acquire hfind
  have hclocked : Clocked config (store.claim config key value) := h.clocked.acquire hfind
  constructor
  case keyed => exact hclocked.keyed
  case entry => exact hclocked.entry
  case newest =>
    intro e hmem claim t hclaim
    rcases List.mem_cons.mp hmem with rfl | hmem <;>
      rcases claimedAt_claim.mp hclaim with hold | ⟨hkey, rfl, -⟩
    · exact (h.fresh _ _ _ hold).le
    · exact le_rfl
    · exact h.newest e hmem claim t hold
    · exact absurd hkey (find_none hfind e hmem)
  case unexpired => exact hclocked.unexpired
  case fresh => exact hclocked.fresh
  case unique => exact hclocked.unique
  case held => exact hholding.held
  case alone => exact hholding.alone
  case made =>
    intro key' claim hmem
    obtain ⟨t, ht⟩ := h.made key' claim hmem
    exact ⟨t, claimedAt_claim.mpr (.inl ht)⟩
  case ended =>
    intro key' claim hmem c' hc'
    rcases holder_of_acquire hc' with ⟨-, heq⟩ | ⟨-, hc'⟩
    · cases heq
      obtain ⟨t, ht⟩ := h.made key store.claims hmem
      exact (h.fresh key store.claims t ht).false
    · exact h.ended key' claim hmem c' hc'
  case kept =>
    intro key' claim hmem t hclaim hnow
    exact hasKey_claim (h.kept key' claim hmem t (hsent hmem hclaim) hnow)
  case passed =>
    intro key' claim hmem t hclaim claim' t' hclaim' hlt
    replace hclaim := hsent hmem hclaim
    rcases claimedAt_claim.mp hclaim' with hold | ⟨rfl, -, rfl⟩
    · exact h.passed key' claim hmem t hclaim claim' t' hold hlt
    · by_contra hnow
      obtain ⟨entry, hentry, hkey, -⟩ := h.kept key' claim hmem t hclaim (Nat.not_lt.mp hnow)
      exact find_none hfind entry hentry hkey
  case ordered => exact h.ordered

/-- The call of the newest claim sends and ends. -/
theorem Timed.send (h : Timed config store holder) (hc : holder c = some (key, claim)) (now : Nat) :
    Timed config (store.note (.sent key claim now)) (Function.update holder c none) := by
  obtain ⟨entry, hentry, hkey, hclaim⟩ := h.held c key claim hc
  obtain ⟨t, ht, -⟩ := h.entry entry hentry
  rw [hkey, hclaim] at ht
  have hnewest : ∀ claim' t', store.ClaimedAt key claim' t' → claim' ≤ claim := by
    simpa only [hkey, hclaim] using h.newest entry hentry
  have hclaims : ∀ key' claim' t', (store.note (.sent key claim now)).ClaimedAt key' claim' t' ↔
      store.ClaimedAt key' claim' t' := fun _ _ _ => claimedAt_note (by simp)
  have hmem : ∀ key' claim', claim' ∈ (store.note (.sent key claim now)).sends key' ↔
      key' = key ∧ claim' = claim ∨ claim' ∈ store.sends key' := by
    intro key' claim'
    by_cases hkey' : key = key' <;> simp [Store.sends, Store.note, hkey', eq_comm]
  have hclocked : Clocked config (store.note (.sent key claim now)) := h.clocked.note _ (by simp)
  constructor
  case keyed => exact hclocked.keyed
  case entry => exact hclocked.entry
  case newest => simpa [hclaims] using h.newest
  case unexpired => exact hclocked.unexpired
  case fresh => exact hclocked.fresh
  case unique => exact hclocked.unique
  case held => exact h.drop.held
  case alone => exact h.drop.alone
  case made =>
    intro key' claim' hsent
    simp only [hclaims]
    rcases (hmem key' claim').mp hsent with ⟨rfl, rfl⟩ | hsent
    · exact ⟨t, ht⟩
    · exact h.made key' claim' hsent
  case ended =>
    intro key' claim' hsent c' hc'
    rcases (hmem key' claim').mp hsent with ⟨rfl, rfl⟩ | hsent
    · obtain ⟨hne, hc'⟩ := holder_of_leave hc'
      exact hne (h.alone c' c _ hc' hc)
    · exact h.drop.ended key' claim' hsent c' hc'
  case kept =>
    intro key' claim' hsent t' ht' hnow
    rcases (hmem key' claim').mp hsent with ⟨rfl, rfl⟩ | hsent
    · exact h.held c key' claim' hc
    · exact h.kept key' claim' hsent t' ((hclaims ..).mp ht') hnow
  case passed =>
    intro key' claim' hsent t' ht' claim'' t'' ht'' hlt
    replace ht'' := (hclaims ..).mp ht''
    rcases (hmem key' claim').mp hsent with ⟨rfl, rfl⟩ | hsent
    · exact absurd (hnewest claim'' t'' ht'') (Nat.not_le.mpr hlt)
    · exact h.passed key' claim' hsent t' ((hclaims ..).mp ht') claim'' t'' ht'' hlt
  case ordered =>
    intro key'
    by_cases hkey' : key = key'
    · subst hkey'
      have hsends : (store.note (.sent key claim now)).sends key = claim :: store.sends key := by
        simp [Store.sends, Store.note]
      rw [hsends]
      refine List.pairwise_cons.mpr ⟨fun earlier hearlier => ?_, h.ordered key⟩
      obtain ⟨t', ht'⟩ := h.made key earlier hearlier
      refine (hnewest earlier t' ht').lt_of_ne ?_
      rintro rfl
      exact h.ended key earlier hearlier c hc
    · rw [sends_note_of_ne (by simp [hkey'])]
      exact h.ordered key'

/-- The holder of the key releases it: no other call holds it, and no claim
of it that sent has it. -/
theorem Timed.release (h : Timed config store holder) (hc : holder c = some (key, claim)) :
    Timed config (store.del key claim) (Function.update holder c none) := by
  have hkey := h.held c key claim hc
  have hsends : ∀ key', (store.del key claim).sends key' = store.sends key' := by
    intro key'
    unfold Store.del
    split <;> rfl
  have hholding : Holding (store.del key claim) (Function.update holder c none) := h.holding.release hc
  have hclocked : Clocked config (store.del key claim) := h.clocked.release
  constructor
  case keyed => exact hclocked.keyed
  case entry => exact hclocked.entry
  case newest =>
    intro e hmem
    simpa only [claimedAt_del] using h.newest e (mem_del.mp hmem).1
  case unexpired => exact hclocked.unexpired
  case fresh => exact hclocked.fresh
  case unique => exact hclocked.unique
  case held => exact hholding.held
  case alone => exact hholding.alone
  case made => simpa only [claimedAt_del, hsends] using h.made
  case ended => simpa only [hsends] using h.drop.ended
  case kept =>
    intro key' claim' hsent t ht hle
    rw [hsends] at hsent
    rw [claimedAt_del] at ht
    rw [del_now] at hle
    have hkey' := h.kept key' claim' hsent t ht hle
    refine hasKey_del.mpr ⟨hkey', ?_⟩
    rintro rfl
    obtain rfl := h.holding.eq_of_hasKey hkey hkey'
    exact h.ended _ _ hsent c hc
  case passed => simpa only [claimedAt_del, hsends] using h.passed
  case ordered => simpa only [hsends] using h.ordered

/-- Time passes, and no call goes on past the TTL of its claim. -/
theorem Timed.tick (h : Timed config store holder)
    (htimely : ∀ c key claim t, holder c = some (key, claim) → store.ClaimedAt key claim t →
      store.now + n ≤ t + config.ttl) : Timed config (store.tick n) holder := by
  have hclocked : Clocked config (store.tick n) := h.clocked.tick
  constructor
  case keyed => exact hclocked.keyed
  case entry => exact hclocked.entry
  case newest => exact fun e hmem => h.newest e (List.mem_of_mem_filter hmem)
  case unexpired => exact hclocked.unexpired
  case fresh => exact hclocked.fresh
  case unique => exact hclocked.unique
  case held =>
    intro c key claim hc
    obtain ⟨entry, hentry, rfl, rfl⟩ := h.held c key claim hc
    obtain ⟨t, ht, -⟩ := h.entry entry hentry
    exact h.clocked.hasKey_tick ⟨entry, hentry, rfl, rfl⟩ ht (htimely c _ _ t hc ht)
  case alone => exact h.alone
  case made => exact h.made
  case ended => exact h.ended
  case kept =>
    intro key claim hsent t ht hle
    exact h.clocked.hasKey_tick (h.kept key claim hsent t ht ((Nat.le_add_right ..).trans hle)) ht hle
  case passed => exact h.passed
  case ordered => exact h.ordered

-- ---------------------------------------------------------------------------
-- Runs whose calls end in time
-- ---------------------------------------------------------------------------

/-- Every call ends within the TTL of its claim. -/
def Timely (config : Config) (s : State) : Action → Prop
  | .env n => ∀ c key claim t, claimOf s c = some (key, claim) → s.store.ClaimedAt key claim t →
    s.store.now + n ≤ t + config.ttl
  | _ => True

/-- No key expires. -/
def NoExpiry (s : State) : Action → Prop
  | .env n => ∀ entry ∈ s.store.entries, s.store.now + n ≤ entry.deadline
  | _ => True

section
variable {s s' t : State} {p : Consumer Call}

theorem Timed.put (h : Timed config store (claimOf s))
    (hpc : p.pc.call?.bind Call.claim? = none ∨ p.pc.call?.bind Call.claim? = claimOf s c) :
    Timed config store (claimOf (s.put c p)) := by
  rw [claimOf_put]
  rcases hpc with hpc | hpc
  · rw [hpc]
    exact h.drop
  · rwa [hpc, Function.update_eq_self]

theorem Timed.answered (h : Timed config s.store (claimOf s))
    (hpc : (s.consumers c).pc = .handling delivery event call rest)
    (hanswer : Answered config s.store call answer store progress) :
    Timed config store (claimOf ({ s with store }.goto c (progress.pc delivery event rest))) := by
  have hclaim : claimOf s c = call.claim? := claimOf_handling hpc
  cases hanswer with
  | duplicate hfind hreply =>
    refine (h.note _ (by simp) (by simp)).put (.inl ?_)
    rcases hreply with ⟨-, rfl⟩ | ⟨_, -, rfl⟩ <;> rfl
  | @claimed key _ _ value _ hfind hreply =>
    rw [Site.goto, claimOf_put]
    have hheld : Timed config (s.store.claim config key value)
        (Function.update (claimOf s) c (some (key, s.store.claims))) := h.acquire hfind
    rcases hreply with ⟨-, rfl⟩ | ⟨_, -, rfl⟩
    · exact hheld
    · -- the reply was lost: the claim is made, and nobody works under it
      refine hheld.leave fun c' claim hc' => ?_
      obtain ⟨hne, hc'⟩ := holder_of_leave hc'
      rwa [Function.update_of_ne hne]
  | setRefused | got | getFails | delRefused => exact h.put (.inl rfl)
  | sendRaises => exact h.put (.inr hclaim.symm)
  | sent =>
    rw [Site.goto, claimOf_put]
    exact h.send hclaim _
  | released =>
    rw [Site.goto, claimOf_put]
    exact h.release hclaim

theorem Timed.step (h : Timed config s.store (claimOf s)) (hs : SiteStep (handle config) s action s')
    (htimely : Timely config s action) : Timed config s'.store (claimOf s') := by
  cases hs with
  | start hpc | exit hpc | drop hpc | delete hpc | keep hpc => exact h.put (.inl rfl)
  | killCall | kill => exact h.put (.inl rfl)
  | stop => exact h.put (.inr rfl)
  | receive hpc hq hnext =>
    refine h.put (.inl ?_)
    rcases hnext with ⟨-, rfl⟩ | ⟨-, rfl⟩ <;> rfl
  | next hpc => exact h.put (.inl claim?_open)
  | handle hpc hcall => exact h.answered hpc (step_cases hcall)
  | deliver | expire | redrive => exact h
  | env hstore =>
    cases hstore
    exact h.tick htimely

theorem timed_of_reaches (h : (machine config).Reaches (Timely config) (.empty limit .empty) s) :
    Timed config s.store (claimOf s) :=
  h.invariant (I := fun s => Timed config s.store (claimOf s)) Timed.empty fun _ _ _ hi hc hs =>
    hi.step (Site.step_cases hs) hc

-- ---------------------------------------------------------------------------
-- As long as no key expires
-- ---------------------------------------------------------------------------

/-- The key of a claim that has sent is still set by it. -/
def SendsKeepKey (store : Store) : Prop :=
  ∀ key, ∀ claim ∈ store.sends key, store.HasKey key claim

theorem Timed.timely (h : Timed config s.store (claimOf s)) (hkeys : NoExpiry s action) :
    Timely config s action := by
  cases action with
  | env n =>
    intro c key claim t hc ht
    obtain ⟨entry, hmem, rfl, rfl⟩ := h.held c key claim hc
    obtain ⟨t', ht', hdeadline⟩ := h.entry entry hmem
    rw [h.unique _ _ t t' ht ht', ← hdeadline]
    exact hkeys entry hmem
  | _ => trivial

/-- Only the holder of a claim sends under it. -/
theorem Answered.sends (h : Answered config store call answer store' progress)
    (hmem : claim ∈ store'.sends key) :
    claim ∈ store.sends key ∨ call.claim? = some (key, claim) := by
  cases h with
  | @sent key' claim' =>
    obtain ⟨now, hnow⟩ := mem_sends.mp hmem
    rcases List.mem_cons.mp hnow with heq | hold
    · cases heq
      exact .inr rfl
    · exact .inl (mem_sends.mpr ⟨now, hold⟩)
  | released =>
    obtain ⟨now, hnow⟩ := mem_sends.mp hmem
    exact .inl (mem_sends.mpr ⟨now, (mem_history_del hnow).resolve_right (by rintro ⟨_, ⟨⟩⟩)⟩)
  | _ => exact .inl hmem

theorem Answered.now (h : Answered config store call answer store' progress) :
    store'.now = store.now := by
  cases h with
  | released => exact del_now
  | _ => rfl

structure Unexpired (config : Config) (s : State) : Prop where
  timed : Timed config s.store (claimOf s)
  keeps : SendsKeepKey s.store

/-- A claim of the key that has not expired keeps the key once it has sent. -/
theorem Timed.hasKey_of_sent (h : Timed config store holder) (h' : Timed config store' holder')
    (hgrows : Grows store store') (hnow : ∀ entry ∈ store.entries, store'.now ≤ entry.deadline)
    (hkey : store.HasKey key claim) (hsent : claim ∈ store'.sends key) : store'.HasKey key claim := by
  obtain ⟨entry, hmem, rfl, rfl⟩ := hkey
  obtain ⟨t, ht, hdeadline⟩ := h.entry entry hmem
  exact h'.kept _ _ hsent t (hgrows _ ht) (hdeadline ▸ hnow entry hmem)

theorem Unexpired.step (h : Unexpired config s) (hs : SiteStep (handle config) s action s')
    (hkeys : NoExpiry s action) : Unexpired config s' := by
  have htimed := h.timed.step hs (h.timed.timely hkeys)
  refine ⟨htimed, ?_⟩
  cases hs with
  | @handle c delivery event call rest answer store progress hpc hcall =>
    have hanswer := step_cases hcall
    intro key claim hsent
    refine h.timed.hasKey_of_sent htimed hanswer.grows
      (fun entry hmem => hanswer.now ▸ h.timed.unexpired entry hmem) ?_ hsent
    rcases hanswer.sends hsent with hold | hclaim
    · exact h.keeps key claim hold
    · exact h.timed.held c key claim ((claimOf_handling hpc).trans hclaim)
  | env hstore =>
    cases hstore
    intro key claim hsent
    exact h.timed.hasKey_of_sent htimed (fun _ hmem => hmem) hkeys (h.keeps key claim hsent) hsent
  | _ => exact h.keeps

theorem unexpired_of_reaches (h : (machine config).Reaches NoExpiry (.empty limit .empty) s) :
    Unexpired config s :=
  h.invariant (I := Unexpired config) ⟨Timed.empty, nofun⟩
    fun _ _ _ hi hc hs => hi.step (Site.step_cases hs) hc

theorem Unexpired.sends_le_one (h : Unexpired config s) (key : String) :
    (s.store.sends key).length ≤ 1 := by
  have hkeeps := h.keeps key
  have hordered := h.timed.ordered key
  rcases hsends : s.store.sends key with _ | ⟨later, _ | ⟨earlier, rest⟩⟩
  · exact Nat.zero_le _
  · exact Nat.le_refl _
  · rw [hsends] at hkeeps hordered
    have heq := h.timed.holding.eq_of_hasKey (hkeeps later (by simp)) (hkeeps earlier (by simp))
    have hlt := (List.pairwise_cons.mp hordered).1 earlier List.mem_cons_self
    exact absurd heq hlt.ne'

/-- The text Redis is given for the event's id. -/
def IsEventId (event : Json) (value : String) : Prop :=
  ∃ eventId, getItem event "event_id" = .ok eventId ∧ redisValue eventId = .ok value

/-- The key is set by the claim, to the event's id. -/
def Store.KeepsEventId (store : Store) (key : String) (claim : Nat) (event : Json) : Prop :=
  ∃ entry ∈ store.entries, entry.key = key ∧ entry.claim = claim ∧ IsEventId event entry.value

/-- What a call is about to set, or what its claim has set, is the event id. -/
def Valued (store : Store) (event : Json) : Call → Prop
  | .claiming _ value _ => IsEventId event value
  | .duplicate _ => True
  | .claimed key claim _ | .releasing key claim _ => store.KeepsEventId key claim event

/-- An entry whose claim was made before is the entry that claim made. -/
structure Succeeds (store store' : Store) : Prop where
  claims : store.claims ≤ store'.claims
  entries : ∀ entry ∈ store'.entries, entry.claim < store.claims → entry ∈ store.entries

theorem Succeeds.refl (store : Store) : Succeeds store store := ⟨le_rfl, fun _ h _ => h⟩

theorem Succeeds.trans (h : Succeeds store store') (h' : Succeeds store' store'') :
    Succeeds store store'' := by
  refine ⟨h.claims.trans h'.claims, fun entry hmem hlt => ?_⟩
  exact h.entries entry (h'.entries entry hmem (hlt.trans_le h.claims)) hlt

theorem Answered.succeeds (h : Answered config store call answer store' progress) :
    Succeeds store store' := by
  cases h with
  | claimed =>
    refine ⟨Nat.le_succ _, fun entry hmem hlt => ?_⟩
    rcases List.mem_cons.mp hmem with rfl | hmem
    · exact absurd hlt (Nat.lt_irrefl _)
    · exact hmem
  | released =>
    exact ⟨del_claims.ge, fun entry hmem _ => (mem_del.mp hmem).1⟩
  | _ => exact ⟨le_rfl, fun _ h _ => h⟩

theorem succeeds_of_step (hs : SiteStep (handle config) s action s') :
    Succeeds s.store s'.store := by
  cases hs with
  | handle hpc hcall => exact (step_cases hcall).succeeds
  | env hstore =>
    cases hstore
    exact ⟨le_rfl, fun entry hmem _ => List.mem_of_mem_filter hmem⟩
  | _ => exact .refl _

theorem Timed.mem_of_succeeds {e : Entry} (h : Timed config store holder)
    (hlater : Succeeds store store') (hmem : e ∈ store.entries)
    (hkey : store'.HasKey e.key e.claim) : e ∈ store'.entries := by
  obtain ⟨e', hmem', hk, hclaim⟩ := hkey
  obtain ⟨t, ht, -⟩ := h.entry e hmem
  have hold := hlater.entries e' hmem' (hclaim ▸ h.fresh _ _ t ht)
  rwa [h.keyed.eq_of_mem hmem hold hk.symm]

theorem Valued.later (h : Timed config store holder) (hlater : Succeeds store store')
    (hheld : ∀ key claim, call.claim? = some (key, claim) → store'.HasKey key claim)
    (hvalued : Valued store event call) : Valued store' event call := by
  cases call with
  | claiming | duplicate => exact hvalued
  | claimed key claim | releasing key claim =>
    obtain ⟨entry, hmem, rfl, rfl, hvalue⟩ := hvalued
    exact ⟨entry, h.mem_of_succeeds hlater hmem (hheld _ _ rfl), rfl, rfl, hvalue⟩

theorem Answered.valued (h : Answered config store call answer store' (.continues call'))
    (hvalued : Valued store event call) : Valued store' event call' := by
  cases h with
  | duplicate hfind hreply =>
    rcases hreply with ⟨-, heq⟩ | ⟨_, -, heq⟩ <;> cases heq
    trivial
  | claimed hfind hreply =>
    rcases hreply with ⟨-, heq⟩ | ⟨_, -, heq⟩ <;> cases heq
    exact ⟨_, List.mem_cons_self, rfl, rfl, hvalued⟩
  | sendRaises => exact hvalued

theorem valued_start (h : start event = .ok call) : Valued store event call := by
  simp only [start, Except.bind_eq_ok, Except.pure_eq_ok] at h
  obtain ⟨key, -, payload, -, eventId, hid, value, hvalue, rfl⟩ := h
  exact ⟨eventId, hid, hvalue⟩

/-- Every call in progress is `Valued`. -/
def CallsValued (s : State) : Prop :=
  ∀ c delivery event call rest, (s.consumers c).pc = .handling delivery event call rest →
    Valued s.store event call

theorem CallsValued.step (h : CallsValued s) (htimed : Timed config s.store (claimOf s))
    (hs : SiteStep (handle config) s action s') (htimed' : Timed config s'.store (claimOf s')) :
    CallsValued s' := by
  have hlater := succeeds_of_step hs
  -- a call that was there before has its entry still
  have hkeep : ∀ c delivery event call rest,
      (s.consumers c).pc = .handling delivery event call rest →
      (s'.consumers c).pc = .handling delivery event call rest → Valued s'.store event call := by
    intro c delivery event call rest hpc hpc'
    refine Valued.later htimed hlater (fun key claim hclaim => ?_) (h c delivery event call rest hpc)
    exact htimed'.held c key claim ((claimOf_handling hpc').trans hclaim)
  have hput : ∀ {c p}, s'.consumers = Function.update s.consumers c p →
      (∀ delivery event call rest, p.pc = .handling delivery event call rest →
        Valued s'.store event call) → CallsValued s' := by
    intro c p heq hp c' delivery event call rest hpc
    by_cases hc : c' = c
    · rw [heq, hc, Function.update_self] at hpc
      exact hp delivery event call rest hpc
    · refine hkeep c' delivery event call rest ?_ hpc
      rwa [heq, Function.update_of_ne hc] at hpc
  cases hs with
  | start | exit | drop | delete | keep | killCall | kill => exact hput rfl nofun
  | @stop c =>
    refine hput rfl fun delivery event call rest hpc => h c delivery event call rest hpc
  | receive hpc hq hnext =>
    refine hput rfl ?_
    rcases hnext with ⟨-, rfl⟩ | ⟨-, rfl⟩ <;> exact nofun
  | next hpc =>
    refine hput rfl (Handler.open_cases nofun fun event call _ hstart => ?_)
    rintro _ _ _ _ ⟨⟩
    exact valued_start hstart
  | @handle c delivery event call rest answer store progress hpc hcall =>
    refine hput rfl fun delivery' event' call' rest' hpc' => ?_
    cases progress with
    | continues next =>
      cases hpc'
      exact (step_cases hcall).valued (h c _ _ _ _ hpc)
    | returned | raised => cases hpc'
  | deliver | expire | redrive => exact fun c _ _ _ _ hpc => hkeep c _ _ _ _ hpc hpc
  | env => exact fun c _ _ _ _ hpc => hkeep c _ _ _ _ hpc hpc

theorem callsValued_of_reaches (h : (machine config).Reaches NoExpiry (.empty limit .empty) s) :
    CallsValued s := by
  have hboth : Unexpired config s ∧ CallsValued s := by
    refine h.invariant (I := fun s => Unexpired config s ∧ CallsValued s)
      ⟨⟨Timed.empty, nofun⟩, nofun⟩ ?_
    rintro t action u ⟨hi, hv⟩ hc hs
    have hs := Site.step_cases hs
    have hi' := hi.step hs hc
    exact ⟨hi', hv.step hi.timed hs hi'.timed⟩
  exact hboth.2

theorem succeeds_of_reaches {C : State → Action → Prop} (h : (machine config).Reaches C t s) :
    Succeeds t.store s.store := by
  induction h with
  | refl => exact .refl _
  | next action _ _ hs ih => exact ih.trans (succeeds_of_step (Site.step_cases hs))

theorem timely_of_noExpiry (h : (machine config).Reaches NoExpiry (.empty limit .empty) s) :
    (machine config).Reaches (Timely config) (.empty limit .empty) s := by
  induction h with
  | refl => exact .refl
  | next action ht hc hs ih => exact .next action ih ((unexpired_of_reaches ht).timed.timely hc) hs

/-- What a call claimed and sent for keeps the event id it claimed with. -/
theorem keepsEventId_of_reaches (h : (machine config).Reaches NoExpiry (.empty limit .empty) t)
    (h' : (machine config).Reaches NoExpiry t s)
    (hpc : (t.consumers c).pc = .handling delivery event (.claimed key claim payload) rest)
    (hsent : claim ∈ s.store.sends key) : s.store.KeepsEventId key claim event := by
  obtain ⟨entry, hmem, rfl, rfl, hvalue⟩ := callsValued_of_reaches h c _ _ _ _ hpc
  have hkey := (unexpired_of_reaches (h.trans h')).keeps _ _ hsent
  have hold := (unexpired_of_reaches h).timed.mem_of_succeeds (succeeds_of_reaches h') hmem hkey
  exact ⟨entry, hold, rfl, rfl, hvalue⟩

/-- Sends for one order belong to claims a TTL apart; without expiry there is
one at most, and its key keeps the event id. -/
theorem notified_once_per_window (config : Config) (limit : Nat) :
    (∀ s, (machine config).Reaches (Timely config) (.empty limit .empty) s →
      ∀ orderId, SendsSpaced config s.store (notifyKey orderId)) ∧
    (∀ s, (machine config).Reaches NoExpiry (.empty limit .empty) s →
      ∀ orderId, (s.store.sends (notifyKey orderId)).length ≤ 1) ∧
    ∀ t s, (machine config).Reaches NoExpiry (.empty limit .empty) t →
      (machine config).Reaches NoExpiry t s → ∀ c delivery event key claim payload rest,
        (t.consumers c).pc = .handling delivery event (.claimed key claim payload) rest →
        claim ∈ s.store.sends key → s.store.KeepsEventId key claim event :=
  ⟨fun _ h _ => (timed_of_reaches h).spaced _, fun _ h _ => (unexpired_of_reaches h).sends_le_one _,
    fun _ _ h h' _ _ _ _ _ _ _ hpc hsent => keepsEventId_of_reaches h h' hpc hsent⟩

end

theorem Smooth.noExpiry (h : Smooth s action) : NoExpiry s action := by
  cases action with
  | env n => exact h
  | _ => trivial

theorem Calm.noExpiry (h : (machine config).Reaches Calm t s) :
    (machine config).Reaches NoExpiry t s := h.mono fun _ _ hc => hc.uncontested.1.noExpiry

theorem notified_once_keyboard : ∃ t s,
    (machine defaultConfig).Reaches NoExpiry (.empty 5 .empty) t ∧
    (machine defaultConfig).Reaches NoExpiry t s ∧
    SendsSpaced defaultConfig s.store (notifyKey (UUID.str ⟨1⟩)) ∧
    s.store.sends (notifyKey (UUID.str ⟨1⟩)) = [0] ∧
    (s.store.sends (notifyKey (UUID.str ⟨1⟩))).length ≤ 1 ∧
    s.store.KeepsEventId (notifyKey (UUID.str ⟨1⟩)) 0 (buildMessage keyboardRow) := by
  have hbody := unwrap_keyboardBody (Nat.le_add_right 3 2)
  have hclaimed := Calm.noExpiry (reaches_duo.trans
    (reaches_claimed (open_of_unwrap keyboardRow_payload hbody)))
  have hsend : sendable keyboardRow.payload = .ok () := keyboardRow_payload ▸ sendable_buildPayload
  have hsent := Calm.noExpiry (@reaches_sent keyboardBody (notifyKey (UUID.str ⟨1⟩))
    keyboardRow.id.str (buildMessage keyboardRow) _ hsend)
  have hsends : ((claimedStore (notifyKey (UUID.str ⟨1⟩)) keyboardRow.id.str).note
      (.sent (notifyKey (UUID.str ⟨1⟩)) 0 0)).sends (notifyKey (UUID.str ⟨1⟩)) = [0] := by
    simp [Store.sends, Store.note, claimedStore, Store.claim, Store.empty]
  obtain ⟨hspaced, hone, hkeeps⟩ := notified_once_per_window defaultConfig 5
  refine ⟨_, _, hclaimed, hsent, hspaced _ (timely_of_noExpiry (hclaimed.trans hsent)) _, hsends,
    hone _ (hclaimed.trans hsent) _, ?_⟩
  exact hkeeps _ _ hclaimed hsent 0 _ _ _ _ _ _ duo_pc₀ (hsends ▸ List.mem_singleton_self 0)

end OutboxFanout.Notifications
