import OutboxFanout.Lib.Path
import OutboxFanout.Notifications.Spacing

/-!
# Whose claim a release removes

`handle` releases with a plain DEL. A key is set by the claim in force, made
within the last TTL and not released (`hasKey_iff`), whoever made it; so a
release removes another call's claim just when its own has outlived the TTL and
another is in force (`releases_own_iff`).
-/

namespace OutboxFanout.Notifications

variable {config : Config} {store store' : Store} {s s' : State}

def Store.Released (store : Store) (key : String) (claim : Nat) : Prop :=
  ∃ releaser, .released key releaser claim ∈ store.history

/-- The claim was made within the last TTL and has not been released. -/
def Store.InForce (config : Config) (store : Store) (key : String) (claim : Nat) : Prop :=
  ∃ t, store.ClaimedAt key claim t ∧ store.now ≤ t + config.ttl ∧ ¬store.Released key claim

-- ---------------------------------------------------------------------------
-- The key is set by the claim in force
-- ---------------------------------------------------------------------------

structure Dated (config : Config) (store : Store) : Prop where
  keyed : Rows.Keyed Entry.key store.entries
  entry : ∀ e ∈ store.entries, ∃ t, store.ClaimedAt e.key e.claim t ∧ e.deadline = t + config.ttl
  unexpired : ∀ e ∈ store.entries, store.now ≤ e.deadline
  unreleased : ∀ e ∈ store.entries, ¬store.Released e.key e.claim
  fresh : ∀ key claim t, store.ClaimedAt key claim t → claim < store.claims
  bound : ∀ key claim, store.Released key claim → claim < store.claims
  unique : ∀ key claim t t', store.ClaimedAt key claim t → store.ClaimedAt key claim t' → t = t'
  kept : ∀ key claim, store.InForce config key claim → store.HasKey key claim

theorem Dated.empty : Dated config .empty where
  keyed := List.nodup_nil
  entry := nofun
  unexpired := nofun
  unreleased := nofun
  fresh := nofun
  bound := by rintro _ _ ⟨_, ⟨⟩⟩
  unique := nofun
  kept := by rintro _ _ ⟨_, ⟨⟩, _⟩

theorem Dated.clocked (h : Dated config store) : Clocked config store :=
  ⟨h.keyed, h.entry, h.unexpired, h.fresh, h.unique⟩

theorem Dated.hasKey_iff (h : Dated config store) :
    store.HasKey key claim ↔ store.InForce config key claim := by
  constructor
  · rintro ⟨e, hmem, rfl, rfl⟩
    obtain ⟨t, ht, hdeadline⟩ := h.entry e hmem
    exact ⟨t, ht, hdeadline ▸ h.unexpired e hmem, h.unreleased e hmem⟩
  · exact h.kept key claim

theorem Dated.find_of_inForce (h : Dated config store) (hforce : store.InForce config key claim) :
    ∃ e, store.find key = some e ∧ e.claim = claim := by
  obtain ⟨e, hmem, hkey, hclaim⟩ := h.kept key claim hforce
  cases hfind : store.find key with
  | none => exact absurd hkey (find_none hfind e hmem)
  | some e' =>
    obtain ⟨hmem', hkey'⟩ := find_some hfind
    obtain rfl := h.keyed.eq_of_mem hmem hmem' (hkey.trans hkey'.symm)
    exact ⟨e, rfl, hclaim⟩

/-- A record that is neither a claim nor a release. -/
theorem Dated.note (h : Dated config store) (event : Event)
    (hclaimed : ∀ key claim t, event ≠ .claimed key claim t)
    (hreleased : ∀ key releaser claim, event ≠ .released key releaser claim) :
    Dated config (store.note event) := by
  have hclaim : ∀ key claim t, (store.note event).ClaimedAt key claim t ↔
      store.ClaimedAt key claim t := fun _ _ _ => claimedAt_note hclaimed
  have hrelease : ∀ key claim, (store.note event).Released key claim ↔ store.Released key claim :=
    fun key claim => by
      simp [Store.Released, Store.note, (hreleased key _ claim).symm]
  have hclocked : Clocked config (store.note event) := h.clocked.note event hclaimed
  constructor
  case keyed => exact hclocked.keyed
  case entry => exact hclocked.entry
  case unexpired => exact hclocked.unexpired
  case unreleased => simpa [hrelease] using h.unreleased
  case fresh => exact hclocked.fresh
  case bound => simpa [hrelease] using h.bound
  case unique => exact hclocked.unique
  case kept => simpa [Store.InForce, hclaim, hrelease] using h.kept

theorem released_claim : (store.claim config key value).Released key' claim ↔
    store.Released key' claim := by
  simp [Store.Released, Store.claim, Store.note]

theorem Dated.acquire (h : Dated config store) (hfind : store.find key = none) :
    Dated config (store.claim config key value) := by
  have hclocked : Clocked config (store.claim config key value) := h.clocked.acquire hfind
  constructor
  case keyed => exact hclocked.keyed
  case entry => exact hclocked.entry
  case unexpired => exact hclocked.unexpired
  case unreleased =>
    intro e hmem
    rw [released_claim]
    rcases List.mem_cons.mp hmem with rfl | hmem
    · exact fun hreleased => (h.bound _ _ hreleased).false
    · exact h.unreleased e hmem
  case fresh => exact hclocked.fresh
  case bound => exact fun key' claim hreleased =>
    Nat.lt_succ_of_lt (h.bound key' claim (released_claim.mp hreleased))
  case unique => exact hclocked.unique
  case kept =>
    rintro key' claim ⟨t, hclaim, hnow, hreleased⟩
    rw [released_claim] at hreleased
    rcases claimedAt_claim.mp hclaim with hold | ⟨rfl, rfl, -⟩
    · exact hasKey_claim (h.kept key' claim ⟨t, hold, hnow, hreleased⟩)
    · exact ⟨_, List.mem_cons_self, rfl, rfl⟩

theorem released_del : (store.del key claim).Released key' claim' ↔
    store.Released key' claim' ∨ key' = key ∧ ∃ e, store.find key = some e ∧ e.claim = claim' := by
  unfold Store.del
  split
  next e hfind => simp [Store.Released, Store.note, hfind, eq_comm, or_comm, exists_or]
  next hfind => simp [hfind]

theorem Dated.release (h : Dated config store) : Dated config (store.del key claim) := by
  have hclocked : Clocked config (store.del key claim) := h.clocked.release
  constructor
  case keyed => exact hclocked.keyed
  case entry => exact hclocked.entry
  case unexpired => exact hclocked.unexpired
  case unreleased =>
    intro e hmem hreleased
    obtain ⟨hmem, hne⟩ := mem_del.mp hmem
    rcases released_del.mp hreleased with hold | ⟨hkey, -⟩
    · exact h.unreleased e hmem hold
    · exact hne hkey
  case fresh => exact hclocked.fresh
  case bound =>
    intro key' claim' hreleased
    rw [del_claims]
    rcases released_del.mp hreleased with hold | ⟨rfl, e, hfind, rfl⟩
    · exact h.bound key' claim' hold
    · obtain ⟨t, ht, -⟩ := h.entry e (find_some hfind).1
      exact h.fresh _ _ t ht
  case unique => exact hclocked.unique
  case kept =>
    rintro key' claim' ⟨t, hclaim, hnow, hreleased⟩
    rw [claimedAt_del] at hclaim
    rw [del_now] at hnow
    rw [released_del] at hreleased
    have hforce : store.InForce config key' claim' :=
      ⟨t, hclaim, hnow, fun hold => hreleased (.inl hold)⟩
    refine hasKey_del.mpr ⟨h.kept key' claim' hforce, ?_⟩
    rintro rfl
    exact hreleased (.inr ⟨rfl, h.find_of_inForce hforce⟩)

theorem Dated.tick (h : Dated config store) : Dated config (store.tick n) := by
  have hclocked : Clocked config (store.tick n) := h.clocked.tick
  constructor
  case keyed => exact hclocked.keyed
  case entry => exact hclocked.entry
  case unexpired => exact hclocked.unexpired
  case unreleased => exact fun e hmem => h.unreleased e (List.mem_of_mem_filter hmem)
  case fresh => exact hclocked.fresh
  case bound => exact h.bound
  case unique => exact hclocked.unique
  case kept =>
    rintro key claim ⟨t, hclaim, hnow, hreleased⟩
    have hforce : store.InForce config key claim :=
      ⟨t, hclaim, (Nat.le_add_right ..).trans hnow, hreleased⟩
    exact h.clocked.hasKey_tick (h.kept key claim hforce) hclaim hnow

theorem Dated.answered (h : Dated config store)
    (hanswer : Answered config store call answer store' progress) : Dated config store' := by
  cases hanswer with
  | duplicate => exact h.note _ nofun nofun
  | claimed hfind => exact h.acquire hfind
  | sent => exact h.note _ nofun nofun
  | released => exact h.release
  | setRefused | got | getFails | sendRaises | delRefused => exact h

theorem Dated.step (h : Dated config s.store) (hs : SiteStep (handle config) s action s') :
    Dated config s'.store := by
  cases hs with
  | handle hpc hcall => exact h.answered (step_cases hcall)
  | env hstore => cases hstore; exact h.tick
  | _ => exact h

-- ---------------------------------------------------------------------------
-- The claims of the calls in progress
-- ---------------------------------------------------------------------------

/-- A call works under a claim it has made and not released, alone. -/
structure Underway (store : Store) (holder : ConsumerId → Option (String × Nat)) : Prop where
  made : ∀ c key claim, holder c = some (key, claim) → ∃ t, store.ClaimedAt key claim t
  pending : ∀ c key claim, holder c = some (key, claim) →
    ∀ removed, .released key claim removed ∉ store.history
  alone : ∀ c c' claim, holder c = some claim → holder c' = some claim → c = c'
  bound : ∀ key releaser removed, .released key releaser removed ∈ store.history →
    releaser < store.claims

section
variable {holder holder' : ConsumerId → Option (String × Nat)}

theorem Underway.empty : Underway .empty fun _ => none := ⟨nofun, nofun, nofun, nofun⟩

theorem Underway.leave (h : Underway store holder)
    (hholder : ∀ c claim, holder' c = some claim → holder c = some claim) :
    Underway store holder' where
  made c key claim hc := h.made c key claim (hholder c _ hc)
  pending c key claim hc := h.pending c key claim (hholder c _ hc)
  alone c c' claim hc hc' := h.alone c c' claim (hholder c _ hc) (hholder c' _ hc')
  bound := h.bound

theorem Underway.drop (h : Underway store holder) :
    Underway store (Function.update holder c none) :=
  h.leave fun _ _ hc => (holder_of_leave hc).2

/-- A record that is neither a claim nor a release. -/
theorem Underway.note (h : Underway store holder) (event : Event)
    (hreleased : ∀ key releaser claim, event ≠ .released key releaser claim) :
    Underway (store.note event) holder := by
  have hold : ∀ {key releaser removed}, .released key releaser removed ∈ (store.note event).history →
      .released key releaser removed ∈ store.history := fun hmem =>
    (List.mem_cons.mp hmem).resolve_left (hreleased _ _ _).symm
  refine ⟨fun c key claim hc => ?_, fun c key claim hc removed hmem => ?_, h.alone,
    fun key releaser removed hmem => h.bound key releaser removed (hold hmem)⟩
  · obtain ⟨t, ht⟩ := h.made c key claim hc
    exact ⟨t, List.mem_cons_of_mem _ ht⟩
  · exact h.pending c key claim hc removed (hold hmem)

/-- The number of a new claim is new. -/
theorem Underway.acquire (h : Underway store holder) (hdated : Dated config store) :
    Underway (store.claim config key value)
      (Function.update holder c (some (key, store.claims))) := by
  have hfresh : ∀ c', holder c' ≠ some (key, store.claims) := by
    intro c' hc'
    obtain ⟨t, ht⟩ := h.made c' key _ hc'
    exact (hdated.fresh key _ t ht).false
  have hold : ∀ {key' releaser removed},
      .released key' releaser removed ∈ (store.claim config key value).history →
      .released key' releaser removed ∈ store.history := fun hmem =>
    (List.mem_cons.mp hmem).resolve_left (by rintro ⟨⟩)
  constructor
  case made =>
    intro c' key' claim hc'
    rcases holder_of_acquire hc' with ⟨-, heq⟩ | ⟨-, hc'⟩
    · cases heq
      exact ⟨_, claimedAt_claim.mpr (.inr ⟨rfl, rfl, rfl⟩)⟩
    · obtain ⟨t, ht⟩ := h.made c' key' claim hc'
      exact ⟨t, claimedAt_claim.mpr (.inl ht)⟩
  case pending =>
    intro c' key' claim hc' removed hmem
    rcases holder_of_acquire hc' with ⟨-, heq⟩ | ⟨-, hc'⟩
    · cases heq
      exact (h.bound _ _ _ (hold hmem)).false
    · exact h.pending c' key' claim hc' removed (hold hmem)
  case alone => exact fun _ _ _ => alone_of_acquire h.alone hfresh
  case bound => exact fun key' releaser removed hmem =>
    Nat.lt_succ_of_lt (h.bound key' releaser removed (hold hmem))

theorem mem_history_del_released
    (hmem : .released key' releaser removed ∈ (store.del key claim).history) :
    .released key' releaser removed ∈ store.history ∨ key' = key ∧ releaser = claim := by
  rcases mem_history_del hmem with hold | ⟨removed, heq⟩
  · exact .inl hold
  · cases heq
    exact .inr ⟨rfl, rfl⟩

theorem Underway.release (h : Underway store holder) (hdated : Dated config store)
    (hc : holder c = some (key, claim)) :
    Underway (store.del key claim) (Function.update holder c none) := by
  constructor
  case made =>
    intro c' key' claim' hc'
    obtain ⟨t, ht⟩ := h.made c' key' claim' (holder_of_leave hc').2
    exact ⟨t, claimedAt_del.mpr ht⟩
  case pending =>
    intro c' key' claim' hc' removed hmem
    obtain ⟨hne, hc'⟩ := holder_of_leave hc'
    rcases mem_history_del_released hmem with hold | ⟨rfl, rfl⟩
    · exact h.pending c' key' claim' hc' removed hold
    · exact hne (h.alone c' c _ hc' hc)
  case alone => exact h.drop.alone
  case bound =>
    intro key' releaser removed hmem
    rw [del_claims]
    rcases mem_history_del_released hmem with hold | ⟨rfl, rfl⟩
    · exact h.bound key' releaser removed hold
    · obtain ⟨t, ht⟩ := h.made c key' releaser hc
      exact hdated.fresh key' releaser t ht

end

theorem Underway.put {p : Consumer Call} (h : Underway store (claimOf s))
    (hpc : p.pc.call?.bind Call.claim? = none ∨ p.pc.call?.bind Call.claim? = claimOf s c) :
    Underway store (claimOf (s.put c p)) := by
  rw [claimOf_put]
  rcases hpc with hpc | hpc
  · rw [hpc]
    exact h.drop
  · rwa [hpc, Function.update_eq_self]

theorem Underway.answered (h : Underway s.store (claimOf s)) (hdated : Dated config s.store)
    (hpc : (s.consumers c).pc = .handling delivery event call rest)
    (hanswer : Answered config s.store call answer store progress) :
    Underway store (claimOf ({ s with store }.goto c (progress.pc delivery event rest))) := by
  have hclaim : claimOf s c = call.claim? := claimOf_handling hpc
  cases hanswer with
  | duplicate hfind hreply =>
    refine (h.note _ (by simp)).put (.inl ?_)
    rcases hreply with ⟨-, rfl⟩ | ⟨_, -, rfl⟩ <;> rfl
  | @claimed key _ _ value _ hfind hreply =>
    rw [Site.goto, claimOf_put]
    have hheld : Underway (s.store.claim config key value)
        (Function.update (claimOf s) c (some (key, s.store.claims))) := h.acquire hdated
    rcases hreply with ⟨-, rfl⟩ | ⟨_, -, rfl⟩
    · exact hheld
    · refine hheld.leave fun c' claim hc' => ?_
      obtain ⟨hne, hc'⟩ := holder_of_leave hc'
      rwa [Function.update_of_ne hne]
  | setRefused | got | getFails | delRefused => exact h.put (.inl rfl)
  | sendRaises => exact h.put (.inr hclaim.symm)
  | sent => exact (h.note _ (by simp)).put (.inl rfl)
  | released =>
    rw [Site.goto, claimOf_put]
    exact h.release hdated hclaim

theorem Underway.step (h : Underway s.store (claimOf s)) (hdated : Dated config s.store)
    (hs : SiteStep (handle config) s action s') : Underway s'.store (claimOf s') := by
  cases hs with
  | start | exit | drop | delete | keep | killCall | kill => exact h.put (.inl rfl)
  | stop => exact h.put (.inr rfl)
  | receive hpc hq hnext =>
    refine h.put (.inl ?_)
    rcases hnext with ⟨-, rfl⟩ | ⟨-, rfl⟩ <;> rfl
  | next hpc => exact h.put (.inl claim?_open)
  | handle hpc hcall => exact h.answered hdated hpc (step_cases hcall)
  | deliver | expire | redrive => exact h
  | env hstore => cases hstore; exact ⟨h.made, h.pending, h.alone, h.bound⟩

-- ---------------------------------------------------------------------------
-- Releases
-- ---------------------------------------------------------------------------

/-- No DEL has removed the claim of another call. -/
def Store.OwnReleases (store : Store) : Prop :=
  ∀ key releaser removed, .released key releaser removed ∈ store.history → removed = releaser

/-- … so a claim lasts until its own call releases it or its TTL has passed. -/
structure ReleasesOwn (config : Config) (store : Store) : Prop where
  own : store.OwnReleases
  lasts : ∀ key claim t, store.ClaimedAt key claim t → store.now ≤ t + config.ttl →
    .released key claim claim ∉ store.history → store.HasKey key claim

/-- The condition: a call whose claim has outlived the TTL executes its DEL only
while no other claim of the key is in force. -/
def ReleasesInTime (config : Config) (s : State) : Action → Prop
  | .consumer c (.handle (.del reply)) => (∃ exc, reply = .refused exc) ∨
    ∀ key claim, claimOf s c = some (key, claim) →
      (∀ t, s.store.ClaimedAt key claim t → s.store.now ≤ t + config.ttl) ∨
        ∀ other, s.store.InForce config key other → other = claim
  | _ => True

structure OnlyOwn (config : Config) (s : State) : Prop where
  dated : Dated config s.store
  underway : Underway s.store (claimOf s)
  own : s.store.OwnReleases

theorem OnlyOwn.empty : OnlyOwn config (.empty limit .empty) := ⟨.empty, .empty, nofun⟩

theorem ownReleases_note (h : store.OwnReleases)
    (hevent : ∀ key releaser claim, event ≠ .released key releaser claim) :
    (store.note event).OwnReleases := fun key releaser removed hmem =>
  h key releaser removed ((List.mem_cons.mp hmem).resolve_left (hevent _ _ _).symm)

theorem ownReleases_del (h : store.OwnReleases)
    (hfind : ∀ e, store.find key = some e → e.claim = claim) :
    (store.del key claim).OwnReleases := by
  intro key' releaser removed hmem
  unfold Store.del at hmem
  split at hmem
  next e hkey =>
    rcases List.mem_cons.mp hmem with heq | hold
    · cases heq
      exact hfind e hkey
    · exact h key' releaser removed hold
  next => exact h key' releaser removed hmem

/-- As long as its TTL has not passed, the claim of a call in progress is in force. -/
theorem OnlyOwn.inForce (h : OnlyOwn config s) (hc : claimOf s c = some (key, claim))
    (hnow : ∀ t, s.store.ClaimedAt key claim t → s.store.now ≤ t + config.ttl) :
    s.store.InForce config key claim := by
  obtain ⟨t, ht⟩ := h.underway.made c key claim hc
  refine ⟨t, ht, hnow t ht, ?_⟩
  rintro ⟨releaser, hmem⟩
  obtain rfl := h.own _ _ _ hmem
  exact h.underway.pending c key claim hc claim hmem

/-- A DEL executed in time finds the call's own claim, or none. -/
theorem OnlyOwn.find_own (h : OnlyOwn config s) (hc : claimOf s c = some (key, claim))
    (hin : (∀ t, s.store.ClaimedAt key claim t → s.store.now ≤ t + config.ttl) ∨
      ∀ other, s.store.InForce config key other → other = claim)
    (hfind : s.store.find key = some e) : e.claim = claim := by
  rcases hin with hnow | hnone
  · obtain ⟨e', hfind', hclaim⟩ := h.dated.find_of_inForce (h.inForce hc hnow)
    rw [hfind] at hfind'
    cases hfind'
    exact hclaim
  · obtain ⟨hmem, hkey⟩ := find_some hfind
    exact hnone _ (h.dated.hasKey_iff.mp ⟨e, hmem, hkey, rfl⟩)

theorem OnlyOwn.step (h : OnlyOwn config s) (hs : SiteStep (handle config) s action s')
    (hin : ReleasesInTime config s action) : OnlyOwn config s' := by
  refine ⟨h.dated.step hs, h.underway.step h.dated hs, ?_⟩
  cases hs with
  | @handle c _ _ call _ _ _ _ hpc hcall =>
    have hclaim : claimOf s c = call.claim? := claimOf_handling hpc
    cases step_cases hcall with
    | duplicate | claimed | sent => exact ownReleases_note h.own (by simp)
    | released hreply =>
      rcases hin with ⟨_, rfl⟩ | hin
      · rcases hreply with heq | ⟨_, heq⟩ <;> cases heq
      · exact ownReleases_del h.own fun e hfind => h.find_own hclaim (hin _ _ hclaim) hfind
    | setRefused | got | getFails | sendRaises | delRefused => exact h.own
  | env hstore => cases hstore; exact h.own
  | _ => exact h.own

/-- A DEL executed too late removes the claim in force. -/
theorem OnlyOwn.slip (h : OnlyOwn config s) (hs : SiteStep (handle config) s action s')
    (hlate : ¬ReleasesInTime config s action) : ¬s'.store.OwnReleases := by
  cases hs with
  | @handle c _ _ call _ _ _ _ hpc hcall =>
    have hclaim : claimOf s c = call.claim? := claimOf_handling hpc
    cases step_cases hcall with
    | @released reply key claim _ _ hreply =>
      simp only [ReleasesInTime, hclaim, not_or, not_forall] at hlate
      obtain ⟨-, key', claim', heq, -, other, hforce, hother⟩ := hlate
      cases heq
      obtain ⟨e, hfind, rfl⟩ := h.dated.find_of_inForce hforce
      intro hown
      refine hother (hown key claim e.claim ?_)
      simp [Store.del, hfind, Store.note]
    | delRefused => exact absurd (.inl ⟨_, rfl⟩) hlate
    | _ => exact absurd trivial hlate
  | _ => exact absurd trivial hlate

theorem ownReleases_of_grows (hgrows : Grows store store') (h : store'.OwnReleases) :
    store.OwnReleases := fun key releaser removed hmem => h key releaser removed (hgrows _ hmem)

theorem OnlyOwn.releasesOwn (h : OnlyOwn config s) : ReleasesOwn config s.store := by
  refine ⟨h.own, fun key claim t ht hnow hpending => h.dated.kept key claim ⟨t, ht, hnow, ?_⟩⟩
  rintro ⟨releaser, hmem⟩
  obtain rfl := h.own _ _ _ hmem
  exact hpending hmem

/-- Over a run, calls have released only their own claims just when every DEL
came in time. -/
theorem releases_own_iff (h : (machine config).Path (.empty limit .empty) steps s) :
    ReleasesOwn config s.store ↔ Machine.Along (ReleasesInTime config) steps := by
  refine h.holds_iff (C := Machine.anyStep) (D := ReleasesInTime config) (I := OnlyOwn config)
    (J := fun s => ¬s.store.OwnReleases) (P := fun s => ReleasesOwn config s.store)
    (fun _ _ => trivial) .empty ?_ ?_ ?_ ?_ ?_
  · exact fun t a u hi _ hin hs => hi.step (Site.step_cases hs) hin
  · exact fun t a u hi _ hlate hs => hi.slip (Site.step_cases hs) hlate
  · intro t a u hj _ hs hown
    exact hj (ownReleases_of_grows ((Site.step_cases hs).store_le (settles config)
      fun _ _ _ => env_grows) hown)
  · exact fun t hi => hi.releasesOwn
  · exact fun t hj hown => hj hown.own

-- ---------------------------------------------------------------------------
-- A release in time and one too late
-- ---------------------------------------------------------------------------

theorem Calm.inTime (h : Calm s action) : ReleasesInTime config s action := by
  unfold ReleasesInTime
  split
  next => exact h.elim
  next => trivial

section
variable {body key value : String} {event payload : Json}

/-- The send raises and the claim is released. -/
theorem reaches_released (hsend : sendable payload = .ok ()) :
    (machine defaultConfig).Reaches (ReleasesInTime defaultConfig)
      (duo (holding body 1 .inFlight) (claimedStore key value) [0]
        (.handling ⟨0, 1, body⟩ event (.claimed key 0 payload) []) .polling)
      (duo (holding body 1 .inFlight) ((claimedStore key value).del key 0) [0] (.batch [])
        .polling) := by
  have hraises : step defaultConfig (claimedStore key value) (.claimed key 0 payload)
      (.send (.error timedOut)) =
      some (claimedStore key value, .continues (.releasing key 0 timedOut)) := by
    simp [step, defaultConfig, hsend]
  have hreleasing : (machine defaultConfig).Reaches (ReleasesInTime defaultConfig)
      (duo (holding body 1 .inFlight) (claimedStore key value) [0]
        (.handling ⟨0, 1, body⟩ event (.claimed key 0 payload) []) .polling)
      (duo (holding body 1 .inFlight) (claimedStore key value) [0]
        (.handling ⟨0, 1, body⟩ event (.releasing key 0 timedOut) []) .polling) :=
    reaches_move .refl (.consumer 0 (.handle (.send (.error timedOut)))) trivial
      (duo_handle₀ hraises)
  refine reaches_move hreleasing (.consumer 0 (.handle (.del .ok))) (.inr ?_) (duo_handle₀ step_del)
  intro key' claim' hc
  have hheld : claimOf (duo (holding body 1 .inFlight) (claimedStore key value) [0]
      (.handling ⟨0, 1, body⟩ event (.releasing key 0 timedOut) []) .polling) 0 = some (key, 0) := by
    simp only [claimOf, duo_pc₀]
    rfl
  rw [hheld] at hc
  cases hc
  exact .inl fun t ht => Nat.zero_le _

/-- Claimed, expired, and claimed again. -/
def reclaimedStore (key value : String) : Store :=
  ((claimedStore key value).tick 172800001).claim defaultConfig key value

theorem find_expired : ((claimedStore key value).tick 172800001).find key = none := by
  simp [Store.find, Store.tick, claimedStore, Store.claim, Store.note, Store.empty, defaultConfig]

/-- The send of the first delivery outlasts the TTL; the second delivery claims
the key, and then the first send raises. -/
theorem reaches_late (hsend : sendable payload = .ok ())
    (hopen : ∀ receipt, (handle defaultConfig).open_ 5 ⟨0, receipt, body⟩ [] =
      .handling ⟨0, receipt, body⟩ event (.claiming key value payload) []) :
    (machine defaultConfig).Reaches Machine.anyStep (.empty 5 .empty)
      (duo (holding body 2 .inFlight) ((reclaimedStore key value).del key 0) [0, 0] (.batch [])
        (.handling ⟨0, 2, body⟩ event (.claimed key 1 payload) [])) := by
  have hclaims : step defaultConfig ((claimedStore key value).tick 172800001)
      (.claiming key value payload) (.set .ok) =
      some (reclaimedStore key value, .continues (.claimed key 1 payload)) := by
    simp only [step, Store.set, find_expired]
    rfl
  have hraises : step defaultConfig (reclaimedStore key value) (.claimed key 0 payload)
      (.send (.error timedOut)) =
      some (reclaimedStore key value, .continues (.releasing key 0 timedOut)) := by
    simp [step, defaultConfig, hsend]
  have h₀ := (reaches_duo.trans (reaches_claimed hopen)).mono (D := Machine.anyStep)
    fun _ _ _ => trivial
  have h₁ : (machine defaultConfig).Reaches Machine.anyStep (.empty 5 .empty)
      (duo (holding body 1 .inFlight) ((claimedStore key value).tick 172800001) [0]
        (.handling ⟨0, 1, body⟩ event (.claimed key 0 payload) []) .polling) :=
    reaches_move h₀ (.env 172800001) trivial rfl
  have h₂ : (machine defaultConfig).Reaches Machine.anyStep (.empty 5 .empty)
      (duo (holding body 1 .visible) ((claimedStore key value).tick 172800001) [0]
        (.handling ⟨0, 1, body⟩ event (.claimed key 0 payload) []) .polling) :=
    reaches_move h₁ (.expire 0) trivial rfl
  have h₃ : (machine defaultConfig).Reaches Machine.anyStep (.empty 5 .empty)
      (duo (holding body 2 .inFlight) ((claimedStore key value).tick 172800001) [0]
        (.handling ⟨0, 1, body⟩ event (.claimed key 0 payload) []) (.batch [⟨0, 2, body⟩])) :=
    reaches_move h₂ (.consumer 1 (.receive [0] true)) trivial (duo_step₁ rfl)
  have h₄ : (machine defaultConfig).Reaches Machine.anyStep (.empty 5 .empty)
      (duo (holding body 2 .inFlight) ((claimedStore key value).tick 172800001) [0, 0]
        (.handling ⟨0, 1, body⟩ event (.claimed key 0 payload) [])
        (.handling ⟨0, 2, body⟩ event (.claiming key value payload) [])) :=
    reaches_move h₃ (.consumer 1 .next) trivial (duo_next₁ (hopen 2))
  have h₅ : (machine defaultConfig).Reaches Machine.anyStep (.empty 5 .empty)
      (duo (holding body 2 .inFlight) (reclaimedStore key value) [0, 0]
        (.handling ⟨0, 1, body⟩ event (.claimed key 0 payload) [])
        (.handling ⟨0, 2, body⟩ event (.claimed key 1 payload) [])) :=
    reaches_move h₄ (.consumer 1 (.handle (.set .ok))) trivial (duo_handle₁ hclaims)
  have h₆ : (machine defaultConfig).Reaches Machine.anyStep (.empty 5 .empty)
      (duo (holding body 2 .inFlight) (reclaimedStore key value) [0, 0]
        (.handling ⟨0, 1, body⟩ event (.releasing key 0 timedOut) [])
        (.handling ⟨0, 2, body⟩ event (.claimed key 1 payload) [])) :=
    reaches_move h₅ (.consumer 0 (.handle (.send (.error timedOut)))) trivial (duo_handle₀ hraises)
  exact reaches_move h₆ (.consumer 0 (.handle (.del .ok))) trivial (duo_handle₀ step_del)

theorem released_claimedStore : .released key 0 0 ∈ ((claimedStore key value).del key 0).history := by
  simp [Store.del, find_claimedStore, Store.note]

theorem released_reclaimedStore : .released key 0 1 ∈ ((reclaimedStore key value).del key 0).history := by
  have hfind : (reclaimedStore key value).find key = some ⟨key, value, 345600001, 1⟩ := by
    simp [reclaimedStore, Store.claim, Store.find, Store.tick, claimedStore, Store.note, Store.empty,
      defaultConfig]
  simp [Store.del, hfind, Store.note]

end

theorem releases_own_keyboard : ∃ steps s,
    (machine defaultConfig).Path (.empty 5 .empty) steps s ∧
    (∃ key, .released key 0 0 ∈ s.store.history) ∧ ReleasesOwn defaultConfig s.store := by
  have hbody := unwrap_keyboardBody (Nat.le_add_right 3 2)
  have hclaimed := (reaches_duo.trans (reaches_claimed (open_of_unwrap keyboardRow_payload hbody))).mono
    fun s action hc => show ReleasesInTime defaultConfig s action from hc.inTime
  obtain ⟨steps, hpath, hall⟩ :=
    (hclaimed.trans (reaches_released (keyboardRow_payload ▸ sendable_buildPayload))).exists_path
  exact ⟨steps, _, hpath, ⟨_, released_claimedStore⟩,
    (releases_own_iff hpath).mpr hall⟩

/-- A send that outlasts the TTL and then raises releases the claim of the next
delivery. -/
theorem not_releases_own_late : ¬∀ steps s,
    (machine defaultConfig).Path (.empty 5 .empty) steps s → ReleasesOwn defaultConfig s.store := by
  intro h
  have hbody := unwrap_keyboardBody (Nat.le_add_right 3 2)
  obtain ⟨steps, hpath, -⟩ := (reaches_late (keyboardRow_payload ▸ sendable_buildPayload)
    (open_of_unwrap keyboardRow_payload hbody)).exists_path
  exact absurd ((h steps _ hpath).own _ _ _ released_reclaimedStore) (by decide)

end OutboxFanout.Notifications
