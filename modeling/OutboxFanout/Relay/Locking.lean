import OutboxFanout.Relay.Interleaving

/-!
# What a step of a relay can do

`RelayStep` lists the steps of a relay with what each one requires and leaves;
`relayStep_cases` reads a successful `relayStep` as one of them. From it follows
the locking discipline every later argument rests on: a lock entry names the
relay whose transaction is open on the row (`Inv.locks`), and a row that a
relay has locked stays in the table as it was read, unpublished, until that
relay's transaction ends (`Inv.held`).
-/

namespace OutboxFanout.Outbox

open Relay

-- ---------------------------------------------------------------------------
-- The fields an update leaves alone
-- ---------------------------------------------------------------------------

section
variable (s : State) (r : RelayId) (pc : RelayPc) (id : UUID) (event : Event)
  (f : OutboxEvent → OutboxEvent)

@[simp] theorem State.goto_outbox : (s.goto r pc).outbox = s.outbox := rfl
@[simp] theorem State.goto_locks : (s.goto r pc).locks = s.locks := rfl
@[simp] theorem State.goto_orders : (s.goto r pc).orders = s.orders := rfl
@[simp] theorem State.goto_history : (s.goto r pc).history = s.history := rfl
@[simp] theorem State.lock_outbox : (s.lock id r).outbox = s.outbox := rfl
@[simp] theorem State.lock_relays : (s.lock id r).relays = s.relays := rfl
@[simp] theorem State.lock_orders : (s.lock id r).orders = s.orders := rfl
@[simp] theorem State.lock_history : (s.lock id r).history = s.history := rfl
@[simp] theorem State.unlock_outbox : (s.unlock id).outbox = s.outbox := rfl
@[simp] theorem State.unlock_relays : (s.unlock id).relays = s.relays := rfl
@[simp] theorem State.unlock_orders : (s.unlock id).orders = s.orders := rfl
@[simp] theorem State.unlock_history : (s.unlock id).history = s.history := rfl
@[simp] theorem State.note_outbox : (s.note event).outbox = s.outbox := rfl
@[simp] theorem State.note_locks : (s.note event).locks = s.locks := rfl
@[simp] theorem State.note_relays : (s.note event).relays = s.relays := rfl
@[simp] theorem State.note_orders : (s.note event).orders = s.orders := rfl
@[simp] theorem State.note_history : (s.note event).history = event :: s.history := rfl
@[simp] theorem State.write_locks : (s.write id f).locks = s.locks := rfl
@[simp] theorem State.write_relays : (s.write id f).relays = s.relays := rfl
@[simp] theorem State.write_orders : (s.write id f).orders = s.orders := rfl
@[simp] theorem State.write_history : (s.write id f).history = s.history := rfl
@[simp] theorem State.write_outbox :
    (s.write id f).outbox = Rows.update OutboxEvent.id id f s.outbox := rfl

@[simp] theorem State.goto_self : (s.goto r pc).relays r = { s.relays r with pc } := by
  simp [State.goto]

end

theorem State.goto_pc {s : State} : ((s.goto r pc).relays r).pc = pc := by simp

theorem State.goto_of_ne {s : State} (h : r' ≠ r) : (s.goto r pc).relays r' = s.relays r' := by
  simp [State.goto, h]

theorem State.kill_outbox {s : State} : (s.kill r).outbox = s.outbox := by
  unfold State.kill
  split <;> rfl

theorem State.kill_requests {s : State} : (s.kill r).requests = s.requests := by
  unfold State.kill
  split <;> rfl

theorem State.kill_orders {s : State} : (s.kill r).orders = s.orders := by
  unfold State.kill
  split <;> rfl

theorem State.kill_history (s : State) (r : RelayId) : (s.kill r).history = s.history ∨
    ∃ eventId, (s.kill r).history = .died eventId :: s.history := by
  unfold State.kill
  split
  · exact .inl rfl
  · exact .inr ⟨_, rfl⟩
  · exact .inl rfl
  · exact .inl rfl

theorem State.kill_pc {s : State} : ((s.kill r).relays r).pc = .down := by
  unfold State.kill
  split <;> exact State.goto_pc

theorem State.kill_of_ne {s : State} (h : r' ≠ r) : (s.kill r).relays r' = s.relays r' := by
  unfold State.kill
  split <;> simp [State.goto_of_ne h]

/-- Where a relay is after the end of its bookkeeping. -/
theorem recorded_pc {outcome : Commit} {pc : RelayPc}
    (hout : outcome = .done ∧ pc = (if isPermanent exc then .batch ids else .idle) ∨
      (∃ error, outcome = .lost error) ∧ pc = .idle) : pc = .batch ids ∨ pc = .idle := by
  rcases hout with ⟨-, rfl⟩ | ⟨-, rfl⟩
  · split
    · exact .inl rfl
    · exact .inr rfl
  · exact .inr rfl

-- ---------------------------------------------------------------------------
-- The steps of a relay
-- ---------------------------------------------------------------------------

inductive RelayStep (s : State) (r : RelayId) : RelayAction → State → Prop
  | start {config : Config} (hpc : (s.relays r).pc = .down) :
    RelayStep s r (.start config)
      { s with relays := Function.update s.relays r ⟨config, .idle⟩ }
  | kill : RelayStep s r .kill (s.kill r)
  | poll (hpc : (s.relays r).pc = .idle) (hscan : scan.Perm (s.outbox.map (·.id))) :
    RelayStep s r (.poll scan) (s.goto r (.batch (pendingEventIds (s.relays r).config.maxAttempts
      (s.relays r).config.batchSize (scan.filterMap fun id => s.outbox.find? (·.id = id)))))
  | endPoll (hpc : (s.relays r).pc = .batch []) : RelayStep s r .endPoll (s.goto r .idle)
  | lock (hpc : (s.relays r).pc = .batch (event.id :: ids)) (hfree : s.locks event.id = none)
      (hmem : event ∈ s.outbox) (hunpub : event.published = false) :
    RelayStep s r .select ((s.lock event.id r).goto r (.locked event ids))
  | skip (hpc : (s.relays r).pc = .batch (eventId :: ids)) :
    RelayStep s r .select (s.goto r (.skipped eventId ids))
  | selectFails (hpc : (s.relays r).pc = .batch (eventId :: ids)) :
    RelayStep s r (.selectFails error) (s.goto r (.failed eventId error.exc ids))
  | skipDone (hpc : (s.relays r).pc = .skipped eventId ids) :
    RelayStep s r (.commit .done now) (s.goto r (.batch ids))
  | skipFails {outcome : Commit} (hpc : (s.relays r).pc = .skipped eventId ids)
      (hout : outcome = .refused error ∨ outcome = .lost error) :
    RelayStep s r (.commit outcome now) (s.goto r (.failed eventId error.exc ids))
  | accepted (hpc : (s.relays r).pc = .locked event ids) :
    RelayStep s r (.publish .accepted) ((s.note (.accepted event)).goto r (.accepted event ids))
  | refused (hpc : (s.relays r).pc = .locked event ids) :
    RelayStep s r (.publish (.refused exc)) ((s.unlock event.id).goto r (.failed event.id exc ids))
  | lostAck (hpc : (s.relays r).pc = .locked event ids) :
    RelayStep s r (.publish (.lost exc)) ((((s.unlock event.id).note (.accepted event)).note
      (.lostAck event.id)).goto r (.failed event.id exc ids))
  | mark (hpc : (s.relays r).pc = .accepted event ids)
      (hcrash : (s.relays r).config.crashAfterPublish = false) :
    RelayStep s r (.commit .done now)
      (((s.write event.id (·.mark now)).unlock event.id).goto r (.batch ids))
  | markRefused (hpc : (s.relays r).pc = .accepted event ids)
      (hcrash : (s.relays r).config.crashAfterPublish = false) :
    RelayStep s r (.commit (.refused error) now) (((s.unlock event.id).note
      (.commitFailed event.id)).goto r (.failed event.id error.exc ids))
  | markLost (hpc : (s.relays r).pc = .accepted event ids)
      (hcrash : (s.relays r).config.crashAfterPublish = false) :
    RelayStep s r (.commit (.lost error) now) ((((s.write event.id (·.mark now)).unlock event.id).note
      (.commitFailed event.id)).goto r (.failed event.id error.exc ids))
  | record (hpc : (s.relays r).pc = .failed eventId exc ids) (hfree : s.locks eventId = none)
      (hmem : row ∈ s.outbox) (hid : row.id = eventId) :
    RelayStep s r .record ((s.lock eventId r).goto r (.recording eventId exc ids))
  | recordMissing (hpc : (s.relays r).pc = .failed eventId exc ids) (hmem : eventId ∉ s.outbox.map (·.id)) :
    RelayStep s r .record (s.goto r .idle)
  | recordFails (hpc : (s.relays r).pc = .failed eventId exc ids) :
    RelayStep s r (.recordFails error) (s.goto r .idle)
  | recorded {outcome : Commit} (hpc : (s.relays r).pc = .recording eventId exc ids)
      (hout : outcome = .done ∧ pc = (if isPermanent exc then .batch ids else .idle) ∨
        (∃ error, outcome = .lost error) ∧ pc = .idle) :
    RelayStep s r (.commit outcome now) ((((s.write eventId (recordedFailure
      (s.relays r).config.maxAttempts exc (isPermanent exc) now)).unlock eventId).note
      (.recorded eventId (isPermanent exc))).goto r pc)
  | recordRefused (hpc : (s.relays r).pc = .recording eventId exc ids) :
    RelayStep s r (.commit (.refused error) now) ((s.unlock eventId).goto r .idle)

theorem relayStep_cases (h : relayStep s r action = some s') : RelayStep s r action s' := by
  unfold relayStep at h
  split at h
  next hpc => cases h; exact .start hpc
  next => cases h; exact .kill
  next hpc =>
    split at h
    · cases h; exact .poll hpc ‹_›
    · cases h
  next hpc => cases h; exact .endPoll hpc
  next id ids hpc =>
    split at h
    next event hfree hfind =>
      cases h
      obtain ⟨rfl, hunpub⟩ : event.id = id ∧ event.published = false := by
        simpa using List.find?_some hfind
      exact .lock hpc hfree (List.mem_of_find?_eq_some hfind) hunpub
    · cases h; exact .skip hpc
  next hpc => cases h; exact .selectFails hpc
  next hpc => cases h; exact .skipDone hpc
  next hpc => cases h; exact .skipFails hpc (.inl rfl)
  next hpc => cases h; exact .skipFails hpc (.inr rfl)
  next hpc => cases h; exact .accepted hpc
  next hpc => cases h; exact .refused hpc
  next hpc => cases h; exact .lostAck hpc
  next outcome now event ids hpc =>
    cases hcrash : (s.relays r).config.crashAfterPublish with
    | true => simp [hcrash] at h
    | false =>
      simp only [hcrash, Bool.false_eq_true, ↓reduceIte] at h
      cases outcome <;> cases h
      · exact .mark hpc hcrash
      · exact .markRefused hpc hcrash
      · exact .markLost hpc hcrash
  next id exc ids hpc =>
    split at h
    next row hfree hfind =>
      cases h
      exact .record hpc hfree (List.mem_of_find?_eq_some hfind) (by simpa using List.find?_some hfind)
    next hfree hfind =>
      cases h
      exact .recordMissing hpc (by simpa [List.find?_eq_none] using hfind)
    · cases h
  next hpc => cases h; exact .recordFails hpc
  next hpc => cases h; exact .recorded hpc (.inl ⟨rfl, rfl⟩)
  next hpc => cases h; exact .recordRefused hpc
  next hpc => cases h; exact .recorded hpc (.inr ⟨⟨_, rfl⟩, rfl⟩)
  next => cases h

theorem RelayStep.others (hs : RelayStep s r action s') (h : r' ≠ r) :
    s'.relays r' = s.relays r' := by
  cases hs with
  | start => simp [h]
  | kill => exact State.kill_of_ne h
  | _ => simp [State.goto_of_ne h]

-- ---------------------------------------------------------------------------
-- The locking discipline
-- ---------------------------------------------------------------------------

/-- The row `relay_one` has read under its lock. -/
def RelayPc.event? : RelayPc → Option OutboxEvent
  | .locked event _ | .accepted event _ => some event
  | _ => none

theorem RelayPc.holds_of_event? (h : RelayPc.event? pc = some event) :
    pc.holds = some event.id := by
  cases pc <;> simp_all [RelayPc.event?, RelayPc.holds]

/-- A lock entry names the relay whose open transaction holds the row. -/
def LocksMatch (locks : UUID → Option RelayId) (relays : RelayId → RelayProcess) : Prop :=
  ∀ id r, locks id = some r ↔ (relays r).pc.holds = some id

/-- A row locked by `relay_one` is still as it was read, and unpublished. -/
def HeldFresh (outbox : List OutboxEvent) (relays : RelayId → RelayProcess) : Prop :=
  ∀ r event, (relays r).pc.event? = some event → event ∈ outbox ∧ event.published = false

section
variable {locks : UUID → Option RelayId} {relays : RelayId → RelayProcess}
  {outbox : List OutboxEvent} {p : RelayProcess}

theorem LocksMatch.keep (h : LocksMatch locks relays) (hp : p.pc.holds = (relays r).pc.holds) :
    LocksMatch locks (Function.update relays r p) := by
  intro key r'
  rw [h key r']
  by_cases hr : r' = r
  · subst hr; simp [hp]
  · simp [hr]

theorem LocksMatch.acquire (h : LocksMatch locks relays) (hfree : locks key = none)
    (hnone : (relays r).pc.holds = none) (hp : p.pc.holds = some key) :
    LocksMatch (Function.update locks key (some r)) (Function.update relays r p) := by
  intro key' r'
  by_cases hk : key' = key <;> by_cases hr : r' = r
  · subst hk hr; simp [hp]
  · subst hk
    have hother : (relays r').pc.holds ≠ some key' := fun hh => by
      simp [(h key' r').mpr hh] at hfree
    simp [hr, hother, Ne.symm hr]
  · subst hr
    have hother : locks key' ≠ some r' := fun hl => by simp [(h key' r').mp hl] at hnone
    simp [hk, hp, hother, Ne.symm hk]
  · simp [hk, hr, h key' r']

theorem LocksMatch.release (h : LocksMatch locks relays) (hold : (relays r).pc.holds = some key)
    (hp : p.pc.holds = none) :
    LocksMatch (Function.update locks key none) (Function.update relays r p) := by
  intro key' r'
  have howner := (h key r).mpr hold
  by_cases hk : key' = key <;> by_cases hr : r' = r
  · subst hk hr; simp [hp]
  · subst hk
    have hother : (relays r').pc.holds ≠ some key' := fun hh => by
      have hl := (h key' r').mpr hh
      rw [howner] at hl
      exact hr (Option.some.inj hl).symm
    simp [hr, hother]
  · subst hr
    have hother : locks key' ≠ some r' := fun hl => by
      have hh := (h key' r').mp hl
      rw [hold] at hh
      exact hk (Option.some.inj hh).symm
    simp [hk, hp, hother]
  · simp [hk, hr, h key' r']

theorem HeldFresh.keep (h : HeldFresh outbox relays)
    (hp : ∀ event, p.pc.event? = some event → event ∈ outbox ∧ event.published = false) :
    HeldFresh outbox (Function.update relays r p) := by
  intro r' event he
  by_cases hr : r' = r
  · subst hr
    exact hp event (by simpa using he)
  · exact h r' event (by simpa [hr] using he)

/-- Only the holder of a row's lock writes it, so no other locked row moves. -/
theorem HeldFresh.write (h : HeldFresh outbox relays) (hl : LocksMatch locks relays)
    (hold : (relays r).pc.holds = some key) (hp : p.pc.event? = none) :
    HeldFresh (Rows.update OutboxEvent.id key f outbox) (Function.update relays r p) := by
  intro r' event he
  by_cases hr : r' = r
  · subst hr
    simp [hp] at he
  · replace he : (relays r').pc.event? = some event := by simpa [hr] using he
    obtain ⟨hmem, hunpub⟩ := h r' event he
    refine ⟨Rows.mem_update_of_ne hmem fun hk => hr ?_, hunpub⟩
    have howner := (hl key r).mpr hold
    rw [(hl key r').mpr (hk ▸ RelayPc.holds_of_event? he)] at howner
    exact Option.some.inj howner

/-- An unlocked row may be written by anyone. -/
theorem HeldFresh.write_free (h : HeldFresh outbox relays) (hl : LocksMatch locks relays)
    (hfree : locks key = none) : HeldFresh (Rows.update OutboxEvent.id key f outbox) relays := by
  intro r event he
  obtain ⟨hmem, hunpub⟩ := h r event he
  refine ⟨Rows.mem_update_of_ne hmem fun hk => ?_, hunpub⟩
  rw [← hk, (hl event.id r).mpr (RelayPc.holds_of_event? he)] at hfree
  cases hfree

end

structure Inv (s : State) : Prop where
  keyed : Rows.Keyed OutboxEvent.id s.outbox
  locks : LocksMatch s.locks s.relays
  held : HeldFresh s.outbox s.relays

theorem State.Initial.inv (h : State.Initial s) : Inv s where
  keyed := h.keyed
  locks := fun key r => by simp [h.locks, h.relays, RelayPc.holds]
  held := fun r event he => by simp [h.relays, RelayPc.event?] at he

theorem RelayPc.event?_none (h : RelayPc.holds pc = none) : pc.event? = none := by
  cases pc <;> simp_all [RelayPc.event?, RelayPc.holds]

section
variable {s : State} {r : RelayId} {pc : RelayPc}

theorem Inv.move (h : Inv s) (hold : (s.relays r).pc.holds = none) (hp : pc.holds = none) :
    Inv (s.goto r pc) :=
  ⟨h.keyed, h.locks.keep (hp.trans hold.symm), h.held.keep (by simp [RelayPc.event?_none hp])⟩

/-- The transaction on `key` ends without effect. -/
theorem Inv.release (h : Inv s) (hs : s' = (s.unlock key).goto r pc)
    (hold : (s.relays r).pc.holds = some key) (hp : pc.holds = none) : Inv s' := by
  subst hs
  exact ⟨h.keyed, h.locks.release hold hp, h.held.keep (by simp [RelayPc.event?_none hp])⟩

/-- The transaction on `key` ends with a write of its row. -/
theorem Inv.write (h : Inv s) (hs : s' = ((s.write key f).unlock key).goto r pc)
    (hf : ∀ row, (f row).id = row.id) (hold : (s.relays r).pc.holds = some key)
    (hp : pc.holds = none) : Inv s' := by
  subst hs
  exact ⟨h.keyed.update hf, h.locks.release hold hp, h.held.write h.locks hold (RelayPc.event?_none hp)⟩

theorem Inv.note (h : Inv (s.goto r pc)) : Inv ((s.note event).goto r pc) :=
  ⟨h.keyed, h.locks, h.held⟩

theorem Inv.kill (h : Inv s) : Inv (s.kill r) := by
  unfold State.kill
  split
  case _ hpc => exact h.release rfl (by rw [hpc]; rfl) rfl
  case _ hpc => exact (h.release rfl (by rw [hpc]; rfl) rfl).note
  case _ hpc => exact h.release rfl (by rw [hpc]; rfl) rfl
  case _ =>
    refine h.move ?_ rfl
    cases hpc : (s.relays r).pc <;> simp_all [RelayPc.holds]

theorem Inv.relayStep (h : Inv s) (hs : RelayStep s r action s') : Inv s' := by
  cases hs with
  | start hpc => exact ⟨h.keyed, h.locks.keep (by rw [hpc]; rfl), h.held.keep nofun⟩
  | kill => exact h.kill
  | poll hpc => exact h.move (by rw [hpc]; rfl) rfl
  | endPoll hpc => exact h.move (by rw [hpc]; rfl) rfl
  | lock hpc hfree hmem hunpub =>
    refine ⟨h.keyed, h.locks.acquire hfree (by rw [hpc]; rfl) rfl, h.held.keep ?_⟩
    rintro _ ⟨⟩
    exact ⟨hmem, hunpub⟩
  | skip hpc => exact h.move (by rw [hpc]; rfl) rfl
  | selectFails hpc => exact h.move (by rw [hpc]; rfl) rfl
  | skipDone hpc => exact h.move (by rw [hpc]; rfl) rfl
  | skipFails hpc => exact h.move (by rw [hpc]; rfl) rfl
  | accepted hpc =>
    refine ⟨h.keyed, h.locks.keep (by rw [hpc]; rfl), h.held.keep ?_⟩
    rintro _ ⟨⟩
    exact h.held r _ (by rw [hpc]; rfl)
  | refused hpc => exact h.release rfl (by rw [hpc]; rfl) rfl
  | lostAck hpc => exact (h.release rfl (by rw [hpc]; rfl) rfl).note.note
  | mark hpc => exact h.write rfl (fun row => row.mark_id _) (by rw [hpc]; rfl) rfl
  | markRefused hpc => exact (h.release rfl (by rw [hpc]; rfl) rfl).note
  | markLost hpc =>
    refine (h.write rfl (fun row => row.mark_id _) (by rw [hpc]; rfl) ?_).note
    rfl
  | record hpc hfree =>
    exact ⟨h.keyed, h.locks.acquire hfree (by rw [hpc]; rfl) rfl, h.held.keep nofun⟩
  | recordMissing hpc => exact h.move (by rw [hpc]; rfl) rfl
  | recordFails hpc => exact h.move (by rw [hpc]; rfl) rfl
  | recorded hpc hout =>
    refine (h.write rfl (fun _ => recordedFailure_id) (by rw [hpc]; rfl) ?_).note
    rcases recorded_pc hout with rfl | rfl <;> rfl
  | recordRefused hpc => exact h.release rfl (by rw [hpc]; rfl) rfl

end

-- ---------------------------------------------------------------------------
-- Every step
-- ---------------------------------------------------------------------------

inductive Step (s : State) : Action → State → Prop
  | relay (h : RelayStep s r action s') : Step s (.relay r action) s'
  | post (hq : s.requests q = .idle) :
    Step s (.post q broken orderId now data) (s.request q
      (.staged (createOrder broken orderId now data).1 (createOrder broken orderId now data).2))
  | flush (hq : s.requests q = .staged order event) (hrow : event.row eventId now = some row)
      (hfree : s.KeysFree order row) :
    Step s (.flush q eventId now) (s.request q (.flushed order row))
  | flushFails (hq : s.requests q = .staged order event) :
    Step s (.flush q eventId now) (s.request q .idle)
  | commitOrder (hq : s.requests q = .flushed order row) (hfree : s.KeysFree order row) :
    Step s (.commitOrder q) ({ s with
      orders := s.orders ++ [order], outbox := s.outbox ++ [row] }.request q .idle)
  | abort : Step s (.abort q) (s.request q .idle)
  | clearFailedAt (hfree : s.locks key = none) :
    Step s (.clearFailedAt key) (s.write key ({ · with failedAt := none }))

theorem step_cases (h : step s action = some s') : Step s action s' := by
  cases action with
  | relay r action => exact .relay (relayStep_cases h)
  | post q broken orderId now data =>
    simp only [step] at h
    split at h
    next hq => cases h; exact .post hq
    next => cases h
  | flush q eventId now =>
    simp only [step] at h
    split at h
    next order event hq =>
      split at h
      next row hrow =>
        cases h
        split
        next hfree => exact .flush hq hrow hfree
        next => exact .flushFails hq
      next => cases h; exact .flushFails hq
    next => cases h
  | commitOrder q =>
    simp only [step] at h
    split at h
    next order row hq =>
      split at h
      next hfree => cases h; exact .commitOrder hq hfree
      next => cases h
    next => cases h
  | abort q => cases h; exact .abort
  | clearFailedAt key =>
    simp only [step] at h
    split at h
    next hfree => cases h; exact .clearFailedAt hfree
    next => cases h

theorem Inv.step (h : Inv s) (hs : Step s action s') : Inv s' := by
  cases hs with
  | relay hr => exact h.relayStep hr
  | post | flush | flushFails | abort => exact ⟨h.keyed, h.locks, h.held⟩
  | commitOrder hq hfree =>
    refine ⟨h.keyed.append fun old hm hk => hfree.2 (List.mem_map.mpr ⟨old, hm, hk⟩), h.locks, ?_⟩
    intro r event he
    obtain ⟨hmem, hunpub⟩ := h.held r event he
    exact ⟨List.mem_append_left _ hmem, hunpub⟩
  | clearFailedAt hfree =>
    exact ⟨h.keyed.update fun _ => rfl, h.locks, h.held.write_free h.locks hfree⟩

theorem inv_of_reaches (h₀ : s₀.Initial) (h : machine.Reaches C s₀ s) : Inv s :=
  h.invariant h₀.inv fun _ _ _ hi _ hs => hi.step (step_cases hs)

end OutboxFanout.Outbox
