import OutboxFanout.Relay.Parking
import OutboxFanout.Relay.Pending

/-!
# Every relay can finish its poll

With SNS and the database answering, whatever the other relays hold: a relay
waits in `record_failure` alone, and there for a relay that does not wait. So
from every reachable state a running relay comes to the end of its batch.
-/

namespace OutboxFanout.Outbox

open Relay

-- ---------------------------------------------------------------------------
-- One row of a batch
-- ---------------------------------------------------------------------------

/-- SNS and the database answer. -/
def RelayAction.Healthy : RelayAction → Prop
  | .poll _ | .endPoll | .select | .publish .accepted | .commit .done _ | .record => True
  | .start _ | .kill | .selectFails _ | .publish _ | .commit _ _ | .recordFails _ => False

/-- A healthy step of the relay, or its death by `CRASH_AFTER_PUBLISH`. -/
def By (r : RelayId) (s : State) : Action → Prop
  | .relay r' action => r' = r ∧ (action.Healthy ∨ action = .kill ∧
      (s.relays r).config.crashAfterPublish = true ∧ ∃ event ids, (s.relays r).pc = .accepted event ids)
  | _ => False

def Unhindered (s : State) (action : Action) : Prop := ∃ r, By r s action

theorem others_of_reaches (h : machine.Reaches (By r) s s') (hne : r' ≠ r) :
    s'.relays r' = s.relays r' := by
  refine h.invariant (I := fun t => t.relays r' = s.relays r') rfl fun t action u ht hby hs => ?_
  cases step_cases hs with
  | relay hr =>
    obtain ⟨rfl, -⟩ := hby
    exact (hr.others hne).trans ht
  | _ => exact hby.elim

/-- The relay has moved on to `pc`. -/
structure Moved (s s' : State) (r : RelayId) (pc : RelayPc) : Prop where
  reaches : machine.Reaches (By r) s s'
  relay : s'.relays r = { s.relays r with pc }

theorem Moved.trans (h : Moved s t r pc) (h' : Moved t u r pc') : Moved s u r pc' :=
  ⟨h.reaches.trans h'.reaches, by rw [h'.relay, h.relay]⟩

theorem Moved.pc_eq (h : Moved s s' r pc) : (s'.relays r).pc = pc := by
  rw [h.relay]

theorem Moved.crash_eq (h : Moved s s' r pc) :
    (s'.relays r).config.crashAfterPublish = (s.relays r).config.crashAfterPublish := by
  rw [h.relay]

theorem moved_step (hstep : relayStep s r action = some s') (hhealthy : action.Healthy)
    (hrelay : s'.relays r = { s.relays r with pc }) : Moved s s' r pc :=
  ⟨.next (.relay r action) .refl ⟨rfl, .inl hhealthy⟩ hstep, hrelay⟩

/-- A locked row is published and marked. -/
theorem exists_marked (hpc : (s.relays r).pc = .locked event ids)
    (hcrash : (s.relays r).config.crashAfterPublish = false) : ∃ s', Moved s s' r (.batch ids) ∧
      s'.outbox = Rows.update OutboxEvent.id event.id (·.mark placedAt) s.outbox ∧
      s'.locks = Function.update s.locks event.id none := by
  have hpublish : relayStep s r (.publish .accepted) =
      some ((s.note (.accepted event)).goto r (.accepted event ids)) := by
    simp [relayStep, hpc]
  have hcommit : relayStep ((s.note (.accepted event)).goto r (.accepted event ids)) r
      (.commit .done placedAt) =
        some (((((s.note (.accepted event)).goto r (.accepted event ids)).write event.id
          (·.mark placedAt)).unlock event.id).goto r (.batch ids)) := by
    simp [relayStep, hcrash]
  exact ⟨_, (moved_step hpublish trivial (State.goto_self ..)).trans
    (moved_step hcommit trivial (State.goto_self ..)), rfl, rfl⟩

/-- The other rows and their locks are untouched. -/
structure Spares (s s' : State) (key : UUID) : Prop where
  locks : ∀ id, id ≠ key → s'.locks id = s.locks id
  rows : ∀ row ∈ s.outbox, row.id ≠ key → row ∈ s'.outbox

/-- The first row of the batch is dealt with. -/
theorem exists_next (hpc : (s.relays r).pc = .batch (eventId :: ids))
    (hcrash : (s.relays r).config.crashAfterPublish = false) :
    ∃ s', Moved s s' r (.batch ids) ∧ Spares s s' eventId := by
  by_cases hlocks : ∃ event, s.locks eventId = none ∧
      s.outbox.find? (fun row => row.id = eventId ∧ row.published = false) = some event
  · obtain ⟨event, hfree, hfind⟩ := hlocks
    obtain ⟨rfl, -⟩ : event.id = eventId ∧ event.published = false := by
      simpa using List.find?_some hfind
    have hselect : relayStep s r .select = some ((s.lock event.id r).goto r (.locked event ids)) := by
      simp only [relayStep, hpc, hfree, hfind]
    have hmoved := moved_step hselect trivial (State.goto_self ..)
    obtain ⟨s', hmarked, houtbox, hlocks⟩ := exists_marked hmoved.pc_eq (hmoved.crash_eq.trans hcrash)
    refine ⟨s', hmoved.trans hmarked, fun id hne => ?_, fun row hmem hne => ?_⟩
    · simp [hlocks, State.lock, hne]
    · rw [houtbox]
      exact Rows.mem_update_of_ne hmem hne
  · have hselect : relayStep s r .select = some (s.goto r (.skipped eventId ids)) := by
      simp only [relayStep, hpc]
      split
      next event hfree hfind => exact absurd ⟨event, hfree, hfind⟩ hlocks
      next => rfl
    have hmoved := moved_step hselect trivial (State.goto_self ..)
    have hcommit : relayStep (s.goto r (.skipped eventId ids)) r (.commit .done placedAt) =
        some ((s.goto r (.skipped eventId ids)).goto r (.batch ids)) := by
      simp [relayStep]
    exact ⟨_, hmoved.trans (moved_step hcommit trivial (State.goto_self ..)), fun _ _ => rfl,
      fun _ hmem _ => hmem⟩

/-- The first rows of the batch are dealt with. -/
theorem exists_batch (before : List UUID) (hpc : (s.relays r).pc = .batch (before ++ ids))
    (hcrash : (s.relays r).config.crashAfterPublish = false) :
    ∃ s', Moved s s' r (.batch ids) ∧ ∀ id, id ∉ before → s'.locks id = s.locks id ∧
      ∀ row ∈ s.outbox, row.id = id → row ∈ s'.outbox := by
  induction before generalizing s with
  | nil => exact ⟨s, ⟨.refl, by rw [← show (s.relays r).pc = .batch ids from hpc]⟩,
      fun _ _ => ⟨rfl, fun _ hmem _ => hmem⟩⟩
  | cons eventId before ih =>
    obtain ⟨t, hnext, hspares⟩ := exists_next hpc hcrash
    obtain ⟨u, hbatch, hkeep⟩ := ih hnext.pc_eq (hnext.crash_eq.trans hcrash)
    refine ⟨u, hnext.trans hbatch, fun id hid => ?_⟩
    obtain ⟨hne, hbefore⟩ : id ≠ eventId ∧ id ∉ before := by simpa using hid
    obtain ⟨hlocks, hrows⟩ := hkeep id hbefore
    refine ⟨hlocks.trans (hspares.locks id hne), ?_⟩
    rintro row hmem rfl
    exact hrows row (hspares.rows row hmem hne) rfl

-- ---------------------------------------------------------------------------
-- The end of a poll
-- ---------------------------------------------------------------------------

theorem exists_idle_of_batch (hpc : (s.relays r).pc = .batch ids)
    (hcrash : (s.relays r).config.crashAfterPublish = false) : ∃ s', Moved s s' r .idle := by
  obtain ⟨t, hbatch, -⟩ := exists_batch ids
    (show (s.relays r).pc = .batch (ids ++ []) by rwa [List.append_nil]) hcrash
  have hend : relayStep t r .endPoll = some (t.goto r .idle) := by
    simp [relayStep, hbatch.pc_eq]
  exact ⟨_, hbatch.trans (moved_step hend trivial (State.goto_self ..))⟩

theorem Moved.exists_idle (h : Moved s t r (.batch ids))
    (hcrash : (s.relays r).config.crashAfterPublish = false) : ∃ s', Moved s s' r .idle := by
  obtain ⟨u, hidle⟩ := exists_idle_of_batch h.pc_eq (h.crash_eq.trans hcrash)
  exact ⟨u, h.trans hidle⟩

/-- `record_failure` commits and lets go of its row. -/
theorem exists_recorded (hpc : (s.relays r).pc = .recording eventId exc ids) : ∃ s' pc,
    Moved s s' r pc ∧ s'.locks = Function.update s.locks eventId none ∧ (pc = .batch ids ∨ pc = .idle) := by
  have hcommit : relayStep s r (.commit .done placedAt) =
      some ((((s.write eventId (recordedFailure (s.relays r).config.maxAttempts exc (isPermanent exc)
        placedAt)).unlock eventId).note (.recorded eventId (isPermanent exc))).goto r
          (if isPermanent exc then .batch ids else .idle)) := by
    simp [relayStep, hpc]
  refine ⟨_, _, moved_step hcommit trivial (State.goto_self ..), rfl, ?_⟩
  split
  · exact .inl rfl
  · exact .inr rfl

/-- Whoever holds a row's lock comes to let it go. -/
theorem exists_unlocked (hi : Inv s) (hlock : s.locks eventId = some r) :
    ∃ s', machine.Reaches (By r) s s' ∧ s'.locks eventId = none := by
  have hholds := (hi.locks eventId r).mp hlock
  -- a relay that is to crash dies with its transaction
  have hcrashed : ∀ {t event ids}, machine.Reaches (By r) s t → (t.relays r).pc = .accepted event ids →
      event.id = eventId → (t.relays r).config.crashAfterPublish = true →
      ∃ s', machine.Reaches (By r) s s' ∧ s'.locks eventId = none := by
    rintro t event ids hreach hpc rfl hcrash
    have hkill : Outbox.step t (.relay r .kill) = some (t.kill r) := by simp [step, relayStep]
    exact ⟨_, .next (.relay r .kill) hreach ⟨rfl, .inr ⟨rfl, hcrash, event, ids, hpc⟩⟩ hkill,
      kill_unlocks (by rw [hpc]; rfl)⟩
  cases hpc : (s.relays r).pc with
  | locked event ids =>
    obtain rfl : event.id = eventId := by simpa [hpc, RelayPc.holds] using hholds
    cases hcrash : (s.relays r).config.crashAfterPublish with
    | false =>
      obtain ⟨s', hmoved, -, hlocks⟩ := exists_marked hpc hcrash
      exact ⟨s', hmoved.reaches, by simp [hlocks]⟩
    | true =>
      have hpublish : relayStep s r (.publish .accepted) =
          some ((s.note (.accepted event)).goto r (.accepted event ids)) := by
        simp [relayStep, hpc]
      have hmoved := moved_step hpublish trivial (State.goto_self ..)
      exact hcrashed hmoved.reaches hmoved.pc_eq rfl (hmoved.crash_eq.trans hcrash)
  | accepted event ids =>
    obtain rfl : event.id = eventId := by simpa [hpc, RelayPc.holds] using hholds
    cases hcrash : (s.relays r).config.crashAfterPublish with
    | false =>
      have hcommit : relayStep s r (.commit .done placedAt) =
          some (((s.write event.id (·.mark placedAt)).unlock event.id).goto r (.batch ids)) := by
        simp [relayStep, hpc, hcrash]
      exact ⟨_, (moved_step hcommit trivial (State.goto_self ..)).reaches, by simp [State.unlock]⟩
    | true => exact hcrashed .refl hpc rfl hcrash
  | recording id exc ids =>
    obtain rfl : id = eventId := by simpa [hpc, RelayPc.holds] using hholds
    obtain ⟨s', pc, hmoved, hlocks, -⟩ := exists_recorded hpc
    exact ⟨s', hmoved.reaches, by simp [hlocks]⟩
  | _ => simp [hpc, RelayPc.holds] at hholds

theorem exists_idle_of_recording (hpc : (s.relays r).pc = .recording eventId exc ids)
    (hcrash : (s.relays r).config.crashAfterPublish = false) : ∃ s', Moved s s' r .idle := by
  obtain ⟨s', pc, hmoved, -, rfl | rfl⟩ := exists_recorded hpc
  · exact hmoved.exists_idle hcrash
  · exact ⟨s', hmoved⟩

theorem exists_idle_of_failed (hpc : (s.relays r).pc = .failed eventId exc ids)
    (hcrash : (s.relays r).config.crashAfterPublish = false) (hfree : s.locks eventId = none) :
    ∃ s', Moved s s' r .idle := by
  cases hfind : s.outbox.find? (·.id = eventId) with
  | none =>
    have hrecord : relayStep s r .record = some (s.goto r .idle) := by
      simp only [relayStep, hpc, hfree, hfind]
    exact ⟨_, moved_step hrecord trivial (State.goto_self ..)⟩
  | some row =>
    have hrecord : relayStep s r .record =
        some ((s.lock eventId r).goto r (.recording eventId exc ids)) := by
      simp only [relayStep, hpc, hfree, hfind]
    have hmoved := moved_step hrecord trivial (State.goto_self ..)
    obtain ⟨s', hidle⟩ := exists_idle_of_recording hmoved.pc_eq (hmoved.crash_eq.trans hcrash)
    exact ⟨s', hmoved.trans hidle⟩

theorem Moved.unhindered (h : Moved s s' r pc) :
    machine.Reaches Unhindered s s' ∧ (s'.relays r).pc = pc :=
  ⟨h.reaches.mono fun _ _ hby => ⟨r, hby⟩, h.pc_eq⟩

/-- While SNS and the database answer, a running relay comes to the end of its
poll: what it may have to wait for is another relay that waits for nobody. -/
theorem idle_of_running (h₀ : s₀.Initial) (h : machine.Reaches C s₀ s)
    (hrun : (s.relays r).running = true) (hcrash : (s.relays r).config.crashAfterPublish = false) :
    ∃ s', machine.Reaches Unhindered s s' ∧ (s'.relays r).pc = .idle := by
  have hi := inv_of_reaches h₀ h
  have hdone : (∃ s', Moved s s' r .idle) →
      ∃ s', machine.Reaches Unhindered s s' ∧ (s'.relays r).pc = .idle := fun ⟨s', hmoved⟩ =>
    ⟨s', hmoved.unhindered⟩
  cases hpc : (s.relays r).pc with
  | down => simp [RelayProcess.running, hpc] at hrun
  | idle => exact ⟨s, .refl, hpc⟩
  | batch ids => exact hdone (exists_idle_of_batch hpc hcrash)
  | skipped eventId ids =>
    have hcommit : relayStep s r (.commit .done placedAt) = some (s.goto r (.batch ids)) := by
      simp [relayStep, hpc]
    exact hdone ((moved_step hcommit trivial (State.goto_self ..)).exists_idle hcrash)
  | locked event ids =>
    obtain ⟨t, hmoved, -⟩ := exists_marked hpc hcrash
    exact hdone (hmoved.exists_idle hcrash)
  | accepted event ids =>
    have hcommit : relayStep s r (.commit .done placedAt) =
        some (((s.write event.id (·.mark placedAt)).unlock event.id).goto r (.batch ids)) := by
      simp [relayStep, hpc, hcrash]
    exact hdone ((moved_step hcommit trivial (State.goto_self ..)).exists_idle hcrash)
  | recording eventId exc ids => exact hdone (exists_idle_of_recording hpc hcrash)
  | failed eventId exc ids =>
    cases hlock : s.locks eventId with
    | none => exact hdone (exists_idle_of_failed hpc hcrash hlock)
    | some r' =>
      have hne : r ≠ r' := by
        rintro rfl
        have hholds := (hi.locks eventId r).mp hlock
        simp [hpc, RelayPc.holds] at hholds
      obtain ⟨t, hreach, hfree⟩ := exists_unlocked hi hlock
      have hsame := others_of_reaches hreach hne
      obtain ⟨s', hmoved⟩ := exists_idle_of_failed (hsame ▸ hpc) (hsame ▸ hcrash) hfree
      obtain ⟨hreach', hidle⟩ := hmoved.unhindered
      exact ⟨s', (hreach.mono fun _ _ hby => ⟨r', hby⟩).trans hreach', hidle⟩

/-- Relay 1 has failed on the row that relay 0 is now publishing. -/
theorem idle_of_running_waiting : ∃ s, (machine.step s (.relay 1 .record)).isNone = true ∧
    (s.relays 1).running = true ∧ ∃ s', machine.Reaches Unhindered s s' ∧ (s'.relays 1).pc = .idle := by
  obtain ⟨s, hreach, hwaits, hrun, hcrash⟩ := machine.exists_reaches (C := Machine.anyStep) (s := .empty)
    [.post 0 false ⟨1⟩ placedAt keyboardOrder, .flush 0 ⟨2⟩ placedAt, .commitOrder 0,
      .relay 0 (.start ⟨10, 5, false⟩), .relay 1 (.start ⟨10, 5, false⟩), .relay 0 (.poll [⟨2⟩]),
      .relay 1 (.poll [⟨2⟩]), .relay 1 .select, .relay 1 (.publish (.refused connectTimeout)),
      .relay 0 .select]
    (fun s => (machine.step s (.relay 1 .record)).isNone = true ∧ (s.relays 1).running = true ∧
      (s.relays 1).config.crashAfterPublish = false) (by decide)
  exact ⟨s, hwaits, hrun, idle_of_running State.empty_initial hreach hrun hcrash⟩

end OutboxFanout.Outbox
