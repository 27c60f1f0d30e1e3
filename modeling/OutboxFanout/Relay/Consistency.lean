import OutboxFanout.Order.Atomic
import OutboxFanout.Relay.Publisher

/-!
# A row tells its own history

The insert, the mark and the bookkeeping of a failure are three transactions of
several processes. Whatever their order, the columns of a row agree with one
another and with what was committed on it.
-/

namespace OutboxFanout.Outbox

open Relay

/-- One OUTBOX_MAX_ATTEMPTS for every relay, and no operator's edit. -/
def Fixed (maxAttempts : Nat) (_ : State) : Action → Prop
  | .relay _ (.start config) => config.maxAttempts = maxAttempts
  | .clearFailedAt _ => False
  | _ => True

instance : DecidablePred (Fixed maxAttempts s)
  | .relay _ (.start config) => inferInstanceAs (Decidable (config.maxAttempts = maxAttempts))
  | .clearFailedAt _ => .isFalse id
  | .relay _ .kill | .relay _ (.poll _) | .relay _ .endPoll | .relay _ .select
  | .relay _ (.selectFails _) | .relay _ (.publish _) | .relay _ (.commit _ _) | .relay _ .record
  | .relay _ (.recordFails _) | .post _ _ _ _ _ | .flush _ _ _ | .commitOrder _ | .abort _ =>
    .isTrue trivial

/-- What the columns of the row say of its past. -/
structure Consistent (maxAttempts : Nat) (s : State) (row : OutboxEvent) : Prop where
  published : row.published = true ↔ row.publishedAt ≠ none
  accepted : row.published = true →
    ∃ event, .accepted event ∈ s.history ∧ buildMessage event = buildMessage row
  attempts : row.attempts = s.recorded row.id
  failed : row.failedAt ≠ none ↔
    .recorded row.id true ∈ s.history ∨ 0 < s.recorded row.id ∧ maxAttempts ≤ s.recorded row.id

-- ---------------------------------------------------------------------------
-- The history grows
-- ---------------------------------------------------------------------------

theorem RelayStep.history (h : RelayStep s r action s') (hmem : event ∈ s.history) :
    event ∈ s'.history := by
  cases h with
  | kill =>
    rcases s.kill_history r with heq | ⟨_, heq⟩ <;> simp [heq, hmem]
  | _ => simp [hmem]

theorem Step.history (h : Step s action s') (hmem : event ∈ s.history) : event ∈ s'.history := by
  cases h with
  | relay hr => exact hr.history hmem
  | _ => exact hmem

theorem Step.accepted_noted (h : Step s action s') (hacc : accepted? s action = some event) :
    .accepted event ∈ s'.history := by
  cases h with
  | relay hr =>
    cases hr with
    | accepted hpc | lostAck hpc =>
      obtain rfl : _ = event := by simpa [accepted?, hpc] using hacc
      simp
    | refused hpc => simp [accepted?, hpc] at hacc
    | _ => cases hacc
  | _ => cases hacc

-- ---------------------------------------------------------------------------
-- published and published_at
-- ---------------------------------------------------------------------------

def PublishedDated (rows : List OutboxEvent) : Prop :=
  ∀ row ∈ rows, row.published = true ↔ row.publishedAt ≠ none

theorem recordedFailure_publishedAt :
    (recordedFailure limit exc permanent now row).publishedAt = row.publishedAt := by
  simp only [recordedFailure]
  split <;> rfl

theorem RequestsOk.publishedAt (h : RequestsOk s) (hq : s.requests q = .flushed order row) :
    row.publishedAt = none := by
  have hok := h q
  rw [hq] at hok
  cases hok with
  | flushed hrow =>
    obtain ⟨eventType, -, rfl⟩ := Option.map_eq_some_iff.mp hrow
    rfl

theorem PublishedDated.step (h : PublishedDated s.outbox) (hr : RequestsOk s)
    (hw : Write s action rows) : PublishedDated rows := by
  intro row hmem
  cases hw with
  | same => exact h row hmem
  | create hq =>
    rcases List.mem_append.mp hmem with hmem | hmem
    · exact h row hmem
    · obtain rfl := List.mem_singleton.mp hmem
      simp [hr.publishedAt hq, (hr.fresh hq).published]
  | mark =>
    rcases Rows.mem_update.mp hmem with ⟨hmem, -⟩ | ⟨old, -, -, rfl⟩
    · exact h row hmem
    · simp [OutboxEvent.mark]
  | record =>
    rcases Rows.mem_update.mp hmem with ⟨hmem, -⟩ | ⟨old, hold, -, rfl⟩
    · exact h row hmem
    · rw [recordedFailure_published, recordedFailure_publishedAt]
      exact h old hold
  | clear =>
    rcases Rows.mem_update.mp hmem with ⟨hmem, -⟩ | ⟨old, hold, -, rfl⟩
    · exact h row hmem
    · exact h old hold

-- ---------------------------------------------------------------------------
-- A published row was accepted
-- ---------------------------------------------------------------------------

/-- What is marked, and what a relay is about to mark, SNS has accepted. -/
structure Accepted (s : State) : Prop where
  published : ∀ row ∈ s.outbox, row.published = true →
    ∃ event, .accepted event ∈ s.history ∧ event.facts = row.facts
  accepted : ∀ r event ids, (s.relays r).pc = .accepted event ids → .accepted event ∈ s.history

theorem Accepted.step (h : Accepted s) (hi : Inv s) (hr : RequestsOk s) (hs : Step s action s') :
    Accepted s' := by
  refine ⟨fun row' hmem' hpub => ?_, fun r event ids hpc => ?_⟩
  · rcases hs.write.origin hi.keyed hr hmem' with ⟨row, hmem, hrow⟩ | ⟨hfresh, -⟩
    · have hold : row'.facts = row.facts → row.published = true →
          ∃ event, .accepted event ∈ s'.history ∧ event.facts = row'.facts := by
        intro hfacts hrowpub
        obtain ⟨event, hevent, heq⟩ := h.published row hmem hrowpub
        exact ⟨event, hs.history hevent, heq.trans hfacts.symm⟩
      cases hrow with
      | same => exact hold rfl hpub
      | @mark r event ids _ _ hpc hid =>
        have hheld := (hi.held r event (by rw [hpc]; rfl)).1
        obtain rfl := hi.keyed.eq_of_mem hheld hmem hid
        exact ⟨_, hs.history (h.accepted r _ ids hpc), rfl⟩
      | record => exact hold recordedFailure_facts (recordedFailure_published ▸ hpub)
      | clear => exact hold rfl hpub
    · rw [hfresh.published] at hpub
      cases hpub
  · rcases hs.accepted_pc hpc with hpc | hacc
    · exact hs.history (h.accepted r event ids hpc)
    · exact hs.accepted_noted hacc

-- ---------------------------------------------------------------------------
-- A parked row has failed for good
-- ---------------------------------------------------------------------------

def LimitIs (maxAttempts : Nat) (s : State) : Prop :=
  ∀ r, (s.relays r).pc = .down ∨ (s.relays r).config.maxAttempts = maxAttempts

theorem LimitIs.relayStep (h : LimitIs limit s) (hc : Fixed limit s (.relay r action))
    (hs : RelayStep s r action s') : LimitIs limit s' := by
  intro r'
  by_cases hr : r' = r
  · subst hr
    have hlimit : (s.relays r').pc ≠ .down → (s.relays r').config.maxAttempts = limit :=
      (h r').resolve_left
    cases hs with
    | start => exact .inr (by simpa [Fixed] using hc)
    | kill => exact .inl State.kill_pc
    | poll hpc | endPoll hpc | lock hpc | skip hpc | selectFails hpc | skipDone hpc | skipFails hpc
    | accepted hpc | refused hpc | lostAck hpc | mark hpc | markRefused hpc | markLost hpc
    | record hpc | recordMissing hpc | recordFails hpc | recorded hpc | recordRefused hpc =>
      exact .inr (by simpa using hlimit (by simp [hpc]))
  · rw [hs.others hr]
    exact h r'

theorem LimitIs.step (h : LimitIs limit s) (hc : Fixed limit s action) (hs : Step s action s') :
    LimitIs limit s' := by
  cases hs with
  | relay hr => exact h.relayStep hc hr
  | _ => exact h

theorem recorded_pos {s : State} (hmem : .recorded eventId permanent ∈ s.history) :
    0 < s.recorded eventId :=
  List.countP_pos_iff.mpr ⟨_, hmem, by simp⟩

/-- `failed_at` is set by the failures that were permanent or the last allowed. -/
def ParkedFor (maxAttempts : Nat) (s : State) (row : OutboxEvent) : Prop :=
  row.failedAt ≠ none ↔
    .recorded row.id true ∈ s.history ∨ 0 < row.attempts ∧ maxAttempts ≤ row.attempts

def AllParkedFor (maxAttempts : Nat) (s : State) : Prop :=
  ∀ row ∈ s.outbox, ParkedFor maxAttempts s row

/-- A step that records no failure and sets no `failed_at`. -/
theorem AllParkedFor.keep (h : AllParkedFor limit s) (hcount : Counted s)
    (hrec : ∀ key, .recorded key true ∈ s'.history ↔ .recorded key true ∈ s.history)
    (hrow : ∀ row ∈ s'.outbox, (∃ old ∈ s.outbox, old.id = row.id ∧ old.attempts = row.attempts ∧
      old.failedAt = row.failedAt) ∨ OutboxEvent.Fresh row ∧ row.id ∉ s.outbox.map (·.id)) :
    AllParkedFor limit s' := by
  intro row hmem
  rcases hrow row hmem with ⟨old, hold, hid, hatt, hfailed⟩ | ⟨hfresh, hnew⟩
  · simpa only [ParkedFor, hrec, hid, hatt, hfailed] using h old hold
  · have hnone : .recorded row.id true ∉ s'.history := by
      rw [hrec]
      intro hmem
      exact (recorded_pos hmem).ne' (hcount.unseen _ hnew)
    simp [ParkedFor, hfresh.failedAt, hfresh.attempts, hnone]

theorem AllParkedFor.update (h : AllParkedFor limit s) (hcount : Counted s)
    (hrec : ∀ key, .recorded key true ∈ s'.history ↔ .recorded key true ∈ s.history)
    (hout : s'.outbox = Rows.update OutboxEvent.id eventId (·.mark now) s.outbox) :
    AllParkedFor limit s' := by
  refine h.keep hcount hrec fun row hmem => .inl ?_
  rw [hout] at hmem
  rcases Rows.mem_update.mp hmem with ⟨hmem, -⟩ | ⟨old, hold, -, rfl⟩
  · exact ⟨row, hmem, rfl, rfl, rfl⟩
  · exact ⟨old, hold, rfl, rfl, rfl⟩

theorem AllParkedFor.record (h : AllParkedFor limit s)
    (hhist : s'.history = .recorded eventId permanent :: s.history)
    (hout : s'.outbox = Rows.update OutboxEvent.id eventId
      (recordedFailure limit exc permanent now) s.outbox) : AllParkedFor limit s' := by
  intro row hmem
  rw [hout] at hmem
  simp only [ParkedFor, hhist, List.mem_cons, Event.recorded.injEq]
  rcases Rows.mem_update.mp hmem with ⟨hmem, hne⟩ | ⟨old, hold, rfl, rfl⟩
  · simpa [ParkedFor, hne] using h row hmem
  · have hparked : old.failedAt ≠ none ↔ _ := h old hold
    rw [ne_eq, recordedFailure_failedAt, recordedFailure_id, recordedFailure_attempts]
    by_cases hfailed : old.failedAt = none
    · obtain ⟨hnone, hbelow⟩ := not_or.mp (mt hparked.mpr (not_not.mpr hfailed))
      cases permanent <;> simp [hfailed, hnone]
    · refine iff_of_true (fun hopen => hfailed hopen.1) ((hparked.mp hfailed).imp .inr ?_)
      rintro ⟨hpos, hle⟩
      exact ⟨Nat.succ_pos _, hle.trans (Nat.le_succ _)⟩

theorem AllParkedFor.step (h : AllParkedFor limit s) (hcount : Counted s) (hlimit : LimitIs limit s)
    (hr : RequestsOk s) (hc : Fixed limit s action) (hs : Step s action s') :
    AllParkedFor limit s' := by
  have hsame : s'.outbox = s.outbox →
      (∀ key, .recorded key true ∈ s'.history ↔ .recorded key true ∈ s.history) →
      AllParkedFor limit s' := fun hout hrec =>
    h.keep hcount hrec fun row hmem => .inl ⟨row, hout ▸ hmem, rfl, rfl, rfl⟩
  cases hs with
  | @relay r _ _ hr =>
    cases hr with
    | kill =>
      refine hsame State.kill_outbox fun key => ?_
      rcases s.kill_history r with heq | ⟨_, heq⟩ <;> simp [heq]
    | mark => exact h.update hcount (fun _ => .rfl) rfl
    | markLost => exact h.update hcount (by simp) rfl
    | recorded hpc =>
      have hmax := (hlimit _).resolve_left fun hdown => by cases hpc.symm.trans hdown
      subst hmax
      exact h.record rfl rfl
    | accepted | lostAck | markRefused => exact hsame rfl (by simp)
    | _ => exact hsame rfl fun _ => .rfl
  | commitOrder hq hfree =>
    refine h.keep hcount (fun _ => .rfl) fun row hmem => ?_
    rcases List.mem_append.mp hmem with hmem | hmem
    · exact .inl ⟨row, hmem, rfl, rfl, rfl⟩
    · obtain rfl := List.mem_singleton.mp hmem
      exact .inr ⟨hr.fresh hq, hfree.2⟩
  | clearFailedAt => exact hc.elim
  | post | flush | flushFails | abort => exact hsame rfl fun _ => .rfl

-- ---------------------------------------------------------------------------
-- Every run
-- ---------------------------------------------------------------------------

/-- The row after the step. -/
theorem Step.exists_rowWrite (hs : Step s action s') (hk : Rows.Keyed OutboxEvent.id s.outbox)
    (hmem : row ∈ s.outbox) : ∃ row' ∈ s'.outbox, RowWrite s row action row' := by
  obtain ⟨new, hids⟩ := hs.write.ids
  have hid : row.id ∈ s'.outbox.map (·.id) :=
    hids ▸ List.mem_append_left _ (List.mem_map_of_mem hmem)
  obtain ⟨row', hmem', hid⟩ := List.mem_map.mp hid
  exact ⟨row', hmem', hs.write.rowWrite hk hmem hmem' hid⟩

theorem RowWrite.facts (h : RowWrite s row action row') : row'.facts = row.facts := by
  cases h with
  | record => exact recordedFailure_facts
  | same | mark | clear => rfl

theorem RowWrite.published (h : RowWrite s row action row') (hpub : row.published = true) :
    row'.published = true := by
  cases h with
  | record => rwa [recordedFailure_published]
  | mark => rfl
  | same | clear => exact hpub

/-- The row is still there, published if it was. -/
def Survives (row : OutboxEvent) (rows : List OutboxEvent) : Prop :=
  ∃ row' ∈ rows, row'.facts = row.facts ∧ (row.published = true → row'.published = true)

theorem survives_of_reaches (ht : Tracked t) (h : machine.Reaches C t s) (hmem : row ∈ t.outbox) :
    Survives row s.outbox := by
  have hboth : Inv s ∧ Survives row s.outbox := by
    refine h.invariant (I := fun s => Inv s ∧ Survives row s.outbox)
      ⟨ht.toInv, row, hmem, rfl, id⟩ ?_
    rintro u action v ⟨hi, old, hold, hfacts, hpub⟩ _ hs
    have hs := step_cases hs
    obtain ⟨row', hmem', hrow⟩ := hs.exists_rowWrite hi.keyed hold
    exact ⟨hi.step hs, row', hmem', hrow.facts.trans hfacts, fun h => hrow.published (hpub h)⟩
  exact hboth.2

structure Recounts (maxAttempts : Nat) (s : State) : Prop extends Tracked s where
  dated : PublishedDated s.outbox
  accepted : Accepted s
  limitIs : LimitIs maxAttempts s
  parked : AllParkedFor maxAttempts s

theorem recounts_of_reaches (h : machine.Reaches (Fixed limit) .empty s) : Recounts limit s := by
  refine h.invariant ?_ fun t action u ht hc hs => ?_
  · exact ⟨tracked_of_reaches (C := Fixed limit) .refl, nofun, ⟨nofun, by simp [State.empty, State.holding]⟩,
      fun _ => .inl rfl, nofun⟩
  · have hs := step_cases hs
    exact ⟨⟨ht.toInv.step hs, ht.toCounted.step ht.requests hs, ht.requests.step hs⟩,
      ht.dated.step ht.requests hs.write, ht.accepted.step ht.toInv ht.requests hs,
      ht.limitIs.step hc hs, ht.parked.step ht.toCounted ht.limitIs ht.requests hc hs⟩

theorem Recounts.consistent (h : Recounts limit s) (hmem : row ∈ s.outbox) :
    Consistent limit s row where
  published := h.dated row hmem
  accepted hpub := by
    obtain ⟨event, hevent, hfacts⟩ := h.accepted.published row hmem hpub
    exact ⟨event, hevent, buildMessage_congr hfacts⟩
  attempts := h.attempts row hmem
  failed := h.attempts row hmem ▸ h.parked row hmem

/-- Rows are never lost, renamed or unpublished, and say what happened to them. -/
theorem rows_consistent_of_reaches (h : machine.Reaches (Fixed limit) .empty t)
    (h' : machine.Reaches (Fixed limit) t s) :
    (∀ row ∈ t.outbox, Survives row s.outbox) ∧ ∀ row ∈ s.outbox, Consistent limit s row :=
  ⟨fun _ => survives_of_reaches (tracked_of_reaches h) h',
    fun _ => (recounts_of_reaches (h.trans h')).consistent⟩

/-- Two relays that fail on the row at once: both failures are counted, and the
second parks it. -/
theorem rows_consistent_overlapping : ∃ t s, machine.Reaches (Fixed 2) .empty t ∧
    machine.Reaches (Fixed 2) t s ∧ t.outbox.length = 1 ∧ (∀ row ∈ t.outbox, Survives row s.outbox) ∧
    ∃ row ∈ s.outbox, row.attempts = 2 ∧ row.failedAt ≠ none ∧ Consistent 2 s row := by
  obtain ⟨t, s, ht, hone, hs, row, hmem, hatt, hfailed⟩ :=
    machine.exists_reaches_via (C := Fixed 2) (s := .empty)
      [.post 0 false ⟨1⟩ placedAt keyboardOrder, .flush 0 ⟨2⟩ placedAt, .commitOrder 0]
      [.relay 0 (.start ⟨10, 2, false⟩), .relay 0 (.poll [⟨2⟩]), .relay 0 .select,
        .relay 0 (.publish (.refused connectTimeout)), .relay 1 (.start ⟨10, 2, false⟩),
        .relay 1 (.poll [⟨2⟩]), .relay 1 .select, .relay 1 (.publish (.refused connectTimeout)),
        .relay 1 .record, .relay 1 (.commit .done placedAt), .relay 0 .record,
        .relay 0 (.commit .done placedAt)]
      (fun t => t.outbox.length = 1) (fun s => ∃ row ∈ s.outbox, row.attempts = 2 ∧ row.failedAt ≠ none)
      (by decide)
  obtain ⟨hsurvives, hconsistent⟩ := rows_consistent_of_reaches ht hs
  exact ⟨t, s, ht, hs, hone, hsurvives, row, hmem, hatt, hfailed, hconsistent row hmem⟩

end OutboxFanout.Outbox
