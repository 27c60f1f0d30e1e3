import OutboxFanout.Relay.Counting
import OutboxFanout.Relay.History

/-!
# The bookkeeping of failures

`record_failure` runs in a transaction of its own, after `relay_one` has given
the row's lock back. What it writes is about an unpublished row as long as
nothing publishes the row in between.
-/

namespace OutboxFanout.Outbox

open Relay

/-- `attempts`, `last_error` and `failed_at` of the published rows stay. -/
def SparesPublished (s s' : State) : Prop :=
  ∀ row ∈ s.outbox, row.published = true → ∀ row' ∈ s'.outbox, row'.id = row.id →
    row'.attempts = row.attempts ∧ row'.lastError = row.lastError ∧ row'.failedAt = row.failedAt

instance : Decidable (SparesPublished s s') := by unfold SparesPublished; infer_instance

/-- The row whose mark the step commits. -/
def RelayPc.marking : RelayPc → RelayAction → Option UUID
  | .accepted event _, .commit .done _ => some event.id
  | .accepted event _, .commit (.lost _) _ => some event.id
  | _, _ => none

/-- The row on which `relay_one` raises without having locked it. -/
def RelayPc.raising : RelayPc → RelayAction → Option UUID
  | .batch (id :: _), .selectFails _ => some id
  | .skipped id _, .commit (.refused _) _ => some id
  | .skipped id _, .commit (.lost _) _ => some id
  | _, _ => none

/-- The row whose failure is still to be recorded. -/
def RelayPc.owing : RelayPc → Option UUID
  | .failed id _ _ | .recording id _ _ => some id
  | _ => none

def RelayAction.lost : RelayAction → Bool
  | .commit (.lost _) _ => true
  | _ => false

/-- What keeps a relay's bookkeeping to unpublished rows: `relay_one` raises
without a lock only on an unpublished row, its commit of a mark does not raise
once applied, and no other relay marks a row between its rollback and its
`record_failure`. -/
def FailsUnpublished (r : RelayId) (s : State) : Action → Prop
  | .relay r' action =>
    if r' = r then
      (∀ id ∈ (s.relays r).pc.raising action, ¬ s.Published id) ∧
        (((s.relays r).pc.marking action).isSome = true → action.lost = false)
    else ∀ id ∈ (s.relays r).pc.owing, (s.relays r').pc.marking action ≠ some id
  | _ => True

instance : DecidablePred (FailsUnpublished r s) := fun _ => by
  unfold FailsUnpublished; split <;> infer_instance

/-- The failures a relay still has to record are those of unpublished rows. -/
def OwesUnpublished (r : RelayId) (s : State) : Prop :=
  ∀ id ∈ (s.relays r).pc.owing, ¬ s.Published id

/-- A row is published by a mark. -/
theorem Step.published_inv (hs : Step s action s') (hi : Inv s) (hr : RequestsOk s)
    (h : s'.Published key) : s.Published key ∨
      ∃ r relayAction, action = .relay r relayAction ∧ (s.relays r).pc.marking relayAction = some key := by
  obtain ⟨row', hmem', rfl, hpub⟩ := h
  rcases hs.write.origin hi.keyed hr hmem' with ⟨row, hmem, hrow⟩ | ⟨hfresh, -⟩
  · cases hrow with
    | same => exact .inl ⟨row', hmem, rfl, hpub⟩
    | mark hpc hid hout =>
      refine .inr ⟨_, _, rfl, ?_⟩
      rcases hout with rfl | ⟨error, rfl⟩ <;> simp [RelayPc.marking, hpc, hid]
    | record hpc =>
      rw [recordedFailure_published] at hpub
      exact .inl ⟨row, hmem, recordedFailure_id.symm, hpub⟩
    | clear => exact .inl ⟨row, hmem, rfl, hpub⟩
  · rw [hfresh.published] at hpub
    cases hpub

theorem OwesUnpublished.of_failed {s s' : State} (hpc : (s'.relays r).pc = .failed eventId exc ids)
    (hout : s'.outbox = s.outbox) (h : ¬ s.Published eventId) : OwesUnpublished r s' := by
  intro key hkey hpub
  rw [hpc] at hkey
  cases hkey
  exact h (by simpa only [State.Published, hout] using hpub)

theorem OwesUnpublished.relayStep (h : OwesUnpublished r s) (hi : Inv s)
    (hc : FailsUnpublished r s (.relay r action)) (hs : RelayStep s r action s') :
    OwesUnpublished r s' := by
  simp only [FailsUnpublished, ↓reduceIte] at hc
  obtain ⟨hraise, hlost⟩ := hc
  cases hs with
  | selectFails hpc =>
    exact .of_failed State.goto_pc rfl (hraise _ (by simp [hpc, RelayPc.raising]))
  | skipFails hpc hout =>
    refine .of_failed State.goto_pc rfl (hraise _ ?_)
    rcases hout with rfl | rfl <;> simp [hpc, RelayPc.raising]
  | refused hpc | lostAck hpc | markRefused hpc =>
    exact .of_failed State.goto_pc rfl (hi.not_published (by rw [hpc]; rfl))
  | markLost hpc => simp [hpc, RelayPc.marking, RelayAction.lost] at hlost
  | record hpc hfree hmem hid =>
    intro key hkey
    refine h key ?_
    rw [hpc]
    simpa [RelayPc.owing] using hkey
  | kill =>
    intro key hkey
    simp [State.kill_pc, RelayPc.owing] at hkey
  | recorded hpc hout =>
    intro key hkey
    rcases recorded_pc hout with rfl | rfl <;> simp [RelayPc.owing] at hkey
  | _ =>
    intro key hkey
    simp [RelayPc.owing] at hkey

/-- Nothing marks a row between a relay's failure on it and the end of its
bookkeeping. -/
theorem OwesUnpublished.other (h : OwesUnpublished r s) (hi : Inv s) (hr : RequestsOk s)
    (hc : FailsUnpublished r s action) (hs : Step s action s') (hne : ∀ a, action ≠ .relay r a)
    (hpc : s'.relays r = s.relays r) : OwesUnpublished r s' := by
  intro key hkey hpub
  rw [hpc] at hkey
  rcases hs.published_inv hi hr hpub with hold | ⟨r', relayAction, rfl, hmark⟩
  · exact h key hkey hold
  · have hr' : r' ≠ r := by
      rintro rfl
      exact hne _ rfl
    simp only [FailsUnpublished, hr', ↓reduceIte] at hc
    exact hc key hkey hmark

theorem OwesUnpublished.step (h : OwesUnpublished r s) (hi : Inv s) (hr : RequestsOk s)
    (hc : FailsUnpublished r s action) (hs : Step s action s') : OwesUnpublished r s' := by
  have hs₀ := hs
  cases hs with
  | @relay r' action s' hstep =>
    by_cases hne : r = r'
    · subst hne
      exact h.relayStep hi hc hstep
    · exact h.other hi hr hc hs₀ (by rintro a ⟨⟩; exact hne rfl) (hstep.others hne)
  | _ => exact h.other hi hr hc hs₀ nofun rfl

/-- The bookkeeping of a relay that owes only unpublished rows changes no
published one. -/
theorem OwesUnpublished.spares (h : OwesUnpublished r s) (hi : Inv s)
    (hs : Step s (.relay r action) s') : SparesPublished s s' := by
  intro row hmem hpub row' hmem' hid
  cases hs.write.rowWrite hi.keyed hmem hmem' hid with
  | same | mark => exact ⟨rfl, rfl, rfl⟩
  | record hpc => exact absurd ⟨row, hmem, rfl, hpub⟩ (h row.id (by rw [hpc]; rfl))

/-- Where a relay fails on unpublished rows only, and no other relay marks them
before their failure is recorded, no step of it changes the bookkeeping of a
published row. -/
theorem sparesPublished_of_reaches (h₀ : s₀.Initial)
    (h : machine.Reaches (FailsUnpublished r) s₀ s)
    (hs : machine.step s (.relay r action) = some s') : SparesPublished s s' := by
  have howes : Inv s ∧ RequestsOk s ∧ OwesUnpublished r s := by
    refine h.invariant (I := fun s => Inv s ∧ RequestsOk s ∧ OwesUnpublished r s)
      ⟨h₀.inv, h₀.requestsOk, fun id hid => ?_⟩ ?_
    · simp [h₀.relays, RelayPc.owing] at hid
    · rintro t action u ⟨hi, hr, ho⟩ hc hs
      have hs := step_cases hs
      exact ⟨hi.step hs, hr.step hs, ho.step hi hr hc hs⟩
  exact howes.2.2.spares howes.1 (step_cases hs)

/-- A relay marks one row and records its failure on another. -/
theorem sparesPublished_of_reaches_alone :
    ∃ s s', machine.Reaches (FailsUnpublished 0)
        (.holding [keyboardRow, { keyboardRow with id := ⟨3⟩ }]) s ∧
      s.Published ⟨2⟩ ∧ machine.step s (.relay 0 (.commit .done placedAt)) = some s' ∧
      s'.outbox.map (·.attempts) = [0, 1] ∧ SparesPublished s s' := by
  obtain ⟨s, hs, hpub, hstep⟩ :=
    machine.exists_reaches (C := FailsUnpublished 0)
      (s := .holding [keyboardRow, { keyboardRow with id := ⟨3⟩ }])
      [.relay 0 (.start ⟨10, 5, false⟩), .relay 0 (.poll [⟨2⟩, ⟨3⟩]), .relay 0 .select,
        .relay 0 (.publish .accepted), .relay 0 (.commit .done placedAt), .relay 0 .select,
        .relay 0 (.publish (.refused connectTimeout)), .relay 0 .record]
      (fun s => s.Published ⟨2⟩ ∧ (machine.step s (.relay 0 (.commit .done placedAt))).any fun s' =>
        s'.outbox.map (·.attempts) = [0, 1]) (by decide)
  obtain ⟨s', hs', hatt⟩ := (Option.any_eq_true ..).mp hstep
  exact ⟨s, s', hs, hpub, hs', of_decide_eq_true hatt,
    sparesPublished_of_reaches (State.holding_initial (by decide)) hs hs'⟩

/-- A relay's publish fails, another relay marks the row in the window, and the
first one then counts its failure on it. -/
theorem not_sparesPublished_window :
    ¬ ∀ s₀ s r action s', s₀.Initial → machine.Reaches Machine.anyStep s₀ s →
      machine.step s (.relay r action) = some s' → SparesPublished s s' := by
  intro hclaim
  obtain ⟨s, hs, hstep⟩ :=
    machine.exists_reaches (C := Machine.anyStep) (s := .holding [keyboardRow])
      [.relay 0 (.start ⟨10, 1, false⟩), .relay 1 (.start ⟨10, 1, false⟩),
        .relay 0 (.poll [⟨2⟩]), .relay 1 (.poll [⟨2⟩]), .relay 0 .select,
        .relay 0 (.publish (.refused connectTimeout)), .relay 1 .select,
        .relay 1 (.publish .accepted), .relay 1 (.commit .done placedAt), .relay 0 .record]
      (fun s => (machine.step s (.relay 0 (.commit .done placedAt))).any fun s' =>
        ¬ SparesPublished s s') (by decide)
  obtain ⟨s', hs', hnot⟩ := (Option.any_eq_true ..).mp hstep
  exact of_decide_eq_true hnot
    (hclaim _ s 0 _ s' (State.holding_initial Rows.keyed_singleton) hs hs')

end OutboxFanout.Outbox
