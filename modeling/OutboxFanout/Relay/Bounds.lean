import OutboxFanout.Lib.Amortized
import OutboxFanout.Relay.Batch
import OutboxFanout.Relay.Locking

/-!
# A poll ends

Whatever the database and SNS answer, and whatever runs beside it, a relay takes
at most five steps for a row of its batch: two to publish it, and when the mark
is refused the two of `record_failure`. A poll pays for them in advance.
-/

namespace OutboxFanout.Outbox

open Relay

/-- The steps a relay can still take before it polls again. -/
def RelayPc.work : RelayPc → Nat
  | .down | .idle => 0
  | .batch ids => 5 * ids.length + 1
  | .skipped _ ids => 5 * ids.length + 4
  | .locked _ ids => 5 * ids.length + 5
  | .accepted _ ids => 5 * ids.length + 4
  | .failed _ _ ids => 5 * ids.length + 3
  | .recording _ _ ids => 5 * ids.length + 2

/-- The rows a relay can still publish before it polls again. -/
def RelayPc.toPublish : RelayPc → Nat
  | .down | .idle => 0
  | .batch ids | .skipped _ ids | .accepted _ ids | .failed _ _ ids | .recording _ _ ids => ids.length
  | .locked _ ids => ids.length + 1

def isOwn (r : RelayId) (_ : State) : Action → Bool
  | .relay r' _ => r' = r
  | _ => false

def isPublish (r : RelayId) (_ : State) : Action → Bool
  | .relay r' (.publish _) => r' = r
  | _ => false

/-- The batch of a poll. -/
def State.polled (s : State) (r : RelayId) (scan : List UUID) : List UUID :=
  pendingEventIds (s.relays r).config.maxAttempts (s.relays r).config.batchSize
    (scan.filterMap fun id => s.outbox.find? (·.id = id))

/-- What a poll allows: five steps for each row of its batch, itself and its
end; the start of a process and its death are one step each. -/
def allowed (r : RelayId) (s : State) : Action → Nat
  | .relay r' (.poll scan) => if r' = r then 5 * (s.polled r scan).length + 2 else 0
  | .relay r' (.start _) | .relay r' .kill => if r' = r then 1 else 0
  | _ => 0

def allowedToPublish (r : RelayId) (s : State) : Action → Nat
  | .relay r' (.poll scan) => if r' = r then (s.polled r scan).length else 0
  | _ => 0

theorem length_pendingEventIds (maxAttempts limit : Nat) (rows : List OutboxEvent) :
    (pendingEventIds maxAttempts limit rows).length ≤ limit := by
  rw [pendingEventIds_eq, List.length_map]
  exact List.length_take_le ..

variable {s s' : State} {r : RelayId}

theorem allowedToPublish_le (s : State) (r : RelayId) (action : Action) :
    allowedToPublish r s action ≤ (s.relays r).config.batchSize := by
  unfold allowedToPublish
  split
  · split
    · exact length_pendingEventIds ..
    · exact Nat.zero_le _
  · exact Nat.zero_le _

theorem RelayStep.pays (hs : RelayStep s r action s') :
    1 + (s'.relays r).pc.work ≤ (s.relays r).pc.work + allowed r s (.relay r action) := by
  cases hs with
  | start hpc => simp [RelayPc.work, allowed]
  | kill => simp [State.kill_pc, RelayPc.work, allowed]
  | poll hpc =>
    simp only [State.goto_self, hpc, RelayPc.work, allowed, State.polled, ↓reduceIte]
    omega
  | recorded hpc hout =>
    simp only [State.goto_self, hpc, RelayPc.work]
    rcases recorded_pc hout with rfl | rfl <;> simp <;> omega
  | _ hpc => simp [hpc, RelayPc.work]; try omega

theorem RelayStep.paysPublish (hs : RelayStep s r action s') :
    (if isPublish r s (.relay r action) then 1 else 0) + (s'.relays r).pc.toPublish ≤
      (s.relays r).pc.toPublish + allowedToPublish r s (.relay r action) := by
  cases hs with
  | start hpc => simp [RelayPc.toPublish, isPublish]
  | kill => simp [State.kill_pc, RelayPc.toPublish, isPublish]
  | poll hpc => simp [hpc, RelayPc.toPublish, allowedToPublish, State.polled, isPublish]
  | recorded hpc hout =>
    simp only [State.goto_self, hpc, RelayPc.toPublish, isPublish]
    rcases recorded_pc hout with rfl | rfl <;> simp
  | _ hpc => simp [hpc, RelayPc.toPublish, isPublish]; try omega

theorem isPublish_eq_false (h : isOwn r s action = false) : isPublish r s action = false := by
  unfold isPublish
  split
  next => exact h
  next => rfl

/-- A measure of where one relay stands, which no step of another changes. -/
def relayPotential (r : RelayId) (of : RelayPc → Nat) (cost gain : State → Action → Nat)
    (hown : ∀ {s action s'}, RelayStep s r action s' →
      cost s (.relay r action) + of (s'.relays r).pc ≤ of (s.relays r).pc + gain s (.relay r action))
    (hother : ∀ s action, isOwn r s action = false → cost s action = 0) :
    Machine.Potential machine Machine.anyStep (fun _ => True) cost gain where
  of s := of (s.relays r).pc
  keeps _ _ _ := trivial
  pays {s action s'} _ _ hs := by
    have hstep := step_cases hs
    by_cases hmine : isOwn r s action = true
    · cases hstep with
      | relay hr =>
        obtain rfl := of_decide_eq_true hmine
        exact hown hr
      | _ => cases hmine
    · have hsame : s'.relays r = s.relays r := by
        cases hstep with
        | relay hr => exact hr.others fun heq => hmine (decide_eq_true heq.symm)
        | _ => rfl
      rw [hother s action (by simpa using hmine), hsame, Nat.zero_add]
      exact Nat.le_add_right ..

/-- In every run a relay takes no more steps than its polls, starts and deaths
allow it, and publishes no more often than the batches of its polls are long,
of which none exceeds the batch size. -/
theorem ownSteps_le (hpath : machine.Path s steps s') (r : RelayId) :
    steps.countP (fun x => isOwn r x.1 x.2) + (s'.relays r).pc.work ≤
        (s.relays r).pc.work + Machine.total (allowed r) steps ∧
      steps.countP (fun x => isPublish r x.1 x.2) + (s'.relays r).pc.toPublish ≤
        (s.relays r).pc.toPublish + Machine.total (allowedToPublish r) steps ∧
      ∀ x ∈ steps, allowedToPublish r x.1 x.2 ≤ (x.1.relays r).config.batchSize := by
  have hany : Machine.Along Machine.anyStep steps := fun _ _ => trivial
  refine ⟨?_, ?_, fun x _ => allowedToPublish_le x.1 r x.2⟩
  · let work := relayPotential r RelayPc.work (fun s action => if isOwn r s action then 1 else 0)
      (allowed r) (fun hs => by simpa [isOwn] using hs.pays) (fun s action hmine => by simp [hmine])
    rw [← Machine.total_count]
    exact work.total_le hpath hany trivial
  · let toPublish := relayPotential r RelayPc.toPublish
      (fun s action => if isPublish r s action then 1 else 0) (allowedToPublish r)
      (fun hs => hs.paysPublish) (fun s action hother => by simp [isPublish_eq_false hother])
    rw [← Machine.total_count]
    exact toPublish.total_le hpath hany trivial

/-- Two rows in one poll, of which SNS refuses the second. -/
theorem ownSteps_le_pair : ∃ steps : List (State × Action),
    steps.countP (fun x => isOwn 0 x.1 x.2) ≤ Machine.total (allowed 0) steps ∧
      steps.countP (fun x => isPublish 0 x.1 x.2) = 2 := by
  obtain ⟨steps, s', hpath, -, hactions, -⟩ := machine.exists_path (C := Machine.anyStep)
    (s := .holding [keyboardRow, { keyboardRow with id := ⟨3⟩ }])
    [.relay 0 (.start ⟨10, 5, false⟩), .relay 0 (.poll [⟨2⟩, ⟨3⟩]), .relay 0 .select,
      .relay 0 (.publish .accepted), .relay 0 (.commit .done placedAt), .relay 0 .select,
      .relay 0 (.publish (.refused connectTimeout)), .relay 0 .record]
    (fun _ => True) (by decide)
  refine ⟨steps, by simpa [State.holding, RelayPc.work] using
    Nat.le_of_add_right_le (ownSteps_le hpath 0).1, ?_⟩
  exact Machine.countP_actions (p := isPublish 0 .empty) hactions

end OutboxFanout.Outbox
