import OutboxFanout.Lib.Fair
import OutboxFanout.Order.Atomic
import OutboxFanout.Relay.Bounds
import OutboxFanout.Relay.Serial

/-!
# A row is settled in the end

A relay that is alone, is answered by the database and does not stand still
begins one poll after another, since every poll ends. So a row that may be tried
is published or parked at some time (`exists_settled`), and when it is published
SNS has accepted it meanwhile (`exists_accepted`).
-/

namespace OutboxFanout.Outbox

open Relay

variable {run : machine.Run} {r : RelayId} {row : OutboxEvent}

/-- The row of this id is published or parked. -/
def State.Settled (s : State) (id : UUID) : Prop := ∃ row ∈ s.outbox, row.id = id ∧ Resolved row

/-- The relay is alone, orders that come later are newer, and the database
answers; and the relay does not stand still while the row is not settled. -/
structure Drains (run : machine.Run) (r : RelayId) (row : OutboxEvent) : Prop where
  others : ∀ r', r' ≠ r → ((run.state 0).relays r').pc.holds = none
  idle : ((run.state 0).relays r).pc = .idle
  batchSize : 1 ≤ ((run.state 0).relays r).config.batchSize
  alone : run.Within (Lone r (row.createdAt < ·.createdAt))
  moves : ∀ pc, run.Ends fun s => (s.relays r).pc = pc ∧ ¬s.Settled row.id

-- ---------------------------------------------------------------------------
-- One poll after another
-- ---------------------------------------------------------------------------

theorem poll_idle (hs : step s action = some s') (hlone : Lone r E s action)
    (hpoll : isPoll action = true) :
    (s.relays r).pc = .idle := by
  cases step_cases hs with
  | relay hr =>
    obtain ⟨rfl, -⟩ := hlone
    cases hr with
    | poll hpc => exact hpc
    | _ => cases hpoll
  | _ => cases hpoll

/-- Between its polls the relay comes nearer to the end of its batch. -/
theorem work_lt (hs : step s action = some s') (hlone : Lone r E s action)
    (hpoll : isPoll action = false) :
    (s'.relays r).pc = (s.relays r).pc ∨ (s'.relays r).pc.work < (s.relays r).pc.work := by
  cases step_cases hs with
  | @relay r' action _ hr =>
    obtain ⟨rfl, hans⟩ := hlone
    have hpays := hr.pays
    have hnone : allowed r' s (.relay r' action) = 0 := by
      cases action with
      | poll => cases hpoll
      | start | kill => exact hans.elim
      | _ => rfl
    right
    omega
  | _ => exact .inl rfl

theorem Drains.polls_again (h : Drains run r row) (hnever : ∀ k, ¬(run.state k).Settled row.id)
    (k : Nat) :
    ∃ l ≥ k, ∃ action, run.action l = some action ∧ isPoll action = true := by
  refine Machine.Run.exists_of_descent (P := fun _ => True)
    (fun l => ((run.state l).relays r).pc) RelayPc.work (fun l _ => ?_) (fun l _ => ?_) trivial
  · rcases run.next l with hrest | ⟨action, haction, hs⟩
    · exact .inr ⟨trivial, .inl (by rw [hrest])⟩
    · cases hpoll : isPoll action with
      | true => exact .inl ⟨action, haction, hpoll⟩
      | false => exact .inr ⟨trivial, work_lt hs (h.alone l action haction) hpoll⟩
  · obtain ⟨j, hj, hmoved⟩ := h.moves _ l ⟨rfl, hnever l⟩
    exact ⟨j, hj, .inr fun hsame => hmoved ⟨hsame, hnever j⟩⟩

/-- There are as many polls as one likes before some moment between two of them. -/
theorem Drains.exists_polls (h : Drains run r row) (hnever : ∀ k, ¬(run.state k).Settled row.id)
    (n : Nat) :
    ∃ k, n ≤ (run.before k).countP (isPoll ·.2) ∧ ((run.state k).relays r).pc = .idle := by
  induction n with
  | zero => exact ⟨0, Nat.zero_le _, h.idle⟩
  | succ n ih =>
    obtain ⟨k, hcount, -⟩ := ih
    obtain ⟨l, hl, action, haction, hpoll⟩ := h.polls_again hnever k
    obtain ⟨j, hj, action', haction', hpoll'⟩ := h.polls_again hnever (l + 1)
    refine ⟨j, ?_, poll_idle (run.step_of_action haction') (h.alone j action' haction') hpoll'⟩
    calc n + 1 ≤ (run.before k).countP (isPoll ·.2) + 1 := Nat.succ_le_succ hcount
      _ ≤ (run.before l).countP (isPoll ·.2) + 1 := Nat.succ_le_succ (Machine.Run.countP_before_le hl)
      _ = (run.before (l + 1)).countP (isPoll ·.2) :=
        (Machine.Run.countP_before_succ haction hpoll).symm
      _ ≤ (run.before j).countP (isPoll ·.2) := Machine.Run.countP_before_le hj

theorem exists_settled (h : Drains run r row) (hi : Inv (run.state 0))
    (hmem : row ∈ (run.state 0).outbox)
    (hsel : Selectable ((run.state 0).relays r).config.maxAttempts row) :
    ∃ k, (run.state k).Settled row.id := by
  by_contra hnever
  rw [not_exists] at hnever
  obtain ⟨k, hpolls, hpc⟩ := h.exists_polls hnever _
  obtain ⟨events, hserial⟩ :=
    exists_serial hi h.others h.idle (run.path_before k) (h.alone.along_before k)
  exact hnever k (hserial.resolved (by rw [hpc]; rfl) hi.keyed hmem hsel h.batchSize hpolls)

-- ---------------------------------------------------------------------------
-- What is published was accepted
-- ---------------------------------------------------------------------------

/-- SNS accepted a publish of the row in one of the first `n` steps. -/
def AcceptedBefore (run : machine.Run) (key : UUID) (n : Nat) : Prop :=
  ∃ k < n, ∃ action event, run.action k = some action ∧ accepted? (run.state k) action = some event ∧
    event.id = key

theorem AcceptedBefore.later (h : AcceptedBefore run key n) : AcceptedBefore run key (n + 1) := by
  obtain ⟨k, hk, hacc⟩ := h
  exact ⟨k, Nat.lt_succ_of_lt hk, hacc⟩

/-- A row that is published, or about to be marked, was accepted since the start. -/
structure Accounted (run : machine.Run) (key : UUID) (n : Nat) : Prop where
  unit : OneUnit (run.state n)
  published : ∀ row ∈ (run.state n).outbox, row.id = key → row.published = true →
    AcceptedBefore run key n
  accepted : ∀ r event ids, ((run.state n).relays r).pc = .accepted event ids → event.id = key →
    AcceptedBefore run key n

theorem Drains.accounted (h : Drains run r row) (hi : OneUnit (run.state 0))
    (hmem : row ∈ (run.state 0).outbox) (hunpub : row.published = false) (n : Nat) :
    Accounted run row.id n := by
  induction n with
  | zero =>
    refine ⟨hi, fun row' hmem' hid hpub => ?_, fun r' event ids hpc _ => ?_⟩
    · rw [hi.keyed.eq_of_mem hmem' hmem hid, hunpub] at hpub
      cases hpub
    · by_cases hr : r' = r
      · rw [hr, h.idle] at hpc
        cases hpc
      · have hnone := h.others r' hr
        rw [hpc] at hnone
        cases hnone
  | succ n ih =>
    rcases run.next n with hrest | ⟨action, haction, hs⟩
    · exact ⟨hrest ▸ ih.unit,
        fun row' hmem' hid hpub => (ih.published row' (hrest ▸ hmem') hid hpub).later,
        fun r' event ids hpc hid => (ih.accepted r' event ids (hrest ▸ hpc) hid).later⟩
    · have hstep := step_cases hs
      refine ⟨ih.unit.step hstep, fun row' hmem' hid hpub => ?_, fun r' event ids hpc hid => ?_⟩
      · rcases hstep.write.origin ih.unit.keyed ih.unit.requests hmem' with
          ⟨old, hold, hrow⟩ | ⟨hfresh, -⟩
        · cases hrow with
          | same => exact (ih.published _ hold hid hpub).later
          | mark hpc hevent => exact (ih.accepted _ _ _ hpc (hevent.trans hid)).later
          | record =>
            rw [recordedFailure_id] at hid
            rw [recordedFailure_published] at hpub
            exact (ih.published old hold hid hpub).later
          | clear => exact (ih.published old hold hid hpub).later
        · rw [hfresh.published] at hpub
          cases hpub
      · rcases hstep.accepted_pc hpc with hold | hacc
        · exact (ih.accepted r' event ids hold hid).later
        · exact ⟨n, Nat.lt_succ_self n, action, event, haction, hacc, hid⟩

/-- The row is parked at some time, or SNS accepts it. -/
theorem exists_accepted (h : Drains run r row) (hi : OneUnit (run.state 0))
    (hmem : row ∈ (run.state 0).outbox)
    (hsel : Selectable ((run.state 0).relays r).config.maxAttempts row) :
    (∃ n, ∃ row' ∈ (run.state n).outbox, row'.id = row.id ∧ row'.failedAt ≠ none) ∨
      ∃ n, AcceptedBefore run row.id n := by
  obtain ⟨n, row', hmem', hid, hpub | hparked⟩ := exists_settled h hi.toInv hmem hsel
  · exact .inr ⟨n, (h.accounted hi hmem hsel.1 n).published row' hmem' hid hpub⟩
  · exact .inl ⟨n, row', hmem', hid, hparked⟩

end OutboxFanout.Outbox
