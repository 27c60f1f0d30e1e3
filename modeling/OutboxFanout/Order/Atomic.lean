import OutboxFanout.Relay.Counting
import OutboxFanout.Relay.History

/-!
# An order and its outbox row are one unit

`create_order` stages both rows, the route commits them together, and whatever
raises before that discards them. So order by order the outbox holds a row with
a snapshot of it (`Snapshot`), and whatever SNS was given is such a snapshot.
-/

namespace OutboxFanout.Outbox

/-- Order by order, the outbox holds a row with a snapshot of it. -/
def State.Snapshot (s : State) : Prop :=
  s.outbox.map (fun row => (row.orderId, row.payload)) =
    s.orders.map fun order => (order.id, buildPayload order)

theorem createOrder_row (h : (createOrder broken orderId now data).2.row eventId then_ = some row) :
    (row.orderId, row.payload) = ((createOrder broken orderId now data).1.id,
      buildPayload (createOrder broken orderId now data).1) := by
  obtain ⟨eventType, -, rfl⟩ := Option.map_eq_some_iff.mp h
  cases broken <;> rfl

theorem RelayStep.orders (h : RelayStep s r action s') : s'.orders = s.orders := by
  cases h with
  | kill => exact State.kill_orders
  | _ => rfl

theorem Step.orders (h : Step s action s') (haction : ∀ q, action ≠ .commitOrder q) :
    s'.orders = s.orders := by
  cases h with
  | relay hr => exact hr.orders
  | commitOrder => exact absurd rfl (haction _)
  | post | flush | flushFails | abort | clearFailedAt => rfl

theorem Step.facts (h : Step s action s') (haction : ∀ q, action ≠ .commitOrder q) :
    s'.outbox.map OutboxEvent.facts = s.outbox.map OutboxEvent.facts := by
  obtain ⟨new, hfacts, hnew⟩ := h.write.facts
  cases new with
  | nil => simpa using hfacts
  | cons row new =>
    obtain ⟨q, order, rfl, -⟩ := hnew row List.mem_cons_self
    exact absurd rfl (haction q)

theorem State.Snapshot.step (h : State.Snapshot s) (hr : RequestsOk s) (hs : Step s action s') :
    s'.Snapshot := by
  by_cases haction : ∃ q, action = .commitOrder q
  · obtain ⟨q, rfl⟩ := haction
    cases hs with
    | commitOrder hq =>
      have hok := hr q
      rw [hq] at hok
      cases hok with
      | flushed hrow => simpa [Snapshot, State.request, createOrder_row hrow] using h
  · rw [not_exists] at haction
    have hfacts := congrArg (List.map fun facts => (facts.2.1, facts.2.2.2.1)) (hs.facts haction)
    simp only [List.map_map] at hfacts
    unfold Snapshot
    rw [hs.orders haction, ← h]
    exact hfacts

theorem State.Snapshot.exists_row (h : State.Snapshot s) (horder : order ∈ s.orders) :
    ∃ row ∈ s.outbox, row.orderId = order.id := by
  have hmem := h ▸ List.mem_map_of_mem (f := fun order : Order => (order.id, buildPayload order)) horder
  obtain ⟨row, hmem, heq⟩ := List.mem_map.mp hmem
  exact ⟨row, hmem, congrArg Prod.fst heq⟩

theorem State.Snapshot.payload (h : State.Snapshot s) (hmem : row ∈ s.outbox) :
    ∃ order ∈ s.orders, order.id = row.orderId ∧ row.payload = buildPayload order := by
  have hmem := h ▸ List.mem_map_of_mem (f := fun row : OutboxEvent => (row.orderId, row.payload)) hmem
  obtain ⟨order, hmem, heq⟩ := List.mem_map.mp hmem
  exact ⟨order, hmem, congrArg Prod.fst heq, (congrArg Prod.snd heq).symm⟩

-- ---------------------------------------------------------------------------
-- What SNS was given
-- ---------------------------------------------------------------------------

theorem RelayStep.accepted_history (h : RelayStep s r action s')
    (hmem : .accepted event ∈ s'.history) :
    .accepted event ∈ s.history ∨ accepted? s (.relay r action) = some event := by
  cases h with
  | kill =>
    rcases s.kill_history r with heq | ⟨_, heq⟩ <;>
      exact .inl (by simpa [heq] using hmem)
  | accepted hpc | lostAck hpc =>
    simpa [accepted?, hpc, or_comm, eq_comm] using hmem
  | _ => exact .inl (by simpa using hmem)

theorem Step.accepted_history (h : Step s action s') (hmem : .accepted event ∈ s'.history) :
    .accepted event ∈ s.history ∨ accepted? s action = some event := by
  cases h with
  | relay hr => exact hr.accepted_history hmem
  | _ => exact .inl hmem

/-- A row is handed to SNS while its lock is held. -/
theorem Inv.accepted (h : Inv s) (hacc : accepted? s action = some event) : event ∈ s.outbox := by
  unfold accepted? at hacc
  split at hacc
  next r answer =>
    split at hacc
    next hpc => cases hacc; exact (h.held r event (by rw [hpc]; rfl)).1
    next hpc => cases hacc; exact (h.held r event (by rw [hpc]; rfl)).1
    next => cases hacc
  next => cases hacc

/-- Everything SNS accepted is a row of the table, as far as no UPDATE changes it. -/
def AcceptedKnown (s : State) : Prop :=
  ∀ event, .accepted event ∈ s.history → event.facts ∈ s.outbox.map OutboxEvent.facts

theorem AcceptedKnown.step (h : AcceptedKnown s) (hi : Inv s) (hs : Step s action s') :
    AcceptedKnown s' := by
  intro event hmem
  obtain ⟨new, hfacts, -⟩ := hs.write.facts
  rw [hfacts]
  apply List.mem_append_left
  rcases hs.accepted_history hmem with hold | hacc
  · exact h event hold
  · exact List.mem_map_of_mem (hi.accepted hacc)

-- ---------------------------------------------------------------------------
-- One unit
-- ---------------------------------------------------------------------------

structure OneUnit (s : State) : Prop extends Inv s where
  requests : RequestsOk s
  keyedOrders : Rows.Keyed Order.id s.orders
  snapshot : s.Snapshot
  known : AcceptedKnown s

theorem keyedOrders_step (h : Rows.Keyed Order.id s.orders) (hs : Step s action s') :
    Rows.Keyed Order.id s'.orders := by
  cases hs with
  | relay hr => exact hr.orders ▸ h
  | commitOrder hq hfree =>
    exact h.append fun old hmem hid => hfree.1 (hid ▸ List.mem_map_of_mem hmem)
  | post | flush | flushFails | abort | clearFailedAt => exact h

theorem OneUnit.empty : OneUnit .empty :=
  ⟨State.empty_initial.inv, State.empty_initial.requestsOk, List.nodup_nil, rfl, nofun⟩

theorem OneUnit.step (h : OneUnit s) (hs : Step s action s') : OneUnit s' :=
  ⟨h.toInv.step hs, h.requests.step hs, keyedOrders_step h.keyedOrders hs,
    h.snapshot.step h.requests hs, h.known.step h.toInv hs⟩

theorem fits_step (h : ∀ order ∈ s.orders, order.Fits) (hr : RequestsOk s)
    (hs : Step s action s') : ∀ order ∈ s'.orders, order.Fits := by
  by_cases haction : ∃ q, action = .commitOrder q
  · obtain ⟨q, rfl⟩ := haction
    cases hs with
    | commitOrder hq =>
      have hok := hr q
      rw [hq] at hok
      cases hok with
      | flushed =>
        intro order horder
        rcases List.mem_append.mp horder with horder | horder
        · exact h order horder
        · exact List.mem_singleton.mp horder ▸ createOrder_fits
  · rw [not_exists] at haction
    rw [hs.orders haction]
    exact h

theorem oneUnit_of_reaches (h : machine.Reaches C .empty s) : OneUnit s :=
  h.invariant .empty fun _ _ _ hi _ hs => hi.step (step_cases hs)

theorem OneUnit.count_row (h : OneUnit s) (horder : order ∈ s.orders) :
    (s.outbox.map (·.orderId)).count order.id = 1 := by
  have hids : s.outbox.map (·.orderId) = s.orders.map (·.id) := by
    simpa [Function.comp_def] using congrArg (List.map Prod.fst) h.snapshot
  rw [hids]
  exact List.count_eq_one_of_mem h.keyedOrders (List.mem_map_of_mem horder)

theorem OneUnit.accepted_order (h : OneUnit s) (hmem : .accepted event ∈ s.history) :
    ∃ order ∈ s.orders, order.id = event.orderId ∧ event.payload = buildPayload order := by
  obtain ⟨row, hrow, heq⟩ := List.mem_map.mp (h.known event hmem)
  obtain ⟨order, horder, hid, hpayload⟩ := h.snapshot.payload hrow
  simp only [OutboxEvent.facts, Prod.mk.injEq] at heq
  exact ⟨order, horder, hid.trans heq.2.1, heq.2.2.2.1 ▸ hpayload⟩

/-- The request whose step this is. -/
def Action.request? : Action → Option RequestId
  | .post q _ _ _ _ | .flush q _ _ | .commitOrder q | .abort q => some q
  | .relay _ _ | .clearFailedAt _ => none

/-- Only its commit shows a request to others. -/
theorem Step.tables_of_request (h : Step s action s') (hq : action.request? = some q)
    (haction : action ≠ .commitOrder q) : s'.orders = s.orders ∧ s'.outbox = s.outbox := by
  cases h with
  | relay | clearFailedAt => cases hq
  | commitOrder => cases hq; exact absurd rfl haction
  | post | flush | flushFails | abort => exact ⟨rfl, rfl⟩

/-- Every order has exactly one row, with its snapshot, every row an order; a
request shows nothing before its commit, and SNS is given nothing else. -/
theorem order_and_row_one_unit (h : machine.Reaches Machine.anyStep .empty s) :
    Rows.Keyed Order.id s.orders ∧
    (∀ order ∈ s.orders, (s.outbox.map (·.orderId)).count order.id = 1) ∧
    (∀ row ∈ s.outbox, ∃ order ∈ s.orders, order.id = row.orderId ∧ row.payload = buildPayload order) ∧
    (∀ event, .accepted event ∈ s.history →
      ∃ order ∈ s.orders, order.id = event.orderId ∧ event.payload = buildPayload order) ∧
    ∀ q action s', action.request? = some q → action ≠ .commitOrder q →
      machine.step s action = some s' → s'.orders = s.orders ∧ s'.outbox = s.outbox := by
  have hunit := oneUnit_of_reaches h
  refine ⟨hunit.keyedOrders, fun _ => hunit.count_row, fun _ => hunit.snapshot.payload,
    fun _ => hunit.accepted_order, fun q action s' hq haction hs => ?_⟩
  exact (step_cases hs).tables_of_request hq haction

/-- One order committed and published, a second one refused with
`BREAK_OUTBOX_INSERT`. -/
theorem order_and_row_one_unit_broken : ∃ s, machine.Reaches Machine.anyStep .empty s ∧
    (∃ order ∈ s.orders, (s.outbox.map (·.orderId)).count order.id = 1) ∧
    ∃ event, .accepted event ∈ s.history ∧ ∃ order ∈ s.orders, order.id = event.orderId := by
  obtain ⟨s, hs, hids, hhist⟩ := machine.exists_reaches (C := Machine.anyStep) (s := .empty)
    [.post 0 false ⟨1⟩ placedAt keyboardOrder, .flush 0 ⟨2⟩ placedAt, .commitOrder 0,
      .post 1 true ⟨3⟩ placedAt keyboardOrder, .flush 1 ⟨4⟩ placedAt,
      .relay 0 (.start ⟨10, 5, false⟩), .relay 0 (.poll [⟨2⟩]), .relay 0 .select,
      .relay 0 (.publish .accepted)]
    (fun s => s.orders.map (·.id) = [⟨1⟩] ∧ 0 < s.accepts ⟨2⟩) (by decide)
  obtain ⟨-, hcount, -, haccepted, -⟩ := order_and_row_one_unit hs
  obtain ⟨order, horder, -⟩ := List.mem_map.mp (hids ▸ List.mem_singleton_self (⟨1⟩ : UUID))
  obtain ⟨event, hmem, hevent⟩ := List.countP_pos_iff.mp hhist
  refine ⟨s, hs, ⟨order, horder, hcount order horder⟩, ?_⟩
  cases event with
  | accepted event =>
    obtain ⟨order, horder, hid, -⟩ := haccepted event hmem
    exact ⟨event, hmem, order, horder, hid⟩
  | _ => cases hevent

end OutboxFanout.Outbox
