import Mathlib.Tactic.NormNum
import OutboxFanout.Lib.Rows
import OutboxFanout.Numbers

/-!
# The orders and outbox tables

The rows of `order/models.py` and what `order/service.py` stages for one
request: the order, and the outbox event whose payload is a snapshot of it.
-/

namespace OutboxFanout

/-- An accepted request body (`order/schemas.py`): the lengths are the schema's,
and the amount is a positive multiple of 0.01 below 10^10, however spelled. -/
structure OrderCreate where
  customerId : String
  item : String
  amount : Decimal
  customerId_length : 1 ≤ customerId.length ∧ customerId.length ≤ 64
  item_length : 1 ≤ item.length ∧ item.length ≤ 255
  amount_positive : amount.negative = false ∧ 0 < amount.coefficient
  amount_places : ∃ cents : Nat, cents < 10 ^ 12 ∧
    (amount.coefficient : Rat) * 10 ^ amount.exponent * 100 = cents

/-- A body, and below a time, for the runs on fixed inputs. -/
def keyboardOrder : OrderCreate where
  customerId := "cust-42"
  item := "Mechanical keyboard"
  amount := ⟨false, 49999, -2⟩
  customerId_length := by decide
  item_length := by decide
  amount_positive := by decide
  amount_places := ⟨49999, by norm_num, by norm_num⟩

def placedAt : Datetime := ⟨2024, 3, 9, 17, 5, 0, 0⟩

structure Order where
  id : UUID
  customerId : String
  item : String
  amount : Decimal
  createdAt : Datetime

/-- The object `session.get` loads for the row of this order. -/
def Order.loaded (order : Order) : Order := { order with amount := order.amount.toScale 2 }

structure OutboxEvent where
  id : UUID
  orderId : UUID
  eventType : String
  payload : Json
  published : Bool
  createdAt : Datetime
  publishedAt : Option Datetime
  attempts : Nat
  lastError : Option String
  failedAt : Option Datetime

/-- The columns that no UPDATE sets. -/
def OutboxEvent.facts (row : OutboxEvent) : UUID × UUID × String × Json × Datetime :=
  (row.id, row.orderId, row.eventType, row.payload, row.createdAt)

/-- The staged `OutboxEvent` object: `event_type` may have been nulled, and the
column defaults are not filled in yet. -/
structure StagedEvent where
  orderId : UUID
  eventType : Option String
  payload : Json

def eventTypeOrderCreated : String := "OrderCreated"

/-- `_build_payload`. -/
def buildPayload (order : Order) : Json := .obj [
  ("order_id", .str order.id.str),
  ("customer_id", .str order.customerId),
  ("item", .str order.item),
  ("amount", .str order.amount.str),
  ("created_at", .str order.createdAt.isoformat)]

/-- `create_order` up to the flush: the two objects it adds to the session.
`id` is the `uuid4()` and `now` the `_utc_now()` it draws. -/
def createOrder (breakOutboxInsert : Bool) (id : UUID) (now : Datetime) (data : OrderCreate) :
    Order × StagedEvent :=
  let order : Order :=
    { id, customerId := data.customerId, item := data.item, amount := data.amount, createdAt := now }
  let event : StagedEvent :=
    { orderId := order.id, eventType := some eventTypeOrderCreated, payload := buildPayload order }
  (order, if breakOutboxInsert then { event with eventType := none } else event)

/-- What the schema lets through, which the columns of the three services hold. -/
structure Order.Fits (order : Order) : Prop where
  customerId : order.customerId.length ≤ 64
  item : order.item.length ≤ 255
  amount : ∃ cents : Nat, cents < 10 ^ 12 ∧
    (order.amount.coefficient : Rat) * 10 ^ order.amount.exponent * 10 ^ 2 = cents

theorem createOrder_fits : (createOrder broken orderId now data).1.Fits where
  customerId := data.customerId_length.2
  item := data.item_length.2
  amount := by
    obtain ⟨cents, hlt, hcents⟩ := data.amount_places
    exact ⟨cents, hlt, by rw [← hcents]; norm_num [createOrder]⟩

/-- A column of two decimals keeps the value. -/
theorem Order.Fits.loaded_value {order : Order} (h : order.Fits) :
    order.loaded.amount.value = order.amount.value := by
  obtain ⟨cents, -, hcents⟩ := h.amount
  exact Decimal.toScale_value hcents

/-- The outbox row the flush inserts: the staged event with the column defaults
(`uuid4()`, `_utc_now()`, `false`, `0`, NULL). `none`: `event_type` is NOT NULL. -/
def StagedEvent.row (event : StagedEvent) (id : UUID) (now : Datetime) : Option OutboxEvent :=
  event.eventType.map fun eventType =>
    { id, orderId := event.orderId, eventType, payload := event.payload, published := false,
      createdAt := now, publishedAt := none, attempts := 0, lastError := none, failedAt := none }

/-- The row that order 1, placed with `keyboardOrder`, inserts under id 2. -/
def keyboardRow : OutboxEvent where
  id := ⟨2⟩
  orderId := ⟨1⟩
  eventType := eventTypeOrderCreated
  payload := buildPayload (createOrder false ⟨1⟩ placedAt keyboardOrder).1
  published := false
  createdAt := placedAt
  publishedAt := none
  attempts := 0
  lastError := none
  failedAt := none

example : (createOrder false ⟨1⟩ placedAt keyboardOrder).2.row ⟨2⟩ placedAt = some keyboardRow := rfl

-- ---------------------------------------------------------------------------
-- The writes of the relay
-- ---------------------------------------------------------------------------

/-- `event.published = True; event.published_at = now`. -/
def OutboxEvent.mark (now : Datetime) (row : OutboxEvent) : OutboxEvent :=
  { row with published := true, publishedAt := some now }

/-- `attempts = attempts + 1, last_error = reason`. -/
def OutboxEvent.countFailure (reason : String) (row : OutboxEvent) : OutboxEvent :=
  { row with attempts := row.attempts + 1, lastError := some reason }

/-- `failed_at = now`. -/
def OutboxEvent.park (now : Datetime) (row : OutboxEvent) : OutboxEvent :=
  { row with failedAt := some now }

section
variable (row : OutboxEvent) (now : Datetime) (reason : String)

@[simp] theorem OutboxEvent.mark_id : (row.mark now).id = row.id := rfl
@[simp] theorem OutboxEvent.mark_createdAt : (row.mark now).createdAt = row.createdAt := rfl
@[simp] theorem OutboxEvent.mark_published : (row.mark now).published = true := rfl
@[simp] theorem OutboxEvent.mark_attempts : (row.mark now).attempts = row.attempts := rfl
@[simp] theorem OutboxEvent.mark_failedAt : (row.mark now).failedAt = row.failedAt := rfl
@[simp] theorem OutboxEvent.countFailure_id : (row.countFailure reason).id = row.id := rfl
@[simp] theorem OutboxEvent.countFailure_createdAt :
    (row.countFailure reason).createdAt = row.createdAt := rfl
@[simp] theorem OutboxEvent.countFailure_published :
    (row.countFailure reason).published = row.published := rfl
@[simp] theorem OutboxEvent.countFailure_attempts :
    (row.countFailure reason).attempts = row.attempts + 1 := rfl
@[simp] theorem OutboxEvent.countFailure_failedAt :
    (row.countFailure reason).failedAt = row.failedAt := rfl
@[simp] theorem OutboxEvent.park_id : (row.park now).id = row.id := rfl
@[simp] theorem OutboxEvent.park_createdAt : (row.park now).createdAt = row.createdAt := rfl
@[simp] theorem OutboxEvent.park_published : (row.park now).published = row.published := rfl
@[simp] theorem OutboxEvent.park_attempts : (row.park now).attempts = row.attempts := rfl
@[simp] theorem OutboxEvent.park_failedAt : (row.park now).failedAt = some now := rfl

end

end OutboxFanout
