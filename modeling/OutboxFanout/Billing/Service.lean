import OutboxFanout.Shared.Projection

/-!
# Billing

`billing/service.py` and the table of `billing/models.py`.
-/

namespace OutboxFanout.Billing

structure BillingRecord where
  id : UUID
  orderId : UUID
  eventId : UUID
  customerId : String
  amount : DecimalValue
  processedAt : Datetime

/-- What `handle` reads of the event. -/
structure Values where
  orderId : UUID
  eventId : UUID
  customerId : String
  amount : DecimalValue

def readWith (columns : Columns) (event : Json) : Except Exc Values := do
  let orderId ← readOrderId event
  let payload ← getItem event "payload"
  let eventId ← UUID.new (← getItem event "event_id")
  let customerId ← getItem payload "customer_id"
  let amount ← Decimal.new (← getItem payload "amount")
  -- bound by the INSERT
  let customerId ← columns.varchar 64 customerId
  let amount ← columns.numeric 12 2 amount
  return { orderId, eventId, customerId, amount }

theorem readWith_orderId (h : readWith columns event = .ok values) :
    readOrderId event = .ok values.orderId := by
  simp only [readWith, Except.bind_eq_ok, Except.pure_eq_ok] at h
  obtain ⟨order, horder, _, _, _, _, _, _, _, _, _, _, _, _, _, _, _, _, rfl⟩ := h
  exact horder

/-- `uuid.uuid4()` and `datetime.now(timezone.utc)`. -/
structure Draws where
  id : UUID
  now : Datetime

def projectionWith (columns : Columns) : Projection Values Draws BillingRecord where
  read := readWith columns
  orderId := Values.orderId
  row values draws :=
    { id := draws.id, orderId := values.orderId, eventId := values.eventId
      customerId := values.customerId, amount := values.amount, processedAt := draws.now }
  rowOrderId := BillingRecord.orderId
  rowOrderId_row _ _ := rfl
  read_orderId := readWith_orderId

def handleWith (columns : Columns) : Handler (Table BillingRecord) (Insert Values BillingRecord)
    (InsertAnswer Draws) TableEvent :=
  (projectionWith columns).handler

abbrev read : Json → Except Exc Values := readWith postgres

abbrev projection : Projection Values Draws BillingRecord := projectionWith postgres

abbrev handle : Handler (Table BillingRecord) (Insert Values BillingRecord)
    (InsertAnswer Draws) TableEvent :=
  handleWith postgres

end OutboxFanout.Billing
