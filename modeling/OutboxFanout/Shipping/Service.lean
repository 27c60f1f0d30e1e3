import OutboxFanout.Shared.Projection

/-!
# Shipping

`shipping/service.py` and the table of `shipping/models.py`.
-/

namespace OutboxFanout.Shipping

structure Shipment where
  id : UUID
  orderId : UUID
  eventId : UUID
  customerId : String
  item : String
  trackingNumber : String
  processedAt : Datetime

/-- `uuid` is the `uuid.uuid4()` it draws. -/
def trackingNumber (uuid : UUID) : String :=
  "TRK-" ++ (String.ofList ((Hex.digits 32 uuid.int.toNat).take 12)).toUpper

/-- What `handle` reads of the event. -/
structure Values where
  orderId : UUID
  eventId : UUID
  customerId : String
  item : String

def readWith (columns : Columns) (event : Json) : Except Exc Values := do
  let orderId ← readOrderId event
  let payload ← getItem event "payload"
  let eventId ← UUID.new (← getItem event "event_id")
  let customerId ← getItem payload "customer_id"
  let item ← getItem payload "item"
  -- bound by the INSERT
  let customerId ← columns.varchar 64 customerId
  let item ← columns.varchar 255 item
  return { orderId, eventId, customerId, item }

theorem readWith_orderId (h : readWith columns event = .ok values) :
    readOrderId event = .ok values.orderId := by
  simp only [readWith, Except.bind_eq_ok, Except.pure_eq_ok] at h
  obtain ⟨order, horder, _, _, _, _, _, _, _, _, _, _, _, _, _, _, rfl⟩ := h
  exact horder

/-- The `uuid4()`s of the tracking number and the row, and `datetime.now(timezone.utc)`. -/
structure Draws where
  tracking : UUID
  id : UUID
  now : Datetime

def projectionWith (columns : Columns) : Projection Values Draws Shipment where
  read := readWith columns
  orderId := Values.orderId
  row values draws :=
    { id := draws.id, orderId := values.orderId, eventId := values.eventId
      customerId := values.customerId, item := values.item
      trackingNumber := trackingNumber draws.tracking, processedAt := draws.now }
  rowOrderId := Shipment.orderId
  rowOrderId_row _ _ := rfl
  read_orderId := readWith_orderId

def handleWith (columns : Columns) : Handler (Table Shipment) (Insert Values Shipment)
    (InsertAnswer Draws) TableEvent :=
  (projectionWith columns).handler

abbrev read : Json → Except Exc Values := readWith postgres

abbrev projection : Projection Values Draws Shipment := projectionWith postgres

abbrev handle : Handler (Table Shipment) (Insert Values Shipment) (InsertAnswer Draws) TableEvent :=
  handleWith postgres

end OutboxFanout.Shipping
