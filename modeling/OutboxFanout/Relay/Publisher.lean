import OutboxFanout.Order.Models
import OutboxFanout.Shared.Messages

/-!
# The published message

`build_message`, and what a consumer finds in it.
-/

namespace OutboxFanout

def buildMessage (event : OutboxEvent) : Json := .obj [
  ("event_id", .str event.id.str),
  ("event_type", .str event.eventType),
  ("order_id", .str event.orderId.str),
  ("occurred_at", .str event.createdAt.isoformat),
  ("payload", event.payload)]

theorem buildMessage_type : (buildMessage event).member? "Type" = none := rfl

theorem buildMessage_eventId :
    getItem (buildMessage event) "event_id" = .ok (.str event.id.str) := rfl

theorem buildMessage_payload : getItem (buildMessage event) "payload" = .ok event.payload := rfl

/-- The relay's bookkeeping does not show in the message. -/
theorem buildMessage_congr {row event : OutboxEvent} (h : row.facts = event.facts) :
    buildMessage row = buildMessage event := by
  simp only [OutboxEvent.facts, Prod.mk.injEq] at h
  obtain ⟨hid, horder, htype, hpayload, hcreated⟩ := h
  simp only [buildMessage, hid, horder, htype, hpayload, hcreated]

theorem buildPayload_orderId :
    getItem (buildPayload order) "order_id" = .ok (.str order.id.str) := rfl

theorem buildPayload_customerId :
    getItem (buildPayload order) "customer_id" = .ok (.str order.customerId) := rfl

theorem buildPayload_item : getItem (buildPayload order) "item" = .ok (.str order.item) := rfl

theorem buildPayload_amount :
    getItem (buildPayload order) "amount" = .ok (.str order.amount.str) := rfl

/-- The bodies SNS may hand a queue for one publish of the row. -/
def Carries (body : String) (event : OutboxEvent) : Prop :=
  Delivers body (Json.dumps (buildMessage event))

instance : Decidable (Carries body event) := by unfold Carries; infer_instance

theorem Carries.unwrap_eq (h : Carries body event) (hread : unwrap depth body = .ok message) :
    message = buildMessage event :=
  Delivers.unwrap_eq h buildMessage_type hread

/-- `publish` forgets the cached ARN on a `ClientError` of this kind. -/
def saysNotFound (exc : Exc) : Bool :=
  match exc.errorCode with
  | some code => "NotFound".toList <:+: code.toList
  | none => false

/-- What a queue receives for `keyboardRow`. -/
def keyboardBody : String :=
  Json.dumps (notification "22b80b92-fdea-4c2c-8f9d-bdfb0c7bf324"
    "arn:aws:sns:us-east-1:000000000000:order-events" (Json.dumps (buildMessage keyboardRow))
    "2026-08-25T11:29:02.331Z" keyboardRow.eventType)

theorem keyboardBody_carries : Carries keyboardBody keyboardRow := delivers_notification

theorem keyboardBody_nests (h : 3 ≤ depth) : Nests depth keyboardBody :=
  nests_dumps (notification_depth.trans_le h)

theorem unwrap_keyboardBody (h : 3 ≤ depth) :
    unwrap depth keyboardBody = .ok (buildMessage keyboardRow) :=
  keyboardBody_carries.unwrap_ok (keyboardBody_nests h) (Nat.le_of_succ_le h) buildMessage_type

end OutboxFanout
