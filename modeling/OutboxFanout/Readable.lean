import OutboxFanout.Fulfilment
import OutboxFanout.Shared.Completion

/-!
# Nothing on the queues is poison

A body that carries a row is read back, wrapped or raw, by any interpreter that
nests as deep as the body: three containers for SNS's envelope with its
attributes. And what the request schema lets through fits the columns of Billing
and Shipping. So every delivery, to any of the three, starts the handler with
what the order says.
-/

namespace OutboxFanout

-- ---------------------------------------------------------------------------
-- A body that carries a row is read
-- ---------------------------------------------------------------------------

theorem buildMessage_depth (h : row.payload = buildPayload order) : (buildMessage row).depth = 2 := by
  rw [buildMessage, h]
  rfl

theorem Carries.parseBody_ok (h : Carries body row) (hpayload : row.payload = buildPayload order)
    (hdepth : 2 ≤ depth) (hnests : Nests depth body) :
    parseBody depth body = .ok (buildMessage row) := by
  have hunwrap : unwrap depth body = .ok (buildMessage row) :=
    h.unwrap_ok hnests ((buildMessage_depth hpayload).trans_le hdepth) buildMessage_type
  exact Except.bind_eq_ok.mpr ⟨_, hunwrap, Except.bind_eq_ok.mpr ⟨_, buildMessage_eventId, rfl⟩⟩

-- ---------------------------------------------------------------------------
-- Every handler starts
-- ---------------------------------------------------------------------------

theorem Notifications.start_of_payload (h : row.payload = buildPayload order) :
    start (buildMessage row) =
      .ok (.claiming (notifyKey order.id.str) row.id.str (buildPayload order)) := by
  simp only [start, Except.bind_eq_ok, Except.pure_eq_ok]
  exact ⟨_, keyOf_buildMessage h, _, h ▸ buildMessage_payload, _, buildMessage_eventId, _, rfl, rfl⟩

section
variable {σ η α ε : Type} {site : Site σ η}

/-- A body on the queue, dead or in a consumer's hands. -/
def Site.Bears (site : Site σ η) (body : String) : Prop :=
  (∃ x ∈ site.queue.contents, x.2 = body) ∨ ∃ c, ∃ d ∈ (site.consumers c).pc.inHand, d.body = body

theorem Site.From.bears {Body : String → Prop} {During : Json → η → Prop}
    (h : site.From Body During) (hbears : site.Bears body) : Body body := by
  rcases hbears with ⟨x, hx, rfl⟩ | ⟨c, d, hd, rfl⟩
  · exact h.queued x hx
  · have hfrom := h.taken c
    cases hpc : (site.consumers c).pc with
    | down | polling =>
      rw [hpc] at hd
      cases hd
    | batch | deleting =>
      rw [hpc] at hd hfrom
      exact hfrom d hd
    | handling =>
      rw [hpc] at hd hfrom
      exact hfrom.1 d hd

end

namespace System

variable {config : Notifications.Config} {s s' : State}

/-- Each handler, called on a delivery of the body, starts with what the order says. -/
structure Reads (depth : Nat) (order : Order) (row : OutboxEvent) (d : Delivery String)
    (rest : List (Delivery String)) : Prop where
  billing : Billing.handle.open_ depth d rest = .handling d (buildMessage row)
    (.ready ⟨order.id, row.id, order.customerId, .finite order.loaded.amount⟩) rest
  shipping : Shipping.handle.open_ depth d rest = .handling d (buildMessage row)
    (.ready ⟨order.id, row.id, order.customerId, order.item⟩) rest
  notify : ∀ config, (Notifications.handle config).open_ depth d rest = .handling d (buildMessage row)
    (.claiming (Notifications.notifyKey order.id.str) row.id.str (buildPayload order)) rest
  sendable : Notifications.sendable (buildPayload order) = .ok ()

theorem reads_of_carries (hcarries : Carries d.body row) (hpayload : row.payload = buildPayload order)
    (hfits : order.Fits) (hdepth : 2 ≤ depth) (hnests : Nests depth d.body) :
    Reads depth order row d rest := by
  have hparse := hcarries.parseBody_ok hpayload hdepth hnests
  refine ⟨?_, ?_, fun config => ?_, rfl⟩
  · exact Handler.open_starts hparse (Projection.start_of_read (Billing.read_ok hpayload hfits))
  · exact Handler.open_starts hparse (Projection.start_of_read (Shipping.read_ok hpayload hfits))
  · exact Handler.open_starts hparse (Notifications.start_of_payload hpayload)

/-- No body on any queue, dead letter queue or in any consumer's hands is poison. -/
theorem reads_of_bears (h : (machine config).Reaches C (.empty limit) s) (hdepth : 2 ≤ depth)
    (hnests : Nests depth d.body)
    (hbears : s.billing.Bears d.body ∨ s.shipping.Bears d.body ∨ s.notify.Bears d.body) :
    ∃ order ∈ s.outbox.orders, ∃ row ∈ s.outbox.log, row.orderId = order.id ∧
      ∀ rest, Reads depth order row d rest := by
  have htraced := traced_of_reaches h
  have hannounced : Announces s.outbox d.body := by
    rcases hbears with hbears | hbears | hbears
    · exact htraced.toBilling.messages.bears hbears
    · exact htraced.toShipping.messages.bears hbears
    · exact htraced.toNotify.bears hbears
  obtain ⟨order, horder, row, hrow, hid, hpayload, hcarries⟩ := htraced.carried hannounced
  exact ⟨order, horder, row, hrow, hid.symm, fun _ =>
    reads_of_carries hcarries hpayload (htraced.fits order horder) hdepth hnests⟩

theorem reads_keyboard : ∃ s : State, ∃ order ∈ s.outbox.orders, ∃ row ∈ s.outbox.log,
    row.orderId = order.id ∧ ∀ rest, Reads 3 order row ⟨0, 1, keyboardBody⟩ rest := by
  obtain ⟨outbox, -, -, hreach⟩ := @reaches_published ⟨60, false⟩
  exact ⟨_, reads_of_bears hreach (by decide) (keyboardBody_nests le_rfl)
    (.inl (.inl ⟨(0, keyboardBody), List.mem_cons_self, rfl⟩))⟩

end System

end OutboxFanout
