import OutboxFanout.DecimalRoundTrip
import OutboxFanout.Delivery
import OutboxFanout.Relay.Consistency
import OutboxFanout.Shared.Provenance
import OutboxFanout.Shared.Uniqueness

/-!
# The projections are faithful

Every body on a queue carries a row of the outbox, every row of the outbox a
snapshot of an order. So what Billing and Shipping store of an order, once at
most and for good, is what the order says.
-/

namespace OutboxFanout

/-- What `handle` of Billing has stored is what the order and its row say. -/
structure Billing.BillingRecord.Agrees (record : BillingRecord) (order : Order) (row : OutboxEvent) :
    Prop where
  orderId : record.orderId = order.id
  rowOrderId : record.orderId = row.orderId
  eventId : record.eventId = row.id
  customerId : record.customerId = order.customerId
  amount : ∃ amount, record.amount = .finite amount ∧ amount.value = order.amount.value
  payload : row.payload = buildPayload order

structure Shipping.Shipment.Agrees (record : Shipment) (order : Order) (row : OutboxEvent) : Prop where
  orderId : record.orderId = order.id
  rowOrderId : record.orderId = row.orderId
  eventId : record.eventId = row.id
  customerId : record.customerId = order.customerId
  item : record.item = order.item
  payload : row.payload = buildPayload order

-- ---------------------------------------------------------------------------
-- Reading a message back
-- ---------------------------------------------------------------------------

theorem varchar_ok (h : text.length ≤ n) : varchar n (.str text) = .ok text := if_pos h

theorem numeric_ok {order : Order} (h : order.Fits) :
    numeric 12 2 (.finite order.amount) = .ok (.finite order.loaded.amount) := by
  obtain ⟨cents, hlt, hcents⟩ := h.amount
  exact if_pos (Decimal.toScale_coefficient hcents ▸ hlt)

theorem Billing.read_ok (hpayload : row.payload = buildPayload order) (hfits : order.Fits) :
    read (buildMessage row) =
      .ok ⟨order.id, row.id, order.customerId, .finite order.loaded.amount⟩ := by
  simp only [readWith, Except.bind_eq_ok, Except.pure_eq_ok]
  refine ⟨_, readOrderId_buildMessage hpayload, _, buildMessage_payload, _, buildMessage_eventId, _,
    UUID.new_str row.id, ?_⟩
  rw [hpayload]
  exact ⟨_, buildPayload_customerId, _, buildPayload_amount, _, Decimal.new_str order.amount, _,
    varchar_ok hfits.customerId, _, numeric_ok hfits, rfl⟩

theorem Shipping.read_ok (hpayload : row.payload = buildPayload order) (hfits : order.Fits) :
    read (buildMessage row) = .ok ⟨order.id, row.id, order.customerId, order.item⟩ := by
  simp only [readWith, Except.bind_eq_ok, Except.pure_eq_ok]
  refine ⟨_, readOrderId_buildMessage hpayload, _, buildMessage_payload, _, buildMessage_eventId, _,
    UUID.new_str row.id, ?_⟩
  rw [hpayload]
  exact ⟨_, buildPayload_customerId, _, buildPayload_item, _, varchar_ok hfits.customerId, _,
    varchar_ok hfits.item, rfl⟩

-- ---------------------------------------------------------------------------
-- Bodies that carry a row
-- ---------------------------------------------------------------------------

/-- The body is a message of a row of the outbox. -/
def Outbox.State.Sends (s : Outbox.State) (body : String) : Prop := ∃ row ∈ s.outbox, Carries body row

theorem Outbox.Step.sends {s s' : Outbox.State} (hs : Outbox.Step s action s') (hi : Outbox.Inv s)
    (h : s.Sends body) : s'.Sends body := by
  obtain ⟨row, hmem, hcarries⟩ := h
  obtain ⟨row', hmem', hrow⟩ := hs.exists_rowWrite hi.keyed hmem
  exact ⟨row', hmem', hcarries.congr hrow.facts.symm⟩

section
variable {ν δ ρ : Type} {p : Projection ν δ ρ} {site : Site (Table ρ) (Insert ν ρ)} {record : ρ}
  {outbox : Outbox.State}

/-- Where a row of the table comes from: an order, and its row in the outbox. -/
theorem Projection.Sourced.writes (h : p.Sourced outbox.Sends site) (hsnapshot : outbox.Snapshot)
    (hmem : record ∈ site.store.rows) : ∃ order ∈ outbox.orders, ∃ row ∈ outbox.outbox,
      order.id = row.orderId ∧ row.payload = buildPayload order ∧ p.Writes (buildMessage row) record := by
  obtain ⟨body, event, ⟨row, hrow, hcarries⟩, hreads, hwrites⟩ := h.rows record hmem
  obtain ⟨order, horder, hid, hpayload⟩ := hsnapshot.payload hrow
  obtain rfl := hreads.eq_buildMessage hcarries
  exact ⟨order, horder, row, hrow, hid, hpayload, hwrites⟩

end

/-- What Billing stores of an order, and what Shipping does. -/
def bill (order : Order) : UUID × String × DecimalValue :=
  (order.id, order.customerId, .finite order.loaded.amount)

def parcel (order : Order) : UUID × String × String := (order.id, order.customerId, order.item)

theorem Billing.agrees (hid : order.id = row.orderId) (hpayload : row.payload = buildPayload order)
    (hfits : order.Fits) (h : projection.Writes (buildMessage row) record) :
    BillingRecord.Agrees record order row ∧
      (record.orderId, record.customerId, record.amount) = bill order := by
  obtain ⟨values, draws, hread, rfl⟩ := h
  obtain rfl := Except.ok.inj ((read_ok hpayload hfits).symm.trans hread)
  exact ⟨⟨rfl, hid, rfl, rfl, ⟨_, rfl, hfits.loaded_value⟩, hpayload⟩, rfl⟩

theorem Shipping.agrees (hid : order.id = row.orderId) (hpayload : row.payload = buildPayload order)
    (hfits : order.Fits) (h : projection.Writes (buildMessage row) record) :
    Shipment.Agrees record order row ∧
      (record.orderId, record.customerId, record.item) = parcel order := by
  obtain ⟨values, draws, hread, rfl⟩ := h
  obtain rfl := Except.ok.inj ((read_ok hpayload hfits).symm.trans hread)
  exact ⟨⟨rfl, hid, rfl, rfl, rfl, hpayload⟩, rfl⟩

-- ---------------------------------------------------------------------------
-- The system
-- ---------------------------------------------------------------------------

namespace System

variable {config : Notifications.Config} {s s' t : State}

structure Projected (s : State) : Prop where
  unit : Outbox.OneUnit s.outbox
  fits : ∀ order ∈ s.outbox.orders, order.Fits
  billing : Billing.projection.Sourced s.outbox.Sends s.billing
  shipping : Shipping.projection.Sourced s.outbox.Sends s.shipping
  billed : Billing.projection.Exclusive s.billing.store (s.billing.holders Billing.projection.inserted?)
  shipped : Shipping.projection.Exclusive s.shipping.store
    (s.shipping.holders Shipping.projection.inserted?)

theorem Projected.empty : Projected (.empty limit) where
  unit := .empty
  fits := nofun
  billing := .empty
  shipping := .empty
  billed := .empty
  shipped := .empty

theorem Projected.step (h : Projected s) (hs : Step config s action s') : Projected s' := by
  cases hs with
  | @outbox action outbox bodies hs hacc =>
    have hsends : ∀ body, s.outbox.Sends body → outbox.Sends body := fun _ =>
      hs.sends h.unit.toInv
    exact { h with
      unit := Outbox.OneUnit.step h.unit hs
      fits := Outbox.fits_step h.fits h.unit.requests hs
      billing := h.billing.mono hsends
      shipping := h.shipping.mono hsends }
  | @publish action outbox event bodies hs hacc hcarry =>
    obtain ⟨hbilling, hshipping, -⟩ := hcarry
    have hsends : ∀ body, s.outbox.Sends body → outbox.Sends body := fun _ =>
      hs.sends h.unit.toInv
    have hmem := h.unit.toInv.accepted hacc
    have hdeliver : ∀ body, Carries body event → outbox.Sends body := fun body hcarries =>
      hsends body ⟨event, hmem, hcarries⟩
    refine ⟨Outbox.OneUnit.step h.unit hs, Outbox.fits_step h.fits h.unit.requests hs, ?_, ?_,
      h.billed, h.shipped⟩
    · refine (h.billing.mono hsends).step .deliver fun body heq => ?_
      cases heq
      exact hdeliver _ hbilling
    · refine (h.shipping.mono hsends).step .deliver fun body heq => ?_
      cases heq
      exact hdeliver _ hshipping
  | billing hs hown =>
    exact { h with
      billing := h.billing.step hs fun body heq => absurd heq (hown body)
      billed := h.billed.step hs }
  | shipping hs hown =>
    exact { h with
      shipping := h.shipping.step hs fun body heq => absurd heq (hown body)
      shipped := h.shipped.step hs }
  | notify => exact { h with }

theorem projected_of_reaches (h : (machine config).Reaches C (.empty limit) s) : Projected s :=
  h.invariant .empty fun _ _ _ hi _ hs => hi.step (step_cases hs)

/-- Nothing that is stored goes away or changes. -/
structure Keeps (t s : State) : Prop where
  billing : Projection.Grows t.billing.store s.billing.store
  shipping : Projection.Grows t.shipping.store s.shipping.store

theorem Step.keeps (hs : Step config s action s') (hc : Lasting s action) : Keeps s s' := by
  cases hs with
  | outbox | publish | notify => exact ⟨fun _ h => h, fun _ h => h⟩
  | billing hs =>
    refine ⟨hs.store_le Billing.projection.settles ?_, fun _ h => h⟩
    rintro _ _ rfl
    exact hc.elim
  | shipping hs =>
    refine ⟨fun _ h => h, hs.store_le Shipping.projection.settles ?_⟩
    rintro _ _ rfl
    exact hc.elim

theorem keeps_of_reaches (h : (machine config).Reaches Lasting t s) : Keeps t s := by
  induction h with
  | refl => exact ⟨fun _ h => h, fun _ h => h⟩
  | next action _ hc hs ih =>
    have hstep := (step_cases hs).keeps hc
    exact ⟨fun record h => hstep.billing record (ih.billing record h),
      fun record h => hstep.shipping record (ih.shipping record h)⟩

/-- One row an order at most, for good, and what the order says. -/
theorem projections_faithful (h : (machine config).Reaches Lasting (.empty limit) t)
    (h' : (machine config).Reaches Lasting t s) :
    Keeps t s ∧
    Rows.Keyed Billing.BillingRecord.orderId s.billing.store.rows ∧
    Rows.Keyed Shipping.Shipment.orderId s.shipping.store.rows ∧
    (∀ record ∈ s.billing.store.rows, ∃ order ∈ s.outbox.orders, ∃ row ∈ s.outbox.outbox,
      record.Agrees order row) ∧
    ∀ record ∈ s.shipping.store.rows, ∃ order ∈ s.outbox.orders, ∃ row ∈ s.outbox.outbox,
      record.Agrees order row := by
  have hproj := projected_of_reaches (h.trans h')
  refine ⟨keeps_of_reaches h', hproj.billed.keyed, hproj.shipped.keyed, fun record hmem => ?_,
    fun record hmem => ?_⟩
  · obtain ⟨order, horder, row, hrow, hid, hpayload, hwrites⟩ :=
      hproj.billing.writes hproj.unit.snapshot hmem
    exact ⟨order, horder, row, hrow, (Billing.agrees hid hpayload (hproj.fits order horder) hwrites).1⟩
  · obtain ⟨order, horder, row, hrow, hid, hpayload, hwrites⟩ :=
      hproj.shipping.writes hproj.unit.snapshot hmem
    exact ⟨order, horder, row, hrow, (Shipping.agrees hid hpayload (hproj.fits order horder) hwrites).1⟩

-- ---------------------------------------------------------------------------
-- One order, billed and shipped
-- ---------------------------------------------------------------------------

/-- A step of a site whose queue SNS fills and whose store no operator touches. -/
def Own (_ : Site σ η) (action : SiteAction α ε) : Prop :=
  (∀ body, action ≠ .deliver body) ∧ ∀ event, action ≠ .env event

theorem ownStep_of_own {handler : Handler σ η α ε} {site : Site σ η} (hown : Own site action) :
    ownStep handler site action = site.step handler action := by
  cases action with
  | deliver body => exact absurd rfl (hown.1 body)
  | _ => rfl

theorem own_consumer {site : Site σ η} {action : ConsumerAction α} :
    Own site (.consumer c action : SiteAction α ε) := ⟨nofun, nofun⟩

theorem reaches_billing {billing : BillingSite}
    (h : (Site.machine Billing.handle).Reaches Own s.billing billing) :
    (machine config).Reaches Lasting s { s with billing } := by
  refine h.project (fun billing => { s with billing }) fun site action site' hown hs => .inr ?_
  refine ⟨.billing action, ?_, ?_⟩
  · cases action with
    | env event => exact absurd rfl (hown.2 event)
    | _ => trivial
  · simp only [machine, step, ownStep_of_own hown]
    exact Option.map_eq_some_iff.mpr ⟨site', hs, rfl⟩

theorem reaches_shipping {shipping : ShippingSite}
    (h : (Site.machine Shipping.handle).Reaches Own s.shipping shipping) :
    (machine config).Reaches Lasting s { s with shipping } := by
  refine h.project (fun shipping => { s with shipping }) fun site action site' hown hs => .inr ?_
  refine ⟨.shipping action, ?_, ?_⟩
  · cases action with
    | env event => exact absurd rfl (hown.2 event)
    | _ => trivial
  · simp only [machine, step, ownStep_of_own hown]
    exact Option.map_eq_some_iff.mpr ⟨site', hs, rfl⟩

section
variable {ν δ ρ : Type} {p : Projection ν δ ρ}

/-- One consumer, on one queue. -/
def solo (queue : Queue String) (table : Table ρ) (tried : List Nat) (pc : ConsumerPc (Insert ν ρ)) :
    Site (Table ρ) (Insert ν ρ) where
  queue := queue
  store := table
  tried := tried
  consumers := Function.update (Site.empty 5 table).consumers 0 ⟨⟨10, 5⟩, pc, false⟩

def mailbox (body : String) : Queue String := (Queue.empty 5).send body

theorem solo_pc {pc : ConsumerPc (Insert ν ρ)} :
    ((solo queue table tried pc).consumers 0).pc = pc := by
  simp [solo]

theorem solo_step {pc pc' : ConsumerPc (Insert ν ρ)} {table table' : Table ρ}
    (h : (solo queue table tried pc).step p.handler action =
      some ({ solo queue table tried pc with queue := queue', store := table', tried := tried' }.goto 0 pc')) :
    (Site.machine p.handler).step (solo queue table tried pc) action =
      some (solo queue' table' tried' pc') := by
  refine h.trans ?_
  simp [solo, Site.goto, Site.put, Site.empty]

/-- A delivery is handled, up to the commit. -/
theorem reaches_inserted (hread : p.read event = .ok values) (hbody : unwrap 5 body = .ok event)
    (hid : getItem event "event_id" = .ok eventId) (draws : δ) :
    ∃ site, (Site.machine p.handler).Reaches Own
        { Site.empty 5 .empty with queue := mailbox body } site ∧
      p.row values draws ∈ site.store.rows := by
  have hopen : p.handler.open_ 5 ⟨0, 1, body⟩ [] = .handling ⟨0, 1, body⟩ event (.ready values) [] := by
    have hparse : parseBody 5 body = .ok event :=
      Except.bind_eq_ok.mpr ⟨_, hbody, Except.bind_eq_ok.mpr ⟨_, hid, rfl⟩⟩
    have hstart : p.handler.start event = .ok (.ready values) := by
      simp [Projection.handler, hread, Except.map]
    simp only [Handler.open_, hparse, hstart]
  let taken := (mailbox body).move [0] .inFlight 1
  let start : Site (Table ρ) (Insert ν ρ) := { Site.empty 5 .empty with queue := mailbox body }
  have hpolling : (Site.machine p.handler).Reaches Own start (solo (mailbox body) .empty [] .polling) :=
    .next (.consumer 0 (.start ⟨10, 5⟩)) .refl own_consumer rfl
  have htaken : (Site.machine p.handler).Reaches Own start
      (solo taken .empty [] (.batch [⟨0, 1, body⟩])) :=
    .next (.consumer 0 (.receive [0] true)) hpolling own_consumer (solo_step rfl)
  have hready : (Site.machine p.handler).Reaches Own start
      (solo taken .empty [0] (.handling ⟨0, 1, body⟩ event (.ready values) [])) :=
    .next (.consumer 0 .next) htaken own_consumer
      (solo_step (Site.step_next _ solo_pc (by simp [solo]) (by simpa [solo] using hopen)))
  have hinserted : (Site.machine p.handler).Reaches Own start (solo taken ⟨[], [p.orderId values]⟩ [0]
      (.handling ⟨0, 1, body⟩ event (.inserted (p.row values draws)) [])) := by
    have hexecute : p.handler.step .empty (.ready values) (.execute draws) =
        some (⟨[], [p.orderId values]⟩, .continues (.inserted (p.row values draws))) := by
      simp [Projection.handler, Projection.step, Projection.Holds, Table.empty]
    exact .next (.consumer 0 (.handle (.execute draws))) hready own_consumer
      (solo_step (Site.step_handle _ solo_pc hexecute))
  have hcommit : p.handler.step ⟨[], [p.orderId values]⟩ (.inserted (p.row values draws)) (.commit .done) =
      some (p.commit ⟨[], [p.orderId values]⟩ (p.row values draws), .returned) := rfl
  exact ⟨_, .next (.consumer 0 (.handle (.commit .done))) hinserted own_consumer
    (solo_step (Site.step_handle _ solo_pc hcommit)), List.mem_singleton_self _⟩

end

theorem projections_faithful_keyboard : ∃ s : State,
    (∃ record ∈ s.billing.store.rows, ∃ order ∈ s.outbox.orders, ∃ row ∈ s.outbox.outbox,
      record.Agrees order row) ∧
    ∃ record ∈ s.shipping.store.rows, ∃ order ∈ s.outbox.orders, ∃ row ∈ s.outbox.outbox,
      record.Agrees order row := by
  have hpayload : keyboardRow.payload =
    buildPayload (createOrder false ⟨1⟩ placedAt keyboardOrder).1 := rfl
  have hbody := unwrap_keyboardBody (Nat.le_add_right 3 2)
  obtain ⟨outbox, -, -, hpublished⟩ := @reaches_published ⟨60, false⟩
  obtain ⟨billing, hbilled, hbilling⟩ := reaches_inserted (p := Billing.projection)
    (Billing.read_ok hpayload createOrder_fits) hbody buildMessage_eventId ⟨⟨3⟩, placedAt⟩
  obtain ⟨shipping, hshipped, hshipping⟩ := reaches_inserted (p := Shipping.projection)
    (Shipping.read_ok hpayload createOrder_fits) hbody buildMessage_eventId ⟨⟨4⟩, ⟨5⟩, placedAt⟩
  have hs := (hpublished.trans (reaches_billing hbilled)).trans (reaches_shipping hshipped)
  obtain ⟨-, -, -, hbilling', hshipping'⟩ := projections_faithful .refl hs
  exact ⟨_, ⟨_, hbilling, hbilling' _ hbilling⟩, _, hshipping, hshipping' _ hshipping⟩

end System

end OutboxFanout
