import OutboxFanout.Isolation
import OutboxFanout.Lib.Fanout
import OutboxFanout.Lib.Simulation
import OutboxFanout.Log
import OutboxFanout.Notifications.Suppression
import OutboxFanout.Shared.Writes

/-!
# What the system is for

Over queues, relays, redeliveries and crashes the system is a fan-out of
orders: an order is placed, announced, and taken by Billing and by Shipping
once, by Notifications perhaps again. `shows` says which steps are these;
`simulation` that every run of the system, seen through `shows`, is a run of
the fan-out, and that the tables hold what the fan-out holds.
-/

namespace OutboxFanout

deriving instance DecidableEq for Order

theorem Notifications.keyOf_buildMessage (h : row.payload = buildPayload order) :
    keyOf (buildMessage row) = .ok (notifyKey order.id.str) := by
  simp only [keyOf, Except.bind_eq_ok, Except.pure_eq_ok]
  refine ⟨_, buildMessage_payload, .str order.id.str, ?_, rfl⟩
  rw [h]
  exact buildPayload_orderId

namespace System

-- ---------------------------------------------------------------------------
-- The abstract system
-- ---------------------------------------------------------------------------

/-- A notification may be sent again. -/
def Service.Once : Service → Prop
  | .billing | .shipping => True
  | .notify => False

instance : DecidablePred Service.Once := fun k => by
  unfold Service.Once
  split <;> infer_instance

abbrev Ledger := Fanout Order.id Service.Once

-- ---------------------------------------------------------------------------
-- What a step shows
-- ---------------------------------------------------------------------------

def State.order? (s : State) (id : UUID) : Option Order := s.outbox.orders.find? (·.id = id)

/-- A write of a service's table, where `orderId` reads its rows. -/
def State.takes (s : State) (k : Service) (orderId : ρ → UUID) :
    TableWrite ρ → Option (Fanout.Event Order Service)
  | .add record => (s.order? (orderId record)).map (.take k)
  | .wipe => some (.wipe k)

def shows (s : State) : Action → Option (Fanout.Event Order Service)
  | .outbox (.commitOrder q) _ =>
    match s.outbox.requests q with
    | .flushed order _ => some (.place order)
    | _ => none
  | .outbox action _ =>
    (Outbox.accepted? s.outbox action).bind fun event => (s.order? event.orderId).map .announce
  | .billing action =>
    (Projection.writes? s.billing action).bind (s.takes .billing Billing.BillingRecord.orderId)
  | .shipping action =>
    (Projection.writes? s.shipping action).bind (s.takes .shipping Shipping.Shipment.orderId)
  | .notify action =>
    (Notifications.notifies? s.notify action).bind fun (event, _) =>
      ((readOrderId event).toOption.bind s.order?).map (.take .notify)

/-- The tables hold what the ledger holds, in the same order. -/
structure Matches (s : State) (ledger : Ledger) : Prop where
  orders : s.outbox.orders = ledger.placed
  log : s.outbox.log.map OutboxEvent.orderId = ledger.announced.map Order.id
  billing : s.billing.store.rows.map (fun record => (record.orderId, record.customerId, record.amount)) =
    (ledger.taken .billing).map bill
  shipping : s.shipping.store.rows.map (fun record => (record.orderId, record.customerId, record.item)) =
    (ledger.taken .shipping).map parcel
  notify : s.notify.store.sendLog =
    (ledger.taken .notify).map fun order => Notifications.notifyKey order.id.str

-- ---------------------------------------------------------------------------
-- Whatever is delivered was announced
-- ---------------------------------------------------------------------------

variable {config : Notifications.Config} {s s' : State} {ledger : Ledger} {outbox : Outbox.State}
  {billing : BillingSite} {shipping : ShippingSite} {notify : NotifySite}

/-- SNS accepted a publish with this body. -/
def Announces (s : Outbox.State) (body : String) : Prop := ∃ row ∈ s.log, Carries body row

theorem announces_log {outbox outbox' : Outbox.State} (hs : Outbox.Step outbox action outbox')
    (h : Announces outbox body) : Announces outbox' body := by
  obtain ⟨row, hmem, hcarries⟩ := h
  exact ⟨row, hs.log ▸ List.mem_append_left _ hmem, hcarries⟩

theorem announces_accepted {outbox outbox' : Outbox.State} (hs : Outbox.Step outbox action outbox')
    (hacc : Outbox.accepted? outbox action = some row) (hcarries : Carries body row) :
    Announces outbox' body :=
  ⟨row, hs.log ▸ List.mem_append_right _ (by simp [hacc]), hcarries⟩

def KeyOf (event : Json) (call : Notifications.Call) : Prop :=
  Notifications.keyOf event = .ok call.key

structure Traced (s : State) : Prop extends Projected s where
  toBilling : Billing.projection.Sourced (Announces s.outbox) s.billing
  toShipping : Shipping.projection.Sourced (Announces s.outbox) s.shipping
  toNotify : s.notify.From (Announces s.outbox) KeyOf

theorem Traced.empty : Traced (.empty limit) := ⟨.empty, .empty, .empty, .empty⟩

theorem toNotify_step (config : Notifications.Config) {Body : String → Prop}
    {site site' : NotifySite} (h : site.From Body KeyOf)
    (hs : SiteStep (Notifications.handle config) site action site')
    (hdeliver : ∀ body, action = .deliver body → Body body) : site'.From Body KeyOf := by
  refine h.step (fun _ _ hstart => (Notifications.start_claiming hstart).1)
    (fun _ _ _ _ _ _ hkey hcall => ?_) hs hdeliver
  have heq := (Notifications.step_cases hcall).key_eq
  unfold KeyOf
  rwa [heq]

theorem Traced.step (h : Traced s) (hs : Step config s action s') : Traced s' := by
  have hproj := h.toProjected.step hs
  cases hs with
  | outbox hs hacc =>
    exact ⟨hproj, h.toBilling.mono fun _ => announces_log hs, h.toShipping.mono fun _ => announces_log hs,
      h.toNotify.mono fun _ => announces_log hs⟩
  | publish hs hacc hcarry =>
    obtain ⟨hbilling, hshipping, hnotify⟩ := hcarry
    refine ⟨hproj, (h.toBilling.mono fun _ => announces_log hs).step .deliver ?_,
      (h.toShipping.mono fun _ => announces_log hs).step .deliver ?_,
      toNotify_step config (h.toNotify.mono fun _ => announces_log hs) .deliver ?_⟩
    · rintro _ ⟨⟩
      exact announces_accepted hs hacc hbilling
    · rintro _ ⟨⟩
      exact announces_accepted hs hacc hshipping
    · rintro _ ⟨⟩
      exact announces_accepted hs hacc hnotify
  | billing hs hown =>
    exact { h with
      toProjected := hproj
      toBilling := h.toBilling.step hs fun body heq => absurd heq (hown body) }
  | shipping hs hown =>
    exact { h with
      toProjected := hproj
      toShipping := h.toShipping.step hs fun body heq => absurd heq (hown body) }
  | notify hs hown =>
    exact { h with
      toProjected := hproj
      toNotify := toNotify_step config h.toNotify hs fun body heq => absurd heq (hown body) }

-- ---------------------------------------------------------------------------
-- What is taken was announced
-- ---------------------------------------------------------------------------

theorem order?_eq (h : Rows.Keyed Order.id s.outbox.orders) (horder : order ∈ s.outbox.orders) :
    s.order? order.id = some order := by
  obtain ⟨found, hfound⟩ : ∃ found, s.order? order.id = some found :=
    Option.isSome_iff_exists.mp (List.find?_isSome.mpr ⟨order, horder, by simp⟩)
  have hid : found.id = order.id := by simpa using List.find?_some hfound
  rw [hfound, h.eq_of_mem (List.mem_of_find?_eq_some hfound) horder hid]

theorem Traced.carried (h : Traced s) (hbody : Announces s.outbox body) :
    ∃ order ∈ s.outbox.orders, ∃ row ∈ s.outbox.log, order.id = row.orderId ∧
      row.payload = buildPayload order ∧ Carries body row := by
  obtain ⟨row, hrow, hcarries⟩ := hbody
  obtain ⟨order, horder, hid, hpayload⟩ := h.unit.accepted_order (Outbox.State.mem_log.mp hrow)
  exact ⟨order, horder, row, hrow, hid, hpayload, hcarries⟩

/-- An event that a consumer has read is the message of an accepted publish. -/
theorem Traced.origin (h : Traced s) (hbody : Announces s.outbox body) (hreads : ReadsAs body event) :
    ∃ order ∈ s.outbox.orders, ∃ row ∈ s.outbox.log, order.id = row.orderId ∧
      row.payload = buildPayload order ∧ event = buildMessage row := by
  obtain ⟨order, horder, row, hrow, hid, hpayload, hcarries⟩ := h.carried hbody
  exact ⟨order, horder, row, hrow, hid, hpayload, hreads.eq_buildMessage hcarries⟩

theorem Matches.announced (h : Matches s ledger)
    (hkeyed : Rows.Keyed Order.id s.outbox.orders) (horder : order ∈ s.outbox.orders)
    (hrow : row ∈ s.outbox.log) (hid : order.id = row.orderId) : order ∈ ledger.announced := by
  have hmem : order.id ∈ ledger.announced.map Order.id :=
    h.log ▸ hid ▸ List.mem_map_of_mem (f := OutboxEvent.orderId) hrow
  obtain ⟨found, hfound, heq⟩ := List.mem_map.mp hmem
  have hplaced := h.orders ▸ ledger.announced_placed found hfound
  exact hkeyed.eq_of_mem hplaced horder heq ▸ hfound

section
variable {ν δ ρ : Type} {p : Projection ν δ ρ} {site : Site (Table ρ) (Insert ν ρ)} {record : ρ}

/-- A row that is added is its order's first, and its order was announced. -/
theorem Traced.added (h : Traced s) (hsourced : p.Sourced (Announces s.outbox) site)
    (hexclusive : p.Exclusive site.store (site.holders p.inserted?))
    (hadd : Projection.writes? site action = some (.add record)) :
    ∃ order ∈ s.outbox.orders, ∃ row ∈ s.outbox.log, order.id = row.orderId ∧
      row.payload = buildPayload order ∧ p.Writes (buildMessage row) record ∧
      ¬p.Holds site.store (p.rowOrderId record) := by
  obtain ⟨c, delivery, event, rest, hpc⟩ := Projection.writes?_add hadd
  have hhandling := hsourced.messages.taken c
  rw [hpc] at hhandling
  obtain ⟨hbodies, hreads, hwrites⟩ := hhandling
  obtain ⟨order, horder, row, hrow, hid, hpayload, rfl⟩ :=
    h.origin (hbodies delivery List.mem_cons_self) hreads
  have hholder : site.holders p.inserted? c = some (p.rowOrderId record) := by
    simp [Site.holders, hpc, ConsumerPc.call?, Projection.inserted?]
  exact ⟨order, horder, row, hrow, hid, hpayload, hwrites,
    hexclusive.free _ (hexclusive.held c _ hholder)⟩

/-- What one service took; the rest of the ledger stays. -/
structure Takes (ledger ledger' : Ledger) (k : Service) : Prop where
  placed : ledger'.placed = ledger.placed
  announced : ledger'.announced = ledger.announced
  taken : ∀ k' ≠ k, ledger'.taken k' = ledger.taken k'

theorem Takes.refl (ledger : Ledger) (k : Service) : Takes ledger ledger k :=
  ⟨rfl, rfl, fun _ _ => rfl⟩

theorem takes_take (h : order ∈ ledger.announced)
    (honce : k.Once → order ∉ ledger.taken k) : Takes ledger (ledger.take k order h honce) k :=
  ⟨rfl, rfl, fun _ hne => Function.update_of_ne hne _ _⟩

theorem takes_wipe {ledger : Ledger} : Takes ledger (ledger.wipe k) k :=
  ⟨rfl, rfl, fun _ hne => Function.update_of_ne hne _ _⟩

abbrev fanout : Machine Ledger (Fanout.Event Order Service) := Fanout.machine Order.id Service.Once

/-- A service that keeps `ticket` of each order it has taken. -/
theorem Traced.service_step {entry : ρ → γ} {ticket : Order → γ} (h : Traced s)
    (hm : Matches s ledger) (hrows : site.store.rows.map entry = (ledger.taken k).map ticket)
    (hentry : ∀ record order, entry record = ticket order → p.rowOrderId record = order.id)
    (hagrees : ∀ order row record, order.id = row.orderId → row.payload = buildPayload order →
      order.Fits → p.Writes (buildMessage row) record → entry record = ticket order)
    (hsourced : p.Sourced (Announces s.outbox) site)
    (hexclusive : p.Exclusive site.store (site.holders p.inserted?))
    (hs : SiteStep p.handler site action site') : ∃ ledger',
      fanout.stutter ledger ((Projection.writes? site action).bind (s.takes k p.rowOrderId)) = some ledger' ∧
      Takes ledger ledger' k ∧ site'.store.rows.map entry = (ledger'.taken k).map ticket := by
  have hrows' := Projection.rows_step hs
  cases hwrites : Projection.writes? site action with
  | none => exact ⟨ledger, rfl, .refl ledger k, by rw [hrows', hwrites]; exact hrows⟩
  | some write =>
    cases write with
    | wipe =>
      refine ⟨ledger.wipe k, rfl, takes_wipe, ?_⟩
      simp [hrows', hwrites, TableWrite.apply, Fanout.wipe]
    | add record =>
      obtain ⟨order, horder, row, hrow, hid, hpayload, hwrites', hfree⟩ :=
        h.added hsourced hexclusive hwrites
      have heq := hagrees order row record hid hpayload (h.fits order horder) hwrites'
      have hkey := hentry record order heq
      have hannounced := hm.announced h.unit.keyedOrders horder hrow hid
      have hnew : k.Once → order ∉ ledger.taken k := by
        intro _ hmem
        obtain ⟨old, hold, hticket⟩ :=
          List.mem_map.mp (hrows ▸ List.mem_map_of_mem (f := ticket) hmem)
        exact hfree ⟨old, hold, (hentry old order hticket).trans hkey.symm⟩
      refine ⟨ledger.take k order hannounced hnew, ?_, takes_take hannounced hnew, ?_⟩
      · simp only [Option.bind_some, State.takes, hkey, order?_eq h.unit.keyedOrders horder]
        exact Fanout.step_take hannounced hnew
      · simp [hrows', hwrites, TableWrite.apply, Fanout.take, hrows, heq]

end

-- ---------------------------------------------------------------------------
-- Every step is a step of the fan-out, or none
-- ---------------------------------------------------------------------------

/-- The ledger follows the step. -/
def Followed (s : State) (action : Action) (s' : State) (ledger : Ledger) : Prop :=
  ∃ ledger', fanout.stutter ledger (shows s action) = some ledger' ∧ Matches s' ledger'

theorem shows_outbox (haction : ∀ q, action ≠ .commitOrder q) : shows s (.outbox action bodies) =
    (Outbox.accepted? s.outbox action).bind fun event => (s.order? event.orderId).map .announce := by
  cases action with
  | commitOrder q => exact absurd rfl (haction q)
  | _ => rfl

theorem Matches.place (h : Matches s ledger)
    (hs : Outbox.Step s.outbox (.commitOrder q) outbox) :
    Followed s (.outbox (.commitOrder q) bodies) { s with outbox } ledger := by
  have hlog := hs.log
  cases hs with
  | @commitOrder _ order row hq hfree =>
    have hnew : order.id ∉ ledger.placed.map Order.id := h.orders ▸ hfree.1
    refine ⟨ledger.place order hnew, ?_, ?_⟩
    · simp only [shows, hq]
      exact Fanout.step_place hnew
    · exact { h with orders := congrArg (· ++ [order]) h.orders }

theorem Matches.kept (h : Matches s ledger) (hs : Outbox.Step s.outbox action outbox)
    (hacc : Outbox.accepted? s.outbox action = none) :
    Followed s (.outbox action bodies) { s with outbox } ledger := by
  by_cases haction : ∃ q, action = .commitOrder q
  · obtain ⟨q, rfl⟩ := haction
    exact h.place hs
  · rw [not_exists] at haction
    have hlog := hs.log
    rw [hacc, Option.toList_none, List.append_nil] at hlog
    refine ⟨ledger, by rw [shows_outbox haction, hacc]; rfl, ?_⟩
    exact { h with
      orders := (hs.orders haction).trans h.orders
      log := by rw [hlog]; exact h.log }

theorem Matches.publish (h : Matches s ledger) (ht : Traced s)
    (hs : Outbox.Step s.outbox action outbox) (hacc : Outbox.accepted? s.outbox action = some event) :
    Followed s (.outbox action bodies) ({ s with outbox }.fanOut bodies) ledger := by
  have haction : ∀ q, action ≠ .commitOrder q := by
    rintro q rfl
    cases hacc
  obtain ⟨order, horder, hid, -⟩ := ht.unit.snapshot.payload (ht.unit.toInv.accepted hacc)
  have hlog := hs.log
  rw [hacc, Option.toList_some] at hlog
  refine ⟨ledger.announce order (h.orders ▸ horder), ?_, ?_⟩
  · rw [shows_outbox haction, hacc, Option.bind_some, ← hid, order?_eq ht.unit.keyedOrders horder]
    exact Fanout.step_announce (h.orders ▸ horder)
  · exact { h with
      orders := (hs.orders haction).trans h.orders
      log := by simp [State.fanOut, hlog, h.log, hid, Fanout.announce] }

theorem Matches.billed (h : Matches s ledger) (ht : Traced s)
    (hs : SiteStep Billing.handle s.billing action billing) :
    Followed s (.billing action) { s with billing } ledger := by
  obtain ⟨ledger', hstep, htakes, hrows⟩ := ht.service_step h h.billing
    (fun _ _ heq => congrArg Prod.fst heq)
    (fun _ _ _ hid hpayload hfits hwrites => (Billing.agrees hid hpayload hfits hwrites).2)
    ht.toBilling ht.billed hs
  exact ⟨ledger', hstep, {
    orders := htakes.placed ▸ h.orders
    log := htakes.announced ▸ h.log
    billing := hrows
    shipping := htakes.taken .shipping (by decide) ▸ h.shipping
    notify := htakes.taken .notify (by decide) ▸ h.notify }⟩

theorem Matches.shipped (h : Matches s ledger) (ht : Traced s)
    (hs : SiteStep Shipping.handle s.shipping action shipping) :
    Followed s (.shipping action) { s with shipping } ledger := by
  obtain ⟨ledger', hstep, htakes, hrows⟩ := ht.service_step h h.shipping
    (fun _ _ heq => congrArg Prod.fst heq)
    (fun _ _ _ hid hpayload hfits hwrites => (Shipping.agrees hid hpayload hfits hwrites).2)
    ht.toShipping ht.shipped hs
  exact ⟨ledger', hstep, {
    orders := htakes.placed ▸ h.orders
    log := htakes.announced ▸ h.log
    billing := htakes.taken .billing (by decide) ▸ h.billing
    shipping := hrows
    notify := htakes.taken .notify (by decide) ▸ h.notify }⟩

/-- A notification that is completed is of an order that was announced. -/
theorem Traced.notified (h : Traced s)
    (hnotifies : Notifications.notifies? s.notify action = some (event, key)) :
    ∃ order ∈ s.outbox.orders, ∃ row ∈ s.outbox.log, order.id = row.orderId ∧
      readOrderId event = .ok order.id ∧ key = Notifications.notifyKey order.id.str := by
  obtain ⟨c, delivery, claim, payload, rest, hpc⟩ := Notifications.notifies?_handling hnotifies
  have hhandling := h.toNotify.taken c
  rw [hpc] at hhandling
  obtain ⟨hbodies, hreads, hkey⟩ := hhandling
  obtain ⟨order, horder, row, hrow, hid, hpayload, rfl⟩ :=
    h.origin (hbodies delivery List.mem_cons_self) hreads
  refine ⟨order, horder, row, hrow, hid, readOrderId_buildMessage hpayload, ?_⟩
  rw [KeyOf, Notifications.keyOf_buildMessage hpayload] at hkey
  exact (Except.ok.inj hkey).symm

theorem Matches.notified (h : Matches s ledger) (ht : Traced s)
    (hs : SiteStep (Notifications.handle config) s.notify action notify) :
    Followed s (.notify action) { s with notify } ledger := by
  have hsends := Notifications.sendLog_siteStep hs
  cases hnotifies : Notifications.notifies? s.notify action with
  | none =>
    refine ⟨ledger, by simp [shows, hnotifies, Machine.stutter], ?_⟩
    rw [hnotifies, Option.map_none, Option.toList_none, List.append_nil] at hsends
    exact { h with notify := hsends.trans h.notify }
  | some notification =>
    obtain ⟨event, key⟩ := notification
    obtain ⟨order, horder, row, hrow, hid, hreads, rfl⟩ := ht.notified hnotifies
    have hannounced := h.announced ht.unit.keyedOrders horder hrow hid
    refine ⟨ledger.take .notify order hannounced (fun honce => honce.elim), ?_, ?_⟩
    · simp only [shows, hnotifies, hreads, Option.bind_some, Except.toOption,
        order?_eq ht.unit.keyedOrders horder]
      exact Fanout.step_take hannounced _
    · exact { h with
        billing := by simpa [Fanout.take] using h.billing
        shipping := by simpa [Fanout.take] using h.shipping
        notify := by simp [hsends, hnotifies, h.notify, Fanout.take] }

theorem Matches.step (h : Matches s ledger) (ht : Traced s) (hs : Step config s action s') :
    Followed s action s' ledger := by
  cases hs with
  | outbox hs hacc => exact h.kept hs hacc
  | publish hs hacc => exact h.publish ht hs hacc
  | billing hs => exact h.billed ht hs
  | shipping hs => exact h.shipped ht hs
  | notify hs => exact h.notified ht hs

def simulation (config : Notifications.Config) : (machine config).Simulation fanout where
  rel s ledger := Traced s ∧ Matches s ledger
  shows := shows
  step := by
    rintro s ledger action s' ⟨ht, hm⟩ hs
    have hs := step_cases hs
    obtain ⟨ledger', hstep, hm'⟩ := hm.step ht hs
    exact ⟨ledger', hstep, ht.step hs, hm'⟩

theorem traced_of_reaches (h : (machine config).Reaches C (.empty limit) s) : Traced s :=
  h.invariant .empty fun _ _ _ hi _ hs => hi.step (step_cases hs)

/-- Every run shows a run of the fan-out that ends with what the tables hold. -/
theorem fulfils_of_path (h : (machine config).Path (.empty limit) steps s) : ∃ ledger,
    fanout.exec Machine.anyStep .empty (Machine.shown shows steps) = some ledger ∧
      Matches s ledger := by
  have hempty : Matches (.empty limit) .empty := ⟨rfl, rfl, rfl, rfl, rfl⟩
  obtain ⟨ledger, hexec, -, hm⟩ := (simulation config).path h ⟨.empty, hempty⟩
  exact ⟨ledger, hexec, hm⟩

/-- One order is published and billed. -/
theorem reaches_billed (config : Notifications.Config) : ∃ s : State,
    (machine config).Reaches Lasting (.empty 5) s ∧ ∃ record ∈ s.billing.store.rows,
      record.orderId = ⟨1⟩ := by
  have hpayload : keyboardRow.payload =
    buildPayload (createOrder false ⟨1⟩ placedAt keyboardOrder).1 := rfl
  obtain ⟨outbox, -, -, hpublished⟩ := @reaches_published config
  obtain ⟨billing, hreach, hmem⟩ := reaches_inserted (p := Billing.projection)
    (Billing.read_ok hpayload createOrder_fits) (unwrap_keyboardBody (Nat.le_add_right 3 2))
    buildMessage_eventId ⟨⟨3⟩, placedAt⟩
  exact ⟨_, hpublished.trans (reaches_billing hreach), _, hmem, rfl⟩

theorem fulfils_keyboard : ∃ es ledger, fanout.exec Machine.anyStep .empty es = some ledger ∧
    ∃ order ∈ ledger.taken .billing, order.id = ⟨1⟩ := by
  obtain ⟨s, hreach, record, hmem, hid⟩ := reaches_billed ⟨60, false⟩
  obtain ⟨steps, hpath, -⟩ := hreach.exists_path
  obtain ⟨ledger, hexec, hm⟩ := fulfils_of_path hpath
  obtain ⟨order, horder, heq⟩ := List.mem_map.mp (hm.billing ▸ List.mem_map_of_mem hmem)
  exact ⟨_, ledger, hexec, order, horder, (congrArg Prod.fst heq).trans hid⟩

end System

end OutboxFanout
