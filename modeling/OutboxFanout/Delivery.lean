import OutboxFanout.Order.Atomic
import OutboxFanout.System

/-!
# No event is lost on the way to Billing or Shipping

A relay publishes before it marks, a consumer handles before it deletes. So a
row that is published, or whose publish a relay has just seen accepted, has a
message that is on the queue (or its dead letter queue) or is done
(`Follows`), in whatever order requests, relays, consumers and crashes
interleave.
-/

namespace OutboxFanout

-- ---------------------------------------------------------------------------
-- A message of the row has reached the consumer
-- ---------------------------------------------------------------------------

theorem readOrderId_buildMessage (h : row.payload = buildPayload order) :
    readOrderId (buildMessage row) = .ok order.id := by
  refine Except.bind_eq_ok.mpr ⟨_, buildMessage_payload, ?_⟩
  rw [h]
  exact Except.bind_eq_ok.mpr ⟨_, buildPayload_orderId, UUID.new_str order.id⟩

theorem ReadsAs.eq_buildMessage (h : ReadsAs body event) (hcarries : Carries body row) :
    event = buildMessage row := by
  obtain ⟨depth, hparse⟩ := h
  simp only [parseBody, Except.bind_eq_ok, Except.pure_eq_ok] at hparse
  obtain ⟨_, hunwrap, _, _, rfl⟩ := hparse
  exact hcarries.unwrap_eq hunwrap

theorem Carries.congr {row event : OutboxEvent} (h : Carries body row)
    (hfacts : row.facts = event.facts) : Carries body event := by
  unfold Carries
  rwa [← buildMessage_congr hfacts]

section
variable {ν δ ρ : Type} {p : Projection ν δ ρ} {site site' : Site (Table ρ) (Insert ν ρ)}
  {outbox outbox' : Outbox.State}

/-- A message of the row is on the queue or its dead letter queue, or is done. -/
def Reached (p : Projection ν δ ρ) (site : Site (Table ρ) (Insert ν ρ)) (row : OutboxEvent) : Prop :=
  ∃ x, Carries x.2 row ∧ site.Kept p.Done x

theorem Reached.congr {row event : OutboxEvent} (h : Reached p site row)
    (hfacts : row.facts = event.facts) : Reached p site event := by
  obtain ⟨x, hcarries, hkept⟩ := h
  exact ⟨x, hcarries.congr hfacts, hkept⟩

theorem Reached.mono (h : Reached p site row)
    (hkept : ∀ x, site.Kept p.Done x → site'.Kept p.Done x) : Reached p site' row := by
  obtain ⟨x, hcarries, hx⟩ := h
  exact ⟨x, hcarries, hkept x hx⟩

theorem Reached.message_or_holds (h : Reached p site row)
    (hpayload : row.payload = buildPayload order) :
    (∃ x ∈ site.queue.contents, Carries x.2 row) ∨ p.Holds site.store order.id := by
  obtain ⟨x, hcarries, hx | ⟨event, hreads, values, hread, hholds⟩⟩ := h
  · exact .inl ⟨x, hx, hcarries⟩
  · obtain rfl := hreads.eq_buildMessage hcarries
    have horder := p.read_orderId hread
    rw [readOrderId_buildMessage hpayload] at horder
    exact .inr (Except.ok.inj horder ▸ hholds)

/-- What the outbox takes for delivered has reached the site. -/
structure Follows (p : Projection ν δ ρ) (outbox : Outbox.State)
    (site : Site (Table ρ) (Insert ν ρ)) : Prop where
  ok : site.Ok p.During p.Done
  published : ∀ row ∈ outbox.outbox, row.published = true → Reached p site row
  accepted : ∀ r event ids, (outbox.relays r).pc = .accepted event ids → Reached p site event

theorem Follows.empty : Follows p .empty (.empty limit .empty) :=
  ⟨Site.empty_ok, nofun, fun _ _ _ hpc => by simp [Outbox.State.empty, Outbox.State.holding] at hpc⟩

theorem Follows.siteStep (h : Follows p outbox site) (hs : SiteStep p.handler site action site')
    (haction : ∀ event, action ≠ .env event) : Follows p outbox site' := by
  have henv : ∀ event store, action = .env event → p.handler.env site.store event = some store →
      Projection.Grows site.store store := fun event _ heq => absurd heq (haction event)
  have hkept := fun x => h.ok.kept (x := x) p.settles hs henv
  exact ⟨h.ok.step p.settles hs henv, fun row hmem hpub => (h.published row hmem hpub).mono hkept,
    fun r event ids hpc => (h.accepted r event ids hpc).mono hkept⟩

theorem Follows.deliver (h : Follows p outbox site) (body : String) :
    Follows p outbox { site with queue := site.queue.send body } :=
  h.siteStep .deliver nofun

theorem reached_send (h : Carries body row) :
    Reached p { site with queue := site.queue.send body } row :=
  ⟨(site.queue.nextId, body), h, .inl (by simp [Queue.contents_send])⟩

/-- The row is still to be published, or a message of it is in the queue or its
dead letter queue, or the table holds a row for its order. -/
def OnTheWay (p : Projection ν δ ρ) (site : Site (Table ρ) (Insert ν ρ)) (row : OutboxEvent) : Prop :=
  row.published = false ∨ (∃ x ∈ site.queue.contents, Carries x.2 row) ∨ p.Holds site.store row.orderId

theorem Follows.onTheWay (h : Follows p outbox site) (hsnapshot : outbox.Snapshot)
    (hmem : row ∈ outbox.outbox) : OnTheWay p site row := by
  cases hpub : row.published with
  | false => exact .inl hpub
  | true =>
    obtain ⟨order, -, hid, hpayload⟩ := hsnapshot.payload hmem
    exact .inr (hid ▸ (h.published row hmem hpub).message_or_holds hpayload)

-- ---------------------------------------------------------------------------
-- A step of the outbox
-- ---------------------------------------------------------------------------

theorem Follows.outboxStep (h : Follows p outbox site) (hinv : Outbox.Inv outbox)
    (hr : Outbox.RequestsOk outbox) (hs : Outbox.Step outbox action outbox')
    (hacc : ∀ event, Outbox.accepted? outbox action = some event → Reached p site event) :
    Follows p outbox' site := by
  refine ⟨h.ok, fun row' hmem' hpub => ?_, fun r event ids hpc => ?_⟩
  · rcases hs.write.origin hinv.keyed hr hmem' with ⟨row, hmem, hrow⟩ | ⟨hfresh, -⟩
    · cases hrow with
      | same => exact h.published _ hmem hpub
      | @mark r event ids _ _ hpc hid =>
        have hheld := (hinv.held r event (by rw [hpc]; rfl)).1
        obtain rfl := hinv.keyed.eq_of_mem hheld hmem hid
        exact (h.accepted r _ ids hpc).congr rfl
      | record =>
        rw [Relay.recordedFailure_published] at hpub
        exact (h.published row hmem hpub).congr Relay.recordedFailure_facts.symm
      | clear => exact (h.published row hmem hpub).congr rfl
    · rw [hfresh.published] at hpub
      cases hpub
  · rcases hs.accepted_pc hpc with hpc | hnew
    · exact h.accepted r event ids hpc
    · exact hacc event hnew

end

-- ---------------------------------------------------------------------------
-- The system
-- ---------------------------------------------------------------------------

namespace System

variable {config : Notifications.Config} {s s' : State}

inductive Step (config : Notifications.Config) (s : State) : Action → State → Prop
  | outbox (hs : Outbox.Step s.outbox action outbox) (hacc : Outbox.accepted? s.outbox action = none) :
    Step config s (.outbox action bodies) { s with outbox }
  | publish (hs : Outbox.Step s.outbox action outbox) (hacc : Outbox.accepted? s.outbox action = some event)
      (hcarry : bodies.Carry event) :
    Step config s (.outbox action bodies) ({ s with outbox }.fanOut bodies)
  | billing (hs : SiteStep Billing.handle s.billing action billing)
      (hown : ∀ body, action ≠ .deliver body) : Step config s (.billing action) { s with billing }
  | shipping (hs : SiteStep Shipping.handle s.shipping action shipping)
      (hown : ∀ body, action ≠ .deliver body) : Step config s (.shipping action) { s with shipping }
  | notify (hs : SiteStep (Notifications.handle config) s.notify action notify)
      (hown : ∀ body, action ≠ .deliver body) : Step config s (.notify action) { s with notify }

theorem ownStep_cases {handler : Handler σ η α ε} {site site' : Site σ η}
    (h : ownStep handler site action = some site') :
    SiteStep handler site action site' ∧ ∀ body, action ≠ .deliver body := by
  unfold ownStep at h
  split at h
  next => cases h
  next hown => exact ⟨Site.step_cases h, hown⟩

theorem step_cases (h : step config s action = some s') : Step config s action s' := by
  cases action with
  | outbox action bodies =>
    obtain ⟨outbox, hs, h⟩ := Option.bind_eq_some_iff.mp h
    split at h
    next hacc => cases h; exact .outbox (Outbox.step_cases hs) hacc
    next event hacc =>
      split at h
      next hcarry => cases h; exact .publish (Outbox.step_cases hs) hacc hcarry
      next => cases h
  | billing action =>
    obtain ⟨billing, hs, rfl⟩ := Option.map_eq_some_iff.mp h
    exact .billing (ownStep_cases hs).1 (ownStep_cases hs).2
  | shipping action =>
    obtain ⟨shipping, hs, rfl⟩ := Option.map_eq_some_iff.mp h
    exact .shipping (ownStep_cases hs).1 (ownStep_cases hs).2
  | notify action =>
    obtain ⟨notify, hs, rfl⟩ := Option.map_eq_some_iff.mp h
    exact .notify (ownStep_cases hs).1 (ownStep_cases hs).2

/-- No operator empties the tables of Billing and Shipping. -/
def Lasting (_ : State) : Action → Prop
  | .billing (.env _) | .shipping (.env _) => False
  | _ => True

instance : DecidablePred (Lasting s) := fun action => by
  unfold Lasting
  split <;> infer_instance

structure Sound (s : State) : Prop where
  inv : Outbox.Inv s.outbox
  requests : Outbox.RequestsOk s.outbox
  snapshot : s.outbox.Snapshot
  billing : Follows Billing.projection s.outbox s.billing
  shipping : Follows Shipping.projection s.outbox s.shipping

theorem Sound.empty : Sound (.empty limit) where
  inv := Outbox.State.empty_initial.inv
  requests := Outbox.State.empty_initial.requestsOk
  snapshot := rfl
  billing := .empty
  shipping := .empty

theorem Sound.outboxStep {billing : BillingSite} {shipping : ShippingSite} (h : Sound s)
    (hs : Outbox.Step s.outbox action outbox)
    (hbilling : Follows Billing.projection outbox billing)
    (hshipping : Follows Shipping.projection outbox shipping) :
    Sound { s with outbox, billing, shipping, notify } where
  inv := h.inv.step hs
  requests := h.requests.step hs
  snapshot := h.snapshot.step h.requests hs
  billing := hbilling
  shipping := hshipping

theorem Sound.step (h : Sound s) (hs : Step config s action s') (hc : Lasting s action) :
    Sound s' := by
  cases hs with
  | outbox hs hacc =>
    exact h.outboxStep hs (h.billing.outboxStep h.inv h.requests hs (by simp [hacc]))
      (h.shipping.outboxStep h.inv h.requests hs (by simp [hacc]))
  | publish hs hacc hcarry =>
    obtain ⟨hbilling, hshipping, -⟩ := hcarry
    refine h.outboxStep hs ((h.billing.deliver _).outboxStep h.inv h.requests hs ?_)
      ((h.shipping.deliver _).outboxStep h.inv h.requests hs ?_)
    · simpa [hacc] using reached_send hbilling
    · simpa [hacc] using reached_send hshipping
  | billing hs =>
    refine { h with billing := h.billing.siteStep hs ?_ }
    rintro _ rfl
    exact hc
  | shipping hs =>
    refine { h with shipping := h.shipping.siteStep hs ?_ }
    rintro _ rfl
    exact hc
  | notify => exact { h with }

theorem sound_of_reaches (h : (machine config).Reaches Lasting (.empty limit) s) : Sound s :=
  h.invariant .empty fun _ _ _ hi hc hs => hi.step (step_cases hs) hc

theorem step_publish (hs : Outbox.step s.outbox action = some outbox)
    (hacc : Outbox.accepted? s.outbox action = some event) (hcarry : bodies.Carry event) :
    (machine config).step s (.outbox action bodies) = some ({ s with outbox }.fanOut bodies) := by
  simp [machine, step, hs, hacc, hcarry]

/-- The row of the keyboard's order is published and marked. -/
theorem reaches_published : ∃ outbox : Outbox.State, outbox.orders.map Order.id = [⟨1⟩] ∧
    outbox.outbox = [keyboardRow.mark placedAt] ∧ (machine config).Reaches Lasting (.empty 5)
      ({ State.empty 5 with outbox }.fanOut ⟨keyboardBody, keyboardBody, keyboardBody⟩) := by
  let bodies : Bodies := ⟨keyboardBody, keyboardBody, keyboardBody⟩
  have hlocked : (machine config).Reaches Lasting (.empty 5) { State.empty 5 with outbox := _ } :=
    .next (.outbox (.relay 0 .select) bodies) (.next (.outbox (.relay 0 (.poll [⟨2⟩])) bodies)
      (.next (.outbox (.relay 0 (.start ⟨10, 5, false⟩)) bodies)
        (.next (.outbox (.commitOrder 0) bodies) (.next (.outbox (.flush 0 ⟨2⟩ placedAt) bodies)
          (.next (.outbox (.post 0 false ⟨1⟩ placedAt keyboardOrder) bodies) .refl trivial rfl)
          trivial rfl) trivial rfl) trivial rfl) trivial rfl) trivial rfl
  have hcarry : bodies.Carry keyboardRow :=
    ⟨keyboardBody_carries, keyboardBody_carries, keyboardBody_carries⟩
  have haccepted : (machine config).Reaches Lasting (.empty 5)
      ({ State.empty 5 with outbox := _ }.fanOut bodies) :=
    .next (.outbox (.relay 0 (.publish .accepted)) bodies) hlocked trivial
      (step_publish rfl rfl hcarry)
  exact ⟨_, rfl, rfl, .next (.outbox (.relay 0 (.commit .done placedAt)) bodies) haccepted trivial rfl⟩

/-- Every committed order has its row, and its event is never lost on the way
to Billing or Shipping. -/
theorem order_not_lost (h : (machine config).Reaches Lasting (.empty limit) s)
    (horder : order ∈ s.outbox.orders) :
    (∃ row ∈ s.outbox.outbox, row.orderId = order.id) ∧
      ∀ row ∈ s.outbox.outbox, row.orderId = order.id →
        OnTheWay Billing.projection s.billing row ∧ OnTheWay Shipping.projection s.shipping row := by
  have hsound := sound_of_reaches h
  refine ⟨hsound.snapshot.exists_row horder, fun row hmem _ => ?_⟩
  exact ⟨hsound.billing.onTheWay hsound.snapshot hmem, hsound.shipping.onTheWay hsound.snapshot hmem⟩

/-- Order 1 is published and marked, and Billing's consumer killed with its message in hand. -/
theorem order_not_lost_published : ∃ s : State, (∃ row ∈ s.outbox.outbox, row.published = true) ∧
    ∃ order ∈ s.outbox.orders, order.id = ⟨1⟩ ∧ (∃ row ∈ s.outbox.outbox, row.orderId = order.id) ∧
      ∀ row ∈ s.outbox.outbox, row.orderId = order.id →
        OnTheWay Billing.projection s.billing row ∧ OnTheWay Shipping.projection s.shipping row := by
  obtain ⟨outbox, hids, hrows, hpublished⟩ := @reaches_published ⟨60, false⟩
  have hreceived : (machine ⟨60, false⟩).Reaches Lasting (.empty 5) _ :=
    .next (.billing (.consumer 0 .kill))
      (.next (.billing (.consumer 0 (.receive [0] true)))
        (.next (.billing (.consumer 0 (.start ⟨10, 5⟩))) hpublished trivial rfl) trivial rfl) trivial rfl
  obtain ⟨order, horder, hid⟩ := List.mem_map.mp (hids ▸ List.mem_singleton_self (⟨1⟩ : UUID))
  exact ⟨_, ⟨_, hrows ▸ List.mem_singleton_self _, rfl⟩, order, horder, hid,
    order_not_lost hreceived horder⟩

end System

end OutboxFanout
