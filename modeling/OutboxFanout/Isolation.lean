import OutboxFanout.Projections

/-!
# One consumer does not show in the others

No step reads what only a consumer's own steps write: its queue, its store, its
processes. So its steps may be erased from a run, and the orders, the outbox
and the other two consumers end as they did.
-/

namespace OutboxFanout.System

variable {config : Notifications.Config} {s s' t u : State}

inductive Service where
  | billing
  | shipping
  | notify
  deriving DecidableEq, Repr

/-- The service whose queue, store or process the step is about. -/
def Action.service? : Action → Option Service
  | .outbox _ _ => none
  | .billing _ => some .billing
  | .shipping _ => some .shipping
  | .notify _ => some .notify

/-- The states differ in nothing but the service. -/
structure SameWithout (service : Service) (s u : State) : Prop where
  outbox : u.outbox = s.outbox
  billing : service ≠ .billing → u.billing = s.billing
  shipping : service ≠ .shipping → u.shipping = s.shipping
  notify : service ≠ .notify → u.notify = s.notify

theorem SameWithout.refl : SameWithout service s s := ⟨rfl, fun _ => rfl, fun _ => rfl, fun _ => rfl⟩

-- ---------------------------------------------------------------------------
-- Erasing a service
-- ---------------------------------------------------------------------------

theorem step_outbox (hs : Outbox.step s.outbox action = some outbox)
    (hacc : Outbox.accepted? s.outbox action = none) :
    (machine config).step s (.outbox action bodies) = some { s with outbox } := by
  simp [machine, step, hs, hacc]

/-- A step of the service leaves the rest alone. -/
theorem SameWithout.drop (h : SameWithout service s u) (haction : action.service? = some service)
    (hs : (machine config).step s action = some s') : SameWithout service s' u := by
  cases action with
  | outbox => cases haction
  | billing action =>
    cases haction
    obtain ⟨billing, -, rfl⟩ := Option.map_eq_some_iff.mp hs
    exact { h with billing := fun hne => absurd rfl hne }
  | shipping action =>
    cases haction
    obtain ⟨shipping, -, rfl⟩ := Option.map_eq_some_iff.mp hs
    exact { h with shipping := fun hne => absurd rfl hne }
  | notify action =>
    cases haction
    obtain ⟨notify, -, rfl⟩ := Option.map_eq_some_iff.mp hs
    exact { h with notify := fun hne => absurd rfl hne }

/-- Any other step can be taken without the service's, too. -/
theorem SameWithout.keep (h : SameWithout service s u) (haction : action.service? ≠ some service)
    (hs : (machine config).step s action = some s') :
    ∃ u', (machine config).step u action = some u' ∧ SameWithout service s' u' := by
  cases action with
  | outbox action bodies =>
    obtain ⟨outbox, hout, hs⟩ := Option.bind_eq_some_iff.mp hs
    rw [← h.outbox] at hout hs
    split at hs
    next hacc =>
      cases hs
      exact ⟨_, step_outbox hout hacc, rfl, h.billing, h.shipping, h.notify⟩
    next event hacc =>
      split at hs
      next hcarry =>
        cases hs
        refine ⟨_, step_publish hout hacc hcarry, rfl, fun hne => ?_, fun hne => ?_, fun hne => ?_⟩
        · simp only [State.fanOut, h.billing hne]
        · simp only [State.fanOut, h.shipping hne]
        · simp only [State.fanOut, h.notify hne]
      next => cases hs
  | billing action =>
    obtain ⟨billing, hown, rfl⟩ := Option.map_eq_some_iff.mp hs
    have hne : service ≠ .billing := by
      rintro rfl
      exact haction rfl
    rw [← h.billing hne] at hown
    exact ⟨_, Option.map_eq_some_iff.mpr ⟨billing, hown, rfl⟩, h.outbox, fun _ => rfl, h.shipping, h.notify⟩
  | shipping action =>
    obtain ⟨shipping, hown, rfl⟩ := Option.map_eq_some_iff.mp hs
    have hne : service ≠ .shipping := by
      rintro rfl
      exact haction rfl
    rw [← h.shipping hne] at hown
    exact ⟨_, Option.map_eq_some_iff.mpr ⟨shipping, hown, rfl⟩, h.outbox, h.billing, fun _ => rfl, h.notify⟩
  | notify action =>
    obtain ⟨notify, hown, rfl⟩ := Option.map_eq_some_iff.mp hs
    have hne : service ≠ .notify := by
      rintro rfl
      exact haction rfl
    rw [← h.notify hne] at hown
    exact ⟨_, Option.map_eq_some_iff.mpr ⟨notify, hown, rfl⟩, h.outbox, h.billing, h.shipping, fun _ => rfl⟩

/-- The actions that are not the service's. -/
def erased (service : Service) (actions : List Action) : List Action :=
  actions.filter fun action => action.service? ≠ some service

theorem exec_erased (h : (machine config).exec Machine.anyStep s actions = some s') :
    ∃ u, (machine config).exec Machine.anyStep s (erased service actions) = some u ∧
      SameWithout service s' u := by
  refine Machine.exec_erase ?_ ?_ SameWithout.refl h
  · exact fun s u action s' hR haction hs => hR.drop (by simpa using haction) hs
  · exact fun s u action s' hR haction hs => hR.keep (by simpa using haction) hs

-- ---------------------------------------------------------------------------
-- What follows for Shipping and for the relay
-- ---------------------------------------------------------------------------

/-- No operator empties Shipping's table; Billing's may be emptied any time. -/
def ShipmentsLast (_ : State) : Action → Prop
  | .shipping (.env _) => False
  | _ => True

theorem shipments_of_reaches (h : (machine config).Reaches ShipmentsLast t s) :
    Projection.Grows t.shipping.store s.shipping.store := by
  induction h with
  | refl => exact fun _ h => h
  | next action _ hc hs ih =>
    have hstep := step_cases hs
    cases hstep with
    | outbox | publish | billing | notify => exact ih
    | shipping hsite =>
      refine fun record hmem => hsite.store_le Shipping.projection.settles ?_ record (ih record hmem)
      rintro _ _ rfl
      exact hc.elim

/-- A step of the relays, or of a request. -/
def OnOutbox (_ : State) (action : Action) : Prop := action.service? = none

/-- Raw delivery of the row's message to all three. -/
def rawBodies (event : OutboxEvent) : Bodies :=
  let body := Json.dumps (buildMessage event)
  ⟨body, body, body⟩

theorem rawBodies_carry : (rawBodies event).Carry event := ⟨.inl rfl, .inl rfl, .inl rfl⟩

/-- Whatever the consumers are doing, the relays and the requests can do what
they can do without them. -/
theorem reaches_of_outbox (h : Outbox.machine.Reaches Machine.anyStep s.outbox outbox) :
    ∃ s', (machine config).Reaches OnOutbox s s' ∧ s'.outbox = outbox := by
  induction h with
  | refl => exact ⟨s, .refl, rfl⟩
  | next action _ _ hs ih =>
    obtain ⟨t, ht, rfl⟩ := ih
    cases hacc : Outbox.accepted? t.outbox action with
    | none => exact ⟨_, .next (.outbox action ⟨"", "", ""⟩) ht rfl (step_outbox hs hacc), rfl⟩
    | some event =>
      exact ⟨_, .next (.outbox action (rawBodies event)) ht rfl (step_publish hs hacc rawBodies_carry), rfl⟩

/-- A service's steps do not show outside it; in particular Billing's table does
not matter to Shipping, nor any consumer to the relays. -/
theorem consumer_fate_invisible (config : Notifications.Config) :
    (∀ service s actions s', (machine config).exec Machine.anyStep s actions = some s' →
      ∃ u, (machine config).exec Machine.anyStep s (erased service actions) = some u ∧
        SameWithout service s' u) ∧
    (∀ limit t s, (machine config).Reaches ShipmentsLast (.empty limit) t →
      (machine config).Reaches ShipmentsLast t s →
      Projection.Grows t.shipping.store s.shipping.store ∧
        Rows.Keyed Shipping.Shipment.orderId s.shipping.store.rows) ∧
    ∀ (s : State) outbox, Outbox.machine.Reaches Machine.anyStep s.outbox outbox →
      ∃ s', (machine config).Reaches OnOutbox s s' ∧ s'.outbox = outbox :=
  ⟨fun _ _ _ _ h => exec_erased h,
    fun _ _ _ h h' => ⟨shipments_of_reaches h', (projected_of_reaches (h.trans h')).shipped.keyed⟩,
    fun _ _ h => reaches_of_outbox h⟩

/-- Billing stops, loses its table and starts again while an order is placed. -/
theorem consumer_fate_invisible_billing : ∃ u : State, ∃ actions,
    (machine ⟨60, false⟩).exec Machine.anyStep (.empty 5) (erased .billing actions) = some u ∧
    (erased .billing actions).length < actions.length ∧ u.outbox.orders.map (·.id) = [⟨1⟩] := by
  let actions : List Action := [.outbox (.post 0 false ⟨1⟩ placedAt keyboardOrder) ⟨"", "", ""⟩,
    .billing (.consumer 0 (.start ⟨10, 5⟩)), .outbox (.flush 0 ⟨2⟩ placedAt) ⟨"", "", ""⟩,
    .billing (.consumer 0 .kill), .billing (.env .wipe), .outbox (.commitOrder 0) ⟨"", "", ""⟩,
    .shipping (.consumer 0 (.start ⟨10, 5⟩)), .billing (.consumer 0 (.start ⟨10, 5⟩))]
  have hrun : ((machine ⟨60, false⟩).exec Machine.anyStep (.empty 5) actions).any
      (fun s => s.outbox.orders.map (·.id) = [⟨1⟩]) = true := by decide
  obtain ⟨s, hs, hids⟩ := (Option.any_eq_true ..).mp hrun
  obtain ⟨u, hu, hsame⟩ := (consumer_fate_invisible ⟨60, false⟩).1 .billing _ actions s hs
  exact ⟨u, actions, hu, by decide, hsame.outbox ▸ of_decide_eq_true hids⟩

end OutboxFanout.System
