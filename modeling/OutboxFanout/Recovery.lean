import OutboxFanout.Isolation
import OutboxFanout.Readable
import OutboxFanout.Relay.Healthy

/-!
# No order is beyond help

From every reachable state an order can still be billed and shipped: its row
can be published, if it is not, once whoever holds it is stopped and `failed_at`
is cleared; and a message of it can be handled, unless each one is dead or has
been received `maxReceiveCount` times.
-/

namespace OutboxFanout

-- ---------------------------------------------------------------------------
-- A row can be published
-- ---------------------------------------------------------------------------

namespace Outbox

open Relay

theorem State.kill_locks_none {s : State} (h : s.locks eventId = none) :
    (s.kill r).locks eventId = none := by
  have hunlock : ∀ id, (s.unlock id).locks eventId = none := fun id => by
    by_cases hid : eventId = id <;> simp [State.unlock, hid, h]
  unfold State.kill
  split
  · exact hunlock _
  · exact hunlock _
  · exact hunlock _
  · exact h

/-- A relay starts and polls a batch with the row in it. -/
theorem exists_selected (hi : Inv s) (hmem : row ∈ s.outbox) (hunpub : row.published = false)
    (hfailed : row.failedAt = none) (hfree : s.locks row.id = none) : ∃ t ids,
      machine.Reaches Machine.anyStep s t ∧ t.outbox = s.outbox ∧ t.locks row.id = none ∧
      (t.relays 0).pc = .batch ids ∧ (t.relays 0).config.crashAfterPublish = false ∧ row.id ∈ ids := by
  let config : Config := ⟨s.outbox.length, row.attempts + 1, false⟩
  let scan := s.outbox.map (·.id)
  let started : State :=
    { s.kill 0 with relays := Function.update (s.kill 0).relays 0 ⟨config, .idle⟩ }
  have hkill : step s (.relay 0 .kill) = some (s.kill 0) := by simp [step, relayStep]
  have hstart : step (s.kill 0) (.relay 0 (.start config)) = some started := by
    simp [step, relayStep, State.kill_pc, started]
  have houtbox : started.outbox = s.outbox := State.kill_outbox
  have hpoll : step started (.relay 0 (.poll scan)) = some (started.goto 0 (.batch
      (pendingEventIds (row.attempts + 1) s.outbox.length
        (scan.filterMap fun id => s.outbox.find? (·.id = id))))) := by
    simp [step, relayStep, started, State.kill_outbox, config, scan]
  refine ⟨_, _, .next (.relay 0 (.poll scan)) (.next (.relay 0 (.start config))
    (.next (.relay 0 .kill) .refl trivial hkill) trivial hstart) trivial hpoll, houtbox,
    State.kill_locks_none hfree, State.goto_pc, by simp [State.goto, started, config], ?_⟩
  have hfind : s.outbox.find? (·.id = row.id) = some row :=
    find?_eq_of_mem hi.keyed hmem (by simp) (by simp)
  refine mem_pendingEventIds
    (List.mem_filterMap.mpr ⟨row.id, List.mem_map_of_mem hmem, hfind⟩)
    ⟨hunpub, hfailed, Nat.lt_succ_self _⟩ ?_
  refine List.countP_le_length.trans ((List.length_filterMap_le _ _).trans ?_)
  rw [List.length_map]

/-- Any unpublished row can be brought before SNS. -/
theorem exists_locked (hi : Inv s) (hmem : row ∈ s.outbox) (hunpub : row.published = false) :
    ∃ t event ids, machine.Reaches Machine.anyStep s t ∧ (t.relays 0).pc = .locked event ids ∧
      event.facts = row.facts := by
  obtain ⟨r, hr⟩ : ∃ r, s.locks row.id ≠ some r := by
    cases hlock : s.locks row.id with
    | none => exact ⟨0, nofun⟩
    | some r => exact ⟨r + 1, fun heq => Nat.succ_ne_self r (Option.some.inj heq).symm⟩
  obtain ⟨t₁, hreach₁, hi₁, hmem₁, hfree₁⟩ := exists_eligible hi hmem hr
  obtain ⟨t₂, ids, hreach₂, houtbox₂, hfree₂, hpc₂, hcrash₂, hid⟩ :=
    exists_selected hi₁ hmem₁ hunpub rfl hfree₁
  obtain ⟨before, after, rfl, hbefore⟩ := List.eq_append_cons_of_mem hid
  obtain ⟨t₃, hmoved, hkeep⟩ := exists_batch before hpc₂ hcrash₂
  obtain ⟨hlocks₃, hrows₃⟩ := hkeep row.id hbefore
  have hreach₃ : machine.Reaches Machine.anyStep s t₃ :=
    ((hreach₁.mono fun _ _ _ => trivial).trans hreach₂).trans (hmoved.reaches.mono fun _ _ _ => trivial)
  have hi₃ : Inv t₃ := hreach₃.invariant hi fun _ _ _ hi _ hs => hi.step (step_cases hs)
  have hmem₃ : { row with failedAt := none } ∈ t₃.outbox :=
    hrows₃ _ (houtbox₂ ▸ hmem₁) rfl
  have hselect := relayStep_select hi₃.keyed hmem₃ hunpub hmoved.pc_eq (hlocks₃.trans hfree₂)
  exact ⟨_, { row with failedAt := none }, after, .next (.relay 0 .select) hreach₃ trivial hselect,
    State.goto_pc, rfl⟩

end Outbox

-- ---------------------------------------------------------------------------
-- A message can be handled
-- ---------------------------------------------------------------------------

section
variable {σ η α ε : Type} {handler : Handler σ η α ε} {site site' : Site σ η}

/-- A message of the row that is neither dead nor used up. -/
def Site.Pending (site : Site σ η) (row : OutboxEvent) (m : Message String) : Prop :=
  m ∈ site.queue.messages ∧ Carries m.body row ∧ m.place ≠ .dead ∧ m.receives < site.queue.limit

theorem Site.pending_send (hcarries : Carries body row) (hlimit : 0 < site.queue.limit) :
    { site with queue := site.queue.send body }.Pending row ⟨site.queue.nextId, body, 0, .visible⟩ :=
  ⟨List.mem_append_right _ (List.mem_singleton_self _), hcarries, nofun, hlimit⟩

end

theorem Billing.opens (hcarries : Carries body row) (hpayload : row.payload = buildPayload order)
    (hfits : order.Fits) :
    projection.Opens body ⟨order.id, row.id, order.customerId, .finite order.loaded.amount⟩ :=
  let ⟨depth, hdepth, hnests⟩ := exists_nests body
  ⟨depth, _, hcarries.parseBody_ok hpayload hdepth hnests, read_ok hpayload hfits⟩

theorem Shipping.opens (hcarries : Carries body row) (hpayload : row.payload = buildPayload order)
    (hfits : order.Fits) :
    projection.Opens body ⟨order.id, row.id, order.customerId, order.item⟩ :=
  let ⟨depth, hdepth, hnests⟩ := exists_nests body
  ⟨depth, _, hcarries.parseBody_ok hpayload hdepth hnests,
    read_ok hpayload hfits⟩

namespace System

open Relay (invalidParameter)

variable {config : Notifications.Config} {s s' t : State}

/-- No INSERT is left waiting for a process that is gone. -/
structure Clear (limit : Nat) (s : State) : Prop where
  billing : Billing.projection.Owned s.billing.store (s.billing.holders Billing.projection.inserted?)
  shipping :
    Shipping.projection.Owned s.shipping.store (s.shipping.holders Shipping.projection.inserted?)
  billingLimit : s.billing.queue.limit = limit
  shippingLimit : s.shipping.queue.limit = limit

theorem Clear.empty : Clear limit (.empty limit) := ⟨.empty, .empty, rfl, rfl⟩

theorem Clear.step (h : Clear limit s) (hs : Step config s action s') : Clear limit s' := by
  cases hs with
  | outbox | notify => exact ⟨h.billing, h.shipping, h.billingLimit, h.shippingLimit⟩
  | publish => exact ⟨h.billing, h.shipping, h.billingLimit, h.shippingLimit⟩
  | billing hs =>
    exact { h with billing := h.billing.step hs, billingLimit := hs.limit_eq.trans h.billingLimit }
  | shipping hs =>
    exact { h with shipping := h.shipping.step hs, shippingLimit := hs.limit_eq.trans h.shippingLimit }

theorem clear_of_reaches (h : (machine config).Reaches C (.empty limit) s) : Clear limit s :=
  h.invariant .empty fun _ _ _ hi _ hs => hi.step (step_cases hs)

theorem lasting_of_onOutbox (h : OnOutbox s action) : Lasting s action := by
  cases action with
  | outbox => trivial
  | _ => cases h

/-- An unpublished row can be given to Billing and Shipping. -/
theorem exists_sent (hi : Outbox.Inv s.outbox) (hclear : Clear limit s) (hlimit : 0 < limit)
    (hmem : row ∈ s.outbox.outbox) (hunpub : row.published = false) : ∃ t,
      (machine config).Reaches Lasting s t ∧ (∃ m, t.billing.Pending row m) ∧
        ∃ m, t.shipping.Pending row m := by
  obtain ⟨outbox, event, ids, hreach, hpc, hfacts⟩ := Outbox.exists_locked hi hmem hunpub
  obtain ⟨t, ht, rfl⟩ : ∃ t, (machine config).Reaches OnOutbox s t ∧ t.outbox = outbox :=
    reaches_of_outbox hreach
  have hpublish : Outbox.step t.outbox (.relay 0 (.publish .accepted)) =
      some ((t.outbox.note (.accepted event)).goto 0 (.accepted event ids)) := by
    simp [Outbox.step, Outbox.relayStep, hpc]
  have hacc : Outbox.accepted? t.outbox (.relay 0 (.publish .accepted)) = some event := by
    simp [Outbox.accepted?, hpc]
  have hclear' : Clear limit t := ht.invariant hclear fun _ _ _ hi _ hs => hi.step (step_cases hs)
  have hcarries : Carries (rawBodies event).billing row := Carries.congr (.inl rfl) hfacts
  refine ⟨_, .next (.outbox (.relay 0 (.publish .accepted)) (rawBodies event))
    (ht.mono fun _ _ => lasting_of_onOutbox) trivial (step_publish hpublish hacc rawBodies_carry),
    ⟨_, Site.pending_send hcarries (hclear'.billingLimit ▸ hlimit)⟩,
    ⟨_, Site.pending_send hcarries (hclear'.shippingLimit ▸ hlimit)⟩⟩

theorem exists_billed (hclear : Clear limit s) (hm : s.billing.Pending row m)
    (hpayload : row.payload = buildPayload order) (hfits : order.Fits) : ∃ t,
      (machine config).Reaches Lasting s t ∧ Billing.projection.Holds t.billing.store order.id := by
  obtain ⟨hmem, hcarries, hplace, hleft⟩ := hm
  obtain ⟨billing, hreach, hholds, -⟩ := Projection.exists_handled hclear.billing hmem hplace hleft
    (Billing.opens hcarries hpayload hfits) ⟨⟨0⟩, placedAt⟩
  exact ⟨_, reaches_billing hreach, hholds⟩

theorem exists_shipped (hclear : Clear limit s) (hm : s.shipping.Pending row m)
    (hpayload : row.payload = buildPayload order) (hfits : order.Fits) : ∃ t,
      (machine config).Reaches Lasting s t ∧ Shipping.projection.Holds t.shipping.store order.id := by
  obtain ⟨hmem, hcarries, hplace, hleft⟩ := hm
  obtain ⟨shipping, hreach, hholds, -⟩ := Projection.exists_handled hclear.shipping hmem hplace hleft
    (Shipping.opens hcarries hpayload hfits) ⟨⟨0⟩, ⟨0⟩, placedAt⟩
  exact ⟨_, reaches_shipping hreach, hholds⟩

/-- The row is published, and each of its messages is dead or used up. -/
def Spent {σ η : Type} (site : Site σ η) (row : OutboxEvent) : Prop :=
  row.published = true ∧ (∃ m ∈ site.queue.messages, Carries m.body row) ∧ ∀ m, ¬site.Pending row m

/-- Where the row of an order stands with a service. -/
theorem pending_or_spent {p : Projection ν δ ρ} {outbox : Outbox.State}
    {site : Site (Table ρ) (Insert ν ρ)} (h : Follows p outbox site) (hmem : row ∈ outbox.outbox)
    (hpayload : row.payload = buildPayload order) : row.published = false ∨
      p.Holds site.store order.id ∨ (∃ m, site.Pending row m) ∨ Spent site row := by
  cases hpub : row.published with
  | false => exact .inl rfl
  | true =>
    rcases (h.published row hmem hpub).message_or_holds hpayload with ⟨x, hx, hcarries⟩ | hholds
    · obtain ⟨m, hm, -, hbody⟩ := Queue.mem_contents.mp hx
      by_cases hpending : ∃ m, site.Pending row m
      · exact .inr (.inr (.inl hpending))
      · exact .inr (.inr (.inr ⟨hpub, ⟨m, hm, hbody ▸ hcarries⟩, not_exists.mp hpending⟩))
    · exact .inr (.inl hholds)

/-- An order can still be billed and shipped, whatever has happened, unless all
its messages for the service are dead or used up. -/
theorem can_fulfil (hlimit : 0 < limit) (h : (machine config).Reaches Lasting (.empty limit) s)
    (horder : order ∈ s.outbox.orders) : ∃ row ∈ s.outbox.outbox, row.orderId = order.id ∧
      ((∃ t, (machine config).Reaches Lasting s t ∧ Billing.projection.Holds t.billing.store order.id) ∨
        Spent s.billing row) ∧
      ((∃ t, (machine config).Reaches Lasting s t ∧
        Shipping.projection.Holds t.shipping.store order.id) ∨ Spent s.shipping row) := by
  have hsound := sound_of_reaches h
  have hclear := clear_of_reaches h
  have htraced := traced_of_reaches h
  have hfits := htraced.fits order horder
  obtain ⟨row, hmem, hid⟩ := hsound.snapshot.exists_row horder
  obtain ⟨order', horder', hid', hpayload⟩ := hsound.snapshot.payload hmem
  obtain rfl := htraced.unit.keyedOrders.eq_of_mem horder' horder (hid'.trans hid)
  refine ⟨row, hmem, hid, ?_, ?_⟩
  · rcases pending_or_spent hsound.billing hmem hpayload with hunpub | hholds | ⟨m, hm⟩ | hspent
    · obtain ⟨t, ht, ⟨m, hm⟩, -⟩ := exists_sent hsound.inv hclear hlimit hmem hunpub
      obtain ⟨u, hu, hholds⟩ := exists_billed (clear_of_reaches (h.trans ht)) hm hpayload hfits
      exact .inl ⟨u, ht.trans hu, hholds⟩
    · exact .inl ⟨s, .refl, hholds⟩
    · exact .inl (exists_billed hclear hm hpayload hfits)
    · exact .inr hspent
  · rcases pending_or_spent hsound.shipping hmem hpayload with hunpub | hholds | ⟨m, hm⟩ | hspent
    · obtain ⟨t, ht, -, m, hm⟩ := exists_sent hsound.inv hclear hlimit hmem hunpub
      obtain ⟨u, hu, hholds⟩ := exists_shipped (clear_of_reaches (h.trans ht)) hm hpayload hfits
      exact .inl ⟨u, ht.trans hu, hholds⟩
    · exact .inl ⟨s, .refl, hholds⟩
    · exact .inl (exists_shipped hclear hm hpayload hfits)
    · exact .inr hspent

/-- The row of the only order is parked, and its relay gone. -/
theorem can_fulfil_parked : ∃ s : State, (∃ row ∈ s.outbox.outbox, row.failedAt ≠ none) ∧
    ∃ order ∈ s.outbox.orders, ∃ t, (machine ⟨60, false⟩).Reaches Lasting s t ∧
      Billing.projection.Holds t.billing.store order.id := by
  let bodies : Bodies := ⟨"", "", ""⟩
  obtain ⟨s, hreach, hparked, hids, hqueue⟩ := (machine ⟨60, false⟩).exists_reaches (C := Lasting)
    (s := .empty 5) [.outbox (.post 0 false ⟨1⟩ placedAt keyboardOrder) bodies,
      .outbox (.flush 0 ⟨2⟩ placedAt) bodies, .outbox (.commitOrder 0) bodies,
      .outbox (.relay 0 (.start ⟨10, 5, false⟩)) bodies, .outbox (.relay 0 (.poll [⟨2⟩])) bodies,
      .outbox (.relay 0 .select) bodies,
      .outbox (.relay 0 (.publish (.refused invalidParameter))) bodies,
      .outbox (.relay 0 .record) bodies, .outbox (.relay 0 (.commit .done placedAt)) bodies,
      .outbox (.relay 0 .kill) bodies]
    (fun s => (∃ row ∈ s.outbox.outbox, row.failedAt ≠ none) ∧ s.outbox.orders.map (·.id) = [⟨1⟩] ∧
      s.billing.queue.messages.length = 0) (by decide)
  obtain ⟨order, horder, -⟩ := List.mem_map.mp (hids ▸ List.mem_singleton_self (⟨1⟩ : UUID))
  obtain ⟨row, -, -, hbilling, -⟩ := can_fulfil (Nat.succ_pos 4) hreach horder
  refine ⟨s, hparked, order, horder, hbilling.resolve_right ?_⟩
  rintro ⟨-, ⟨m, hm, -⟩, -⟩
  rw [List.length_eq_zero_iff.mp hqueue] at hm
  cases hm

end System

end OutboxFanout
