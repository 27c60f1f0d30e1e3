import OutboxFanout.Notifications.Eventually
import OutboxFanout.Recovery
import OutboxFanout.Relay.Eventually

/-!
# The course of a row

A run of the system is a run of each of its parts: a publish that SNS accepts is
a step of the outbox and a delivery to each queue. While one relay goes on and is
answered by the database, a row that may be tried is parked at some time, or it
is entry `key` of the log and message `key` of every queue
(`Drained.exists_published`).
-/

namespace OutboxFanout

-- ---------------------------------------------------------------------------
-- A message of a publish
-- ---------------------------------------------------------------------------

theorem Site.receivable_send {σ η : Type} {site : Site σ η} (hlimit : 0 < site.queue.limit) :
    { site with queue := site.queue.send body }.Receivable site.queue.nextId :=
  ⟨_, List.mem_append_right _ (List.mem_singleton_self _), rfl, rfl, hlimit⟩

theorem Site.Receivable.holds {σ η : Type} {site : Site σ η} (h : site.Receivable key) :
    site.Holds key := by
  obtain ⟨m, hm, hid, -⟩ := h
  exact ⟨m, hm, hid⟩

/-- Whatever a consumer has in hand under the number of the entry tells of its order. -/
theorem Site.Copies.tells {ν δ ρ : Type} {p : Projection ν δ ρ} {values : ν}
    {site : Site (Table ρ) (Insert ν ρ)}
    (h : site.Copies log) (hentry : log[key]? = some event)
    (hpayload : event.payload = buildPayload order) (hread : p.read (buildMessage event) = .ok values)
    (hd : d ∈ (site.consumers c).pc.inHand) (hid : d.id = key) : p.Tells d.body (p.orderId values) := by
  obtain ⟨event', hentry', hcarries⟩ := h.taken c d hd
  rw [hid, hentry] at hentry'
  cases hentry'
  refine ⟨fun depth hdepth hnests => ⟨_, hcarries.parseBody_ok hpayload hdepth hnests⟩,
    fun message hreads => ?_⟩
  obtain rfl := hreads.eq_buildMessage hcarries
  exact ⟨values, hread, rfl⟩

namespace System

variable {config : Notifications.Config} {s s' : State}

-- ---------------------------------------------------------------------------
-- The parts of a run
-- ---------------------------------------------------------------------------

def onOutbox (_ : State) : Action → Option Outbox.Action
  | .outbox action _ => some action
  | _ => none

/-- A publish that SNS accepts is a delivery. -/
def onBilling (s : State) : Action → Option (SiteAction (InsertAnswer Billing.Draws) TableEvent)
  | .outbox action bodies => (Outbox.accepted? s.outbox action).map fun _ => .deliver bodies.billing
  | .billing action => some action
  | _ => none

def onShipping (s : State) : Action → Option (SiteAction (InsertAnswer Shipping.Draws) TableEvent)
  | .outbox action bodies => (Outbox.accepted? s.outbox action).map fun _ => .deliver bodies.shipping
  | .shipping action => some action
  | _ => none

def onNotify (s : State) : Action → Option (SiteAction Notifications.Answer Nat)
  | .outbox action bodies => (Outbox.accepted? s.outbox action).map fun _ => .deliver bodies.notify
  | .notify action => some action
  | _ => none

theorem step_of_ownStep {handler : Handler σ η α ε} {site site' : Site σ η}
    (h : ownStep handler site action = some site') : site.step handler action = some site' := by
  unfold ownStep at h
  split at h
  next => cases h
  next => exact h

/-- A step of the outbox leaves the sites alone, or delivers to each of them. -/
theorem outbox_cases (hs : (machine config).step s (.outbox action bodies) = some s') : ∃ outbox,
    Outbox.step s.outbox action = some outbox ∧
      (Outbox.accepted? s.outbox action = none ∧ s' = { s with outbox } ∨
        ∃ event, Outbox.accepted? s.outbox action = some event ∧ bodies.Carry event ∧
          s' = { s with outbox }.fanOut bodies) := by
  obtain ⟨outbox, hout, hs⟩ := Option.bind_eq_some_iff.mp hs
  refine ⟨outbox, hout, ?_⟩
  split at hs
  next hacc =>
    cases hs
    exact .inl ⟨hacc, rfl⟩
  next event hacc =>
    split at hs
    next hcarry =>
      cases hs
      exact .inr ⟨event, hacc, hcarry, rfl⟩
    next => cases hs

theorem outbox_part (hs : (machine config).step s action = some s') :
    Outbox.machine.stutter s.outbox (onOutbox s action) = some s'.outbox := by
  cases action with
  | outbox action bodies =>
    obtain ⟨outbox, hout, ⟨-, rfl⟩ | ⟨event, -, -, rfl⟩⟩ := outbox_cases hs
    · exact hout
    · exact hout
  | billing action =>
    obtain ⟨_, -, rfl⟩ := Option.map_eq_some_iff.mp hs
    rfl
  | shipping action =>
    obtain ⟨_, -, rfl⟩ := Option.map_eq_some_iff.mp hs
    rfl
  | notify action =>
    obtain ⟨_, -, rfl⟩ := Option.map_eq_some_iff.mp hs
    rfl

theorem billing_part (hs : (machine config).step s action = some s') :
    (Site.machine Billing.projection.handler).stutter s.billing (onBilling s action) =
      some s'.billing := by
  cases action with
  | outbox action bodies =>
    obtain ⟨outbox, -, ⟨hacc, rfl⟩ | ⟨event, hacc, -, rfl⟩⟩ := outbox_cases hs
    · simp [onBilling, hacc, Machine.stutter]
    · simp [onBilling, hacc, Machine.stutter, Site.machine, Site.step, State.fanOut]
  | billing action =>
    obtain ⟨billing, hown, rfl⟩ := Option.map_eq_some_iff.mp hs
    exact step_of_ownStep hown
  | shipping action =>
    obtain ⟨_, -, rfl⟩ := Option.map_eq_some_iff.mp hs
    rfl
  | notify action =>
    obtain ⟨_, -, rfl⟩ := Option.map_eq_some_iff.mp hs
    rfl

theorem shipping_part (hs : (machine config).step s action = some s') :
    (Site.machine Shipping.projection.handler).stutter s.shipping (onShipping s action) =
      some s'.shipping := by
  cases action with
  | outbox action bodies =>
    obtain ⟨outbox, -, ⟨hacc, rfl⟩ | ⟨event, hacc, -, rfl⟩⟩ := outbox_cases hs
    · simp [onShipping, hacc, Machine.stutter]
    · simp [onShipping, hacc, Machine.stutter, Site.machine, Site.step, State.fanOut]
  | shipping action =>
    obtain ⟨shipping, hown, rfl⟩ := Option.map_eq_some_iff.mp hs
    exact step_of_ownStep hown
  | billing action =>
    obtain ⟨_, -, rfl⟩ := Option.map_eq_some_iff.mp hs
    rfl
  | notify action =>
    obtain ⟨_, -, rfl⟩ := Option.map_eq_some_iff.mp hs
    rfl

theorem notify_part (hs : (machine config).step s action = some s') :
    (Site.machine (Notifications.handle config)).stutter s.notify (onNotify s action) =
      some s'.notify := by
  cases action with
  | outbox action bodies =>
    obtain ⟨outbox, -, ⟨hacc, rfl⟩ | ⟨event, hacc, -, rfl⟩⟩ := outbox_cases hs
    · simp [onNotify, hacc, Machine.stutter]
    · simp [onNotify, hacc, Machine.stutter, Site.machine, Site.step, State.fanOut]
  | notify action =>
    obtain ⟨notify, hown, rfl⟩ := Option.map_eq_some_iff.mp hs
    exact step_of_ownStep hown
  | billing action =>
    obtain ⟨_, -, rfl⟩ := Option.map_eq_some_iff.mp hs
    rfl
  | shipping action =>
    obtain ⟨_, -, rfl⟩ := Option.map_eq_some_iff.mp hs
    rfl

def outboxRun (run : (machine config).Run) : Outbox.machine.Run :=
  run.project State.outbox onOutbox outbox_part

def billingRun (run : (machine config).Run) : (Site.machine Billing.projection.handler).Run :=
  run.project State.billing onBilling billing_part

def shippingRun (run : (machine config).Run) : (Site.machine Shipping.projection.handler).Run :=
  run.project State.shipping onShipping shipping_part

def notifyRun (run : (machine config).Run) : (Site.machine (Notifications.handle config)).Run :=
  run.project State.notify onNotify notify_part

theorem outbox_of_reaches (h : (machine config).Reaches C s s') :
    Outbox.machine.Reaches Machine.anyStep s.outbox s'.outbox := by
  refine h.project State.outbox fun t action u _ hs => ?_
  have hpart := outbox_part hs
  cases hshown : onOutbox t action with
  | none =>
    rw [hshown] at hpart
    exact .inl (Option.some.inj hpart).symm
  | some a =>
    rw [hshown] at hpart
    exact .inr ⟨a, trivial, hpart⟩

theorem Logged.of_reaches (hi : Logged s) (h : (machine config).Reaches C s s') : Logged s' :=
  h.invariant hi fun _ _ _ hi _ hs => hi.step (step_cases hs)

-- ---------------------------------------------------------------------------
-- The publish
-- ---------------------------------------------------------------------------

/-- SNS has accepted the row, one of the order: it is entry `key` of the log, and
message `key` of the queues can be received. -/
structure Published (s : State) (key : Nat) (event : OutboxEvent) (order : Order) : Prop where
  entry : s.outbox.log[key]? = some event
  orderId : order.id = event.orderId
  payload : event.payload = buildPayload order
  fits : order.Fits
  billing : s.billing.Receivable key
  shipping : s.shipping.Receivable key
  notify : s.notify.Receivable key

theorem notifyLimit_of_reaches (h : (machine config).Reaches C (.empty limit) s) :
    s.notify.queue.limit = limit := by
  refine h.invariant (I := fun s => s.notify.queue.limit = limit) rfl fun t action u ht _ hs => ?_
  cases step_cases hs with
  | notify hnotify => exact hnotify.limit_eq.trans ht
  | outbox | publish | billing | shipping => exact ht

theorem published_of_accepted (hlimit : 0 < limit)
    (hreach : (machine config).Reaches Lasting (.empty limit) s)
    (hs : (machine config).step s (.outbox action bodies) = some s')
    (hacc : Outbox.accepted? s.outbox action = some event) :
    ∃ key order, Published s' key event order := by
  have hclear := clear_of_reaches hreach
  have hlogged := Logged.empty.of_reaches hreach
  have htraced := traced_of_reaches (.next (.outbox action bodies) hreach trivial hs)
  obtain ⟨outbox, hout, ⟨hnone, -⟩ | ⟨event', hacc', -, rfl⟩⟩ := outbox_cases hs
  · cases hnone.symm.trans hacc
  obtain rfl := Option.some.inj (hacc'.symm.trans hacc)
  have hlog : outbox.log = s.outbox.log ++ [event'] := by
    rw [(Outbox.step_cases hout).log, hacc, Option.toList_some]
  obtain ⟨order, hplaced, hid, hpayload⟩ := htraced.unit.accepted_order
    (Outbox.State.mem_log.mp (hlog ▸ List.mem_append_right _ (List.mem_singleton_self event')))
  refine ⟨s.outbox.log.length, order, ?_, hid, hpayload, htraced.fits order hplaced, ?_, ?_, ?_⟩
  · rw [State.fanOut, hlog]
    exact List.getElem?_concat_length
  · exact hlogged.billing.nextId ▸ Site.receivable_send (hclear.billingLimit ▸ hlimit)
  · exact hlogged.shipping.nextId ▸ Site.receivable_send (hclear.shippingLimit ▸ hlimit)
  · exact hlogged.notify.nextId ▸ Site.receivable_send (notifyLimit_of_reaches hreach ▸ hlimit)

theorem entry_of_reaches {key : Nat} (h : (machine config).Reaches C s s')
    (hentry : s.outbox.log[key]? = some event) : s'.outbox.log[key]? = some event := by
  refine h.invariant (I := fun s => s.outbox.log[key]? = some event) hentry fun t action u ht _ hs => ?_
  have hgrows : ∃ new, u.outbox.log = t.outbox.log ++ new := by
    cases step_cases hs with
    | outbox hout | publish hout => exact ⟨_, hout.log⟩
    | billing | shipping | notify => exact ⟨[], (List.append_nil _).symm⟩
  obtain ⟨new, hnew⟩ := hgrows
  rw [hnew, List.getElem?_append_left (List.getElem?_eq_some_iff.mp ht).1]
  exact ht

variable {run : (machine config).Run} {r : Outbox.RelayId} {row : OutboxEvent}

/-- The row is parked at some time. -/
def Parks (run : (machine config).Run) (row : OutboxEvent) : Prop :=
  ∃ n, ∃ row' ∈ (run.state n).outbox.outbox, row'.id = row.id ∧ row'.failedAt ≠ none

/-- One relay drains the row, whatever SNS answers, and what is billed or shipped lasts. -/
structure Drained (run : (machine config).Run) (r : Outbox.RelayId) (row : OutboxEvent) (limit : Nat) :
    Prop where
  start : (machine config).Reaches Lasting (.empty limit) (run.state 0)
  relay : Outbox.Drains (outboxRun run) r row
  lasting : run.Within Lasting

theorem Drained.reaches (h : Drained run r row limit) (k : Nat) :
    (machine config).Reaches Lasting (.empty limit) (run.state k) :=
  h.start.trans (h.lasting.reaches (Nat.zero_le k))

theorem Drained.exists_published (h : Drained run r row limit) (hlimit : 0 < limit)
    (hmem : row ∈ (run.state 0).outbox.outbox)
    (hsel : Relay.Selectable ((run.state 0).outbox.relays r).config.maxAttempts row) :
    Parks run row ∨
      ∃ k key event order, Published (run.state k) key event order ∧ event.facts = row.facts := by
  have hunit := (traced_of_reaches h.start).unit
  rcases Outbox.exists_accepted h.relay hunit hmem hsel with
    hparked | ⟨-, k, -, action, event, hshown, hacc, hid⟩
  · exact .inl hparked
  · have hmem' := (sound_of_reaches (h.reaches k)).inv.accepted hacc
    obtain ⟨row', hrow', hfacts, -⟩ := Outbox.survives_of_reaches
      (Outbox.tracked_of_reaches (outbox_of_reaches h.start))
      (outbox_of_reaches (h.lasting.reaches (Nat.zero_le k))) hmem
    have hkeyed := (sound_of_reaches (h.reaches k)).inv.keyed
    obtain rfl : event = row' :=
      hkeyed.eq_of_mem hmem' hrow' (hid.trans (congrArg Prod.fst hfacts).symm)
    obtain ⟨step, haction, hstep⟩ := Option.bind_eq_some_iff.mp hshown
    cases step with
    | outbox step bodies =>
      cases hstep
      obtain ⟨key, order, hpublished⟩ :=
        published_of_accepted hlimit (h.reaches k) (run.step_of_action haction) hacc
      exact .inr ⟨k + 1, key, _, order, hpublished, hfacts⟩
    | _ => cases hstep

end System

end OutboxFanout
