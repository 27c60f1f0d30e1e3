import OutboxFanout.Billing.Service
import OutboxFanout.Notifications.Service
import OutboxFanout.Relay.Interleaving
import OutboxFanout.Relay.Publisher
import OutboxFanout.Shipping.Service

/-!
# The whole system

Requests and relays on the outbox, and the three consumers behind their
queues. The topic and its subscriptions exist throughout: a publish that SNS
accepts puts one copy into each of the three queues, under a body of SNS's
choosing that carries the message.
-/

namespace OutboxFanout.System

abbrev BillingSite := Site (Table Billing.BillingRecord) (Insert Billing.Values Billing.BillingRecord)
abbrev ShippingSite := Site (Table Shipping.Shipment) (Insert Shipping.Values Shipping.Shipment)
abbrev NotifySite := Site Notifications.Store Notifications.Call

structure State where
  outbox : Outbox.State
  billing : BillingSite
  shipping : ShippingSite
  notify : NotifySite

/-- The bodies of the three copies of a publish. -/
structure Bodies where
  billing : String
  shipping : String
  notify : String

inductive Action where
  | outbox (action : Outbox.Action) (bodies : Bodies)
  | billing (action : SiteAction (InsertAnswer Billing.Draws) TableEvent)
  | shipping (action : SiteAction (InsertAnswer Shipping.Draws) TableEvent)
  | notify (action : SiteAction Notifications.Answer Nat)

def Bodies.Carry (bodies : Bodies) (event : OutboxEvent) : Prop :=
  Carries bodies.billing event ∧ Carries bodies.shipping event ∧ Carries bodies.notify event

instance : Decidable (Bodies.Carry bodies event) := by unfold Bodies.Carry; infer_instance

def State.fanOut (s : State) (bodies : Bodies) : State :=
  { s with
    billing := { s.billing with queue := s.billing.queue.send bodies.billing }
    shipping := { s.shipping with queue := s.shipping.queue.send bodies.shipping }
    notify := { s.notify with queue := s.notify.queue.send bodies.notify } }

/-- Only SNS puts messages into the queues. -/
def ownStep (handler : Handler σ η α ε) (site : Site σ η) : SiteAction α ε → Option (Site σ η)
  | .deliver _ => none
  | action => site.step handler action

variable (config : Notifications.Config)

def step (s : State) : Action → Option State
  | .outbox action bodies =>
    (Outbox.step s.outbox action).bind fun outbox =>
      match Outbox.accepted? s.outbox action with
      | none => some { s with outbox }
      | some event => if bodies.Carry event then some ({ s with outbox }.fanOut bodies) else none
  | .billing action => (ownStep Billing.handle s.billing action).map fun billing => { s with billing }
  | .shipping action =>
    (ownStep Shipping.handle s.shipping action).map fun shipping => { s with shipping }
  | .notify action =>
    (ownStep (Notifications.handle config) s.notify action).map fun notify => { s with notify }

def machine : Machine State Action := ⟨step config⟩

/-- A new deployment; `limit` is every queue's maxReceiveCount. -/
def State.empty (limit : Nat) : State where
  outbox := .empty
  billing := .empty limit .empty
  shipping := .empty limit .empty
  notify := .empty limit .empty

end OutboxFanout.System
