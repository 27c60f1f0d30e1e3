import Mathlib.Logic.Function.Basic
import OutboxFanout.Lib.Machine
import OutboxFanout.Lib.Queue
import OutboxFanout.Shared.Messages

/-!
# The receive, handle, delete loop

`shared/consumer.py`, run by any number of processes on one queue. What a
message means is the `Handler`'s: a call of it proceeds from one answer of its
store to the next, and ends by returning or raising. One step of the loop is
what it does up to the next answer of the queue or the store, or to the next
look at the shutdown event.
-/

namespace OutboxFanout

inductive Progress (η : Type) where
  | continues (call : η)
  | returned
  | raised (exc : Exc)

/-- `σ` is the store, `η` a call between two answers, `α` what an answer leaves
open, `ε` what happens to the store from outside. -/
structure Handler (σ η α ε : Type) where
  start : Json → Except Exc η
  step : σ → η → α → Option (σ × Progress η)
  -- the store once the process is gone
  die : σ → η → σ
  env : σ → ε → Option σ

structure ConsumerConfig where
  -- SQS_MAX_MESSAGES
  maxMessages : Nat
  -- the nesting json.loads reads
  depth : Nat

inductive ConsumerPc (η : Type) where
  | down
  | polling
  | batch (rest : List (Delivery String))
  | handling (delivery : Delivery String) (event : Json) (call : η) (rest : List (Delivery String))
  -- the handler returned, delete_message comes next
  | deleting (delivery : Delivery String) (event : Json) (rest : List (Delivery String))

/-- The call of the handler in progress. -/
def ConsumerPc.call? : ConsumerPc η → Option η
  | .handling _ _ call _ => some call
  | _ => none

structure Consumer (η : Type) where
  config : ConsumerConfig
  pc : ConsumerPc η
  shutdown : Bool

abbrev ConsumerId := Nat

/-- A queue, the store of its service, and the processes of the service. -/
structure Site (σ η : Type) where
  queue : Queue String
  store : σ
  consumers : ConsumerId → Consumer η
  -- the messages _handle_one was called on; no step reads it
  tried : List Nat

inductive ConsumerAction (α : Type) where
  | start (config : ConsumerConfig)
  | kill
  -- SIGTERM or SIGINT
  | stop
  | exit
  -- a receive that is not answered raises, with the messages in flight
  | receive (ids : List Nat) (answered : Bool)
  | next
  | handle (answer : α)
  -- a receipt that is not the latest need not remove the message
  | delete (raised removed : Bool)

inductive SiteAction (α ε : Type) where
  | consumer (c : ConsumerId) (action : ConsumerAction α)
  | deliver (body : String)
  | expire (id : Nat)
  | redrive (id : Nat)
  | env (event : ε)

variable {σ η α ε : Type}

def Site.put (s : Site σ η) (c : ConsumerId) (p : Consumer η) : Site σ η :=
  { s with consumers := Function.update s.consumers c p }

def Site.goto (s : Site σ η) (c : ConsumerId) (pc : ConsumerPc η) : Site σ η :=
  s.put c { s.consumers c with pc }

@[simp] theorem Site.put_queue {s : Site σ η} : (s.put c p).queue = s.queue := rfl
@[simp] theorem Site.put_store {s : Site σ η} : (s.put c p).store = s.store := rfl

@[simp] theorem Site.goto_queue {s : Site σ η} : (s.goto c pc).queue = s.queue := rfl
@[simp] theorem Site.goto_store {s : Site σ η} : (s.goto c pc).store = s.store := rfl

/-- What holds of the process that moves on and of all the others holds of every one. -/
theorem Site.forall_put {s : Site σ η} {P : ConsumerPc η → Prop} (hp : P p.pc)
    (hother : ∀ c, P (s.consumers c).pc) (c' : ConsumerId) : P ((s.put c p).consumers c').pc := by
  by_cases hc : c' = c
  · subst hc
    simpa [Site.put] using hp
  · simpa [Site.put, hc] using hother c'

/-- The `try` of `_handle_one`. -/
def parseBody (depth : Nat) (body : String) : Except Exc Json := do
  let event ← unwrap depth body
  let _ ← getItem event "event_id"
  return event

/-- `_handle_one` up to the handler's first call of its store. Whatever raises
here leaves the message on the queue and the loop at the next message. -/
def Handler.open_ (handler : Handler σ η α ε) (depth : Nat) (delivery : Delivery String)
    (rest : List (Delivery String)) : ConsumerPc η :=
  match parseBody depth delivery.body with
  | .error _ => .batch rest
  | .ok event =>
    match handler.start event with
    | .error _ => .batch rest
    | .ok call => .handling delivery event call rest

@[elab_as_elim]
theorem Handler.open_cases {handler : Handler σ η α ε} {P : ConsumerPc η → Prop}
    (hskip : P (.batch rest))
    (hcall : ∀ event call, parseBody depth delivery.body = .ok event →
      handler.start event = .ok call → P (.handling delivery event call rest)) :
    P (handler.open_ depth delivery rest) := by
  unfold Handler.open_
  split
  next => exact hskip
  next event hparse =>
    split
    next => exact hskip
    next call hstart => exact hcall event call hparse hstart

def Progress.pc (delivery : Delivery String) (event : Json) (rest : List (Delivery String)) :
    Progress η → ConsumerPc η
  | .continues call => .handling delivery event call rest
  | .returned => .deleting delivery event rest
  | .raised _ => .batch rest

variable (handler : Handler σ η α ε)

def Site.consumerStep (s : Site σ η) (c : ConsumerId) (action : ConsumerAction α) :
    Option (Site σ η) :=
  let consumer := s.consumers c
  match action, consumer.pc with
  | .start config, .down => some (s.put c ⟨config, .polling, false⟩)
  | .kill, .handling _ _ call _ =>
    some ({ s with store := handler.die s.store call }.goto c .down)
  | .kill, _ => some (s.goto c .down)
  | .stop, _ => some (s.put c { consumer with shutdown := true })
  | .exit, .polling => if consumer.shutdown then some (s.goto c .down) else none
  | .receive ids answered, .polling =>
    if ids.length ≤ consumer.config.maxMessages then
      (s.queue.receive ids).map fun (deliveries, queue) =>
        { s with queue }.goto c (if answered then .batch deliveries else .polling)
    else none
  | .next, .batch [] => some (s.goto c .polling)
  | .next, .batch (delivery :: rest) =>
    if consumer.shutdown then some (s.goto c .polling)
    else
      some ({ s with tried := delivery.id :: s.tried }.goto c
        (handler.open_ consumer.config.depth delivery rest))
  | .handle answer, .handling delivery event call rest =>
    (handler.step s.store call answer).map fun (store, progress) =>
      { s with store }.goto c (progress.pc delivery event rest)
  | .delete raised removed, .deleting delivery _ rest =>
    if raised ∨ removed ∨ ¬s.queue.current delivery then
      some ({ s with queue := if removed then s.queue.delete delivery.id else s.queue }.goto c
        (.batch rest))
    else none
  | _, _ => none

def Site.step (s : Site σ η) : SiteAction α ε → Option (Site σ η)
  | .consumer c action => s.consumerStep handler c action
  | .deliver body => some { s with queue := s.queue.send body }
  | .expire id => (s.queue.expire id).map fun queue => { s with queue }
  | .redrive id => (s.queue.redrive id).map fun queue => { s with queue }
  | .env event => (handler.env s.store event).map fun store => { s with store }

def Site.machine : Machine (Site σ η) (SiteAction α ε) := ⟨fun s action => s.step handler action⟩

theorem Site.step_next {s : Site σ η} {pc : ConsumerPc η}
    (hpc : (s.consumers c).pc = .batch (delivery :: rest)) (hrun : (s.consumers c).shutdown = false)
    (hopen : handler.open_ (s.consumers c).config.depth delivery rest = pc) :
    s.step handler (.consumer c .next) =
      some ({ s with tried := delivery.id :: s.tried }.goto c pc) := by
  simp [Site.step, Site.consumerStep, hpc, hrun, hopen]

theorem Site.step_handle {s : Site σ η} {store : σ} {progress : Progress η}
    (hpc : (s.consumers c).pc = .handling delivery event call rest)
    (hcall : handler.step s.store call answer = some (store, progress)) :
    s.step handler (.consumer c (.handle answer)) =
      some ({ s with store }.goto c (progress.pc delivery event rest)) := by
  simp [Site.step, Site.consumerStep, hpc, hcall]

/-- A new queue over `store`, and no process running. -/
def Site.empty (limit : Nat) (store : σ) : Site σ η where
  queue := .empty limit
  store := store
  consumers := fun _ => ⟨⟨0, 0⟩, .down, false⟩
  tried := []

end OutboxFanout
