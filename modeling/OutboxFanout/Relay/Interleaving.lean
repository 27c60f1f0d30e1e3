import Mathlib.Logic.Function.Basic
import OutboxFanout.Lib.Machine
import OutboxFanout.Relay.Service

/-!
# Relays and order requests, interleaved

One step is what a process does between two points at which another process
may run: a statement or a commit answered by the database, or a publish
answered by SNS. Each step names how its call ended (done, raised without
effect, raised although the server had applied it), and any relay may be
killed before any step.

Row locks are those of the relays' open transactions. `SELECT … FOR UPDATE
SKIP LOCKED` reads the latest committed row and steps over a locked one; an
`UPDATE` waits for the lock, so its step is taken only when the lock is free.
A transaction that holds a row's lock is the only writer of the row, so its
writes are applied where it commits.
-/

namespace OutboxFanout.Outbox

open Relay

abbrev RelayId := Nat
abbrev RequestId := Nat

-- ---------------------------------------------------------------------------
-- The state
-- ---------------------------------------------------------------------------

/-- Where a relay stands. `ids` is what is left of the batch. -/
inductive RelayPc
  | down
  | idle
  | batch (ids : List UUID)
  -- relay_one: the SELECT returned nothing; its transaction is still to be committed
  | skipped (id : UUID) (ids : List UUID)
  -- relay_one: the row is locked, the publish comes next
  | locked (event : OutboxEvent) (ids : List UUID)
  -- relay_one: the publish returned, the mark is not committed
  | accepted (event : OutboxEvent) (ids : List UUID)
  -- relay_batch: relay_one raised and is rolled back, record_failure comes next
  | failed (id : UUID) (exc : Exc) (ids : List UUID)
  -- record_failure: its UPDATE holds the row, its commit comes next
  | recording (id : UUID) (exc : Exc) (ids : List UUID)

/-- The row lock an open transaction holds. -/
def RelayPc.holds : RelayPc → Option UUID
  | .locked event _ | .accepted event _ => some event.id
  | .recording id _ _ => some id
  | _ => none

structure RelayProcess where
  config : Config
  pc : RelayPc

def RelayProcess.running (p : RelayProcess) : Bool :=
  match p.pc with
  | .down => false
  | _ => true

/-- A `POST /orders` transaction before its commit. -/
inductive RequestPc
  | idle
  | staged (order : Order) (event : StagedEvent)
  | flushed (order : Order) (row : OutboxEvent)

/-- The history no step reads. -/
inductive Event
  -- SNS accepted a publish of the row
  | accepted (row : OutboxEvent)
  -- … in a call that raised all the same
  | lostAck (id : UUID)
  -- … and the relay died before its commit
  | died (id : UUID)
  -- … and the commit raised
  | commitFailed (id : UUID)
  -- record_failure committed
  | recorded (id : UUID) (permanent : Bool)

structure State where
  orders : List Order
  outbox : List OutboxEvent
  locks : UUID → Option RelayId
  relays : RelayId → RelayProcess
  requests : RequestId → RequestPc
  history : List Event

def State.lock (s : State) (id : UUID) (r : RelayId) : State :=
  { s with locks := Function.update s.locks id (some r) }

def State.unlock (s : State) (id : UUID) : State :=
  { s with locks := Function.update s.locks id none }

def State.write (s : State) (id : UUID) (f : OutboxEvent → OutboxEvent) : State :=
  { s with outbox := Rows.update OutboxEvent.id id f s.outbox }

def State.goto (s : State) (r : RelayId) (pc : RelayPc) : State :=
  { s with relays := Function.update s.relays r { s.relays r with pc } }

def State.note (s : State) (event : Event) : State :=
  { s with history := event :: s.history }

def State.request (s : State) (q : RequestId) (pc : RequestPc) : State :=
  { s with requests := Function.update s.requests q pc }

/-- The relay process is gone: its transaction ends without effect. -/
def State.kill (s : State) (r : RelayId) : State :=
  match (s.relays r).pc with
  | .locked event _ => (s.unlock event.id).goto r .down
  | .accepted event _ => ((s.unlock event.id).note (.died event.id)).goto r .down
  | .recording id _ _ => (s.unlock id).goto r .down
  | _ => s.goto r .down

/-- Nothing is running; the table may hold anything. -/
structure State.Initial (s : State) : Prop where
  keyed : Rows.Keyed OutboxEvent.id s.outbox
  locks : ∀ id, s.locks id = none
  relays : ∀ r, (s.relays r).pc = .down
  requests : ∀ q, s.requests q = .idle
  history : s.history = []

def State.holding (rows : List OutboxEvent) : State where
  orders := []
  outbox := rows
  locks := fun _ => none
  relays := fun _ => ⟨⟨0, 0, false⟩, .down⟩
  requests := fun _ => .idle
  history := []

theorem State.holding_initial (h : Rows.Keyed OutboxEvent.id rows) : (State.holding rows).Initial :=
  ⟨h, fun _ => rfl, fun _ => rfl, fun _ => rfl, rfl⟩

/-- The state of a new deployment. -/
def State.empty : State := .holding []

theorem State.empty_initial : State.empty.Initial := State.holding_initial List.nodup_nil

-- ---------------------------------------------------------------------------
-- Steps
-- ---------------------------------------------------------------------------

/-- How a publish call ended. -/
inductive Answer
  | accepted
  | refused (exc : Exc)
  -- SNS accepted the message, the call raised
  | lost (exc : Exc)
  deriving DecidableEq, Repr

inductive RelayAction
  | start (config : Config)
  | kill
  -- pending_event_ids, with the order in which the database scans the rows
  | poll (scan : List UUID)
  | endPoll
  -- relay_one's SELECT … FOR UPDATE SKIP LOCKED
  | select
  | selectFails (error : DbError)
  | publish (answer : Answer)
  | commit (outcome : Commit) (now : Datetime)
  -- record_failure's UPDATE … RETURNING
  | record
  | recordFails (error : DbError)

inductive Action
  | relay (r : RelayId) (action : RelayAction)
  -- create_order stages both objects
  | post (q : RequestId) (breakOutboxInsert : Bool) (id : UUID) (now : Datetime) (data : OrderCreate)
  | flush (q : RequestId) (eventId : UUID) (now : Datetime)
  | commitOrder (q : RequestId)
  -- the flush or the commit fails without effect, or the process is killed
  | abort (q : RequestId)
  -- an operator's UPDATE outbox SET failed_at = NULL WHERE id = …
  | clearFailedAt (id : UUID)

def relayStep (s : State) (r : RelayId) (action : RelayAction) : Option State :=
  let config := (s.relays r).config
  match action, (s.relays r).pc with
  | .start config, .down =>
    some { s with relays := Function.update s.relays r ⟨config, .idle⟩ }
  | .kill, _ => some (s.kill r)
  | .poll scan, .idle =>
    if scan.Perm (s.outbox.map (·.id)) then
      let rows := scan.filterMap fun id => s.outbox.find? (·.id = id)
      some (s.goto r (.batch (pendingEventIds config.maxAttempts config.batchSize rows)))
    else none
  | .endPoll, .batch [] => some (s.goto r .idle)
  | .select, .batch (id :: ids) =>
    match s.locks id, s.outbox.find? fun row => row.id = id ∧ row.published = false with
    | none, some event => some ((s.lock id r).goto r (.locked event ids))
    | _, _ => some (s.goto r (.skipped id ids))
  | .selectFails error, .batch (id :: ids) => some (s.goto r (.failed id error.exc ids))
  | .commit .done _, .skipped _ ids => some (s.goto r (.batch ids))
  | .commit (.refused error) _, .skipped id ids => some (s.goto r (.failed id error.exc ids))
  | .commit (.lost error) _, .skipped id ids => some (s.goto r (.failed id error.exc ids))
  | .publish .accepted, .locked event ids =>
    some ((s.note (.accepted event)).goto r (.accepted event ids))
  | .publish (.refused exc), .locked event ids =>
    some ((s.unlock event.id).goto r (.failed event.id exc ids))
  | .publish (.lost exc), .locked event ids =>
    some ((((s.unlock event.id).note (.accepted event)).note (.lostAck event.id)).goto r
      (.failed event.id exc ids))
  | .commit outcome now, .accepted event ids =>
    -- _crash_now leaves nothing but the kill
    if config.crashAfterPublish then none
    else match outcome with
    | .done => some (((s.write event.id (·.mark now)).unlock event.id).goto r (.batch ids))
    | .refused error =>
      some (((s.unlock event.id).note (.commitFailed event.id)).goto r
        (.failed event.id error.exc ids))
    | .lost error =>
      some ((((s.write event.id (·.mark now)).unlock event.id).note (.commitFailed event.id)).goto r
        (.failed event.id error.exc ids))
  | .record, .failed id exc ids =>
    match s.locks id, s.outbox.find? (·.id = id) with
    | none, some _ => some ((s.lock id r).goto r (.recording id exc ids))
    -- scalar_one() finds no row: the exception leaves relay_batch
    | none, none => some (s.goto r .idle)
    | some _, _ => none
  | .recordFails _, .failed _ _ _ => some (s.goto r .idle)
  | .commit .done now, .recording id exc ids =>
    some ((((s.write id (recordedFailure config.maxAttempts exc (isPermanent exc) now)).unlock id).note
      (.recorded id (isPermanent exc))).goto r (if isPermanent exc then .batch ids else .idle))
  | .commit (.refused _) _, .recording id _ _ => some ((s.unlock id).goto r .idle)
  | .commit (.lost _) now, .recording id exc _ =>
    some ((((s.write id (recordedFailure config.maxAttempts exc (isPermanent exc) now)).unlock id).note
      (.recorded id (isPermanent exc))).goto r .idle)
  | _, _ => none

/-- Both INSERTs find their keys free. -/
def State.KeysFree (s : State) (order : Order) (row : OutboxEvent) : Prop :=
  order.id ∉ s.orders.map (·.id) ∧ row.id ∉ s.outbox.map (·.id)

instance (s : State) (order : Order) (row : OutboxEvent) : Decidable (s.KeysFree order row) := by
  unfold State.KeysFree; infer_instance

def step (s : State) : Action → Option State
  | .relay r action => relayStep s r action
  | .post q breakOutboxInsert id now data =>
    match s.requests q with
    | .idle =>
      let (order, event) := createOrder breakOutboxInsert id now data
      some (s.request q (.staged order event))
    | _ => none
  | .flush q eventId now =>
    match s.requests q with
    | .staged order event =>
      match event.row eventId now with
      | some row =>
        -- a taken key is an IntegrityError, which rolls both inserts back
        some (s.request q (if s.KeysFree order row then .flushed order row else .idle))
      | none => some (s.request q .idle)
    | _ => none
  | .commitOrder q =>
    match s.requests q with
    | .flushed order row =>
      if s.KeysFree order row then
        some ({ s with orders := s.orders ++ [order], outbox := s.outbox ++ [row] }.request q .idle)
      else none
    | _ => none
  | .abort q => some (s.request q .idle)
  | .clearFailedAt id =>
    if s.locks id = none then some (s.write id ({ · with failedAt := none })) else none

/-- The row whose publish SNS accepts in this step. -/
def accepted? (s : State) : Action → Option OutboxEvent
  | .relay r (.publish answer) =>
    match (s.relays r).pc, answer with
    | .locked event _, .accepted => some event
    | .locked event _, .lost _ => some event
    | _, _ => none
  | _ => none

def machine : Machine State Action := ⟨step⟩

end OutboxFanout.Outbox
