import OutboxFanout.Numbers
import OutboxFanout.Shared.Consumer

/-!
# Notifications

`notifications/service.py`: claim the order's key in Redis, send, release the
claim if the send raised. Redis executes one command at a time and drops a key
when its deadline has passed. `claims` numbers the SETs that set their key and
`history` records what happened; no step reads either.
-/

namespace OutboxFanout.Notifications

structure Config where
  -- NOTIFY_DEDUP_TTL_SECONDS
  ttlSeconds : Nat
  -- CRASH_AFTER_MARK
  crashAfterMark : Bool

structure Entry where
  key : String
  value : String
  -- in milliseconds, as the clock
  deadline : Nat
  claim : Nat
  deriving DecidableEq, Repr

inductive Event where
  | claimed (key : String) (claim : Nat) (now : Nat)
  -- SET found the key set by this claim
  | duplicate (key : String) (claim : Nat)
  | sent (key : String) (claim : Nat) (now : Nat)
  -- DEL by the call of this claim removed the key set by `removed`
  | released (key : String) (claim : Nat) (removed : Nat)
  deriving DecidableEq, Repr

structure Store where
  now : Nat
  entries : List Entry
  claims : Nat
  history : List Event

def Store.empty : Store := ⟨0, [], 0, []⟩

def Store.find (store : Store) (key : String) : Option Entry := store.entries.find? (·.key = key)

def Store.note (store : Store) (event : Event) : Store :=
  { store with history := event :: store.history }

/-- `_key`. -/
def notifyKey (orderId : String) : String := "notify:processed:" ++ orderId

/-- A value redis-py sends: text or a number. -/
def redisValue : Json → Except Exc String
  | .str text => .ok text
  | .num literal => .ok (Number.ofLiteral literal).str
  | _ => .error (.plain "DataError" "Invalid input of type")

/-- A call of `handle`, from one answer to the next. -/
inductive Call where
  | claiming (key value : String) (payload : Json)
  -- SET answered None, the GET for the log comes next
  | duplicate (key : String)
  | claimed (key : String) (claim : Nat) (payload : Json)
  -- the send raised, the DEL comes next
  | releasing (key : String) (claim : Nat) (exc : Exc)

/-- How a Redis command ended. -/
inductive Reply where
  | ok
  | refused (exc : Exc)
  -- Redis executed it, the call raised
  | lost (exc : Exc)
  deriving DecidableEq, Repr

inductive Answer where
  | set (reply : Reply)
  | get (reply : Reply)
  | send (result : Except Exc Unit)
  | del (reply : Reply)

/-- The members `_send_notification` reads. -/
def sendable (payload : Json) : Except Exc Unit := do
  let _ ← getItem payload "customer_id"
  let _ ← getItem payload "item"
  let _ ← getItem payload "amount"

/-- `_key(event["payload"]["order_id"])`. -/
def keyOf (event : Json) : Except Exc String := do
  let payload ← getItem event "payload"
  return notifyKey (formatted (← getItem payload "order_id"))

/-- `handle` up to the SET. -/
def start (event : Json) : Except Exc Call := do
  let key ← keyOf event
  let payload ← getItem event "payload"
  let value ← redisValue (← getItem event "event_id")
  return .claiming key value payload

variable (config : Config)

/-- A SET that finds the key free. -/
def Store.claim (store : Store) (key value : String) : Store :=
  { store.note (.claimed key store.claims store.now) with
    entries := ⟨key, value, store.now + 1000 * config.ttlSeconds, store.claims⟩ :: store.entries
    claims := store.claims + 1 }

/-- `SET key value NX EX ttl`. -/
def Store.set (store : Store) (key value : String) : Store :=
  match store.find key with
  | some entry => store.note (.duplicate key entry.claim)
  | none => store.claim config key value

/-- `DEL key`, by the call of `claim`. -/
def Store.del (store : Store) (key : String) (claim : Nat) : Store :=
  match store.find key with
  | some entry =>
    { store.note (.released key claim entry.claim) with
      entries := store.entries.filter (·.key ≠ key) }
  | none => store

/-- Time passes. -/
def Store.tick (store : Store) (n : Nat) : Store :=
  { store with
    now := store.now + n
    entries := store.entries.filter fun entry => store.now + n ≤ entry.deadline }

def step (store : Store) : Call → Answer → Option (Store × Progress Call)
  | .claiming key value payload, .set reply =>
    match reply with
    | .refused exc => some (store, .raised exc)
    | .lost exc => some (store.set config key value, .raised exc)
    | .ok =>
      some (store.set config key value, .continues <| match store.find key with
        | some _ => .duplicate key
        | none => .claimed key store.claims payload)
  | .duplicate _, .get .ok => some (store, .returned)
  | .duplicate _, .get (.refused exc) => some (store, .raised exc)
  | .duplicate _, .get (.lost exc) => some (store, .raised exc)
  | .claimed key claim payload, .send result =>
    -- os._exit leaves nothing but the kill
    if config.crashAfterMark then none
    else match sendable payload, result with
      | .error exc, _ => some (store, .continues (.releasing key claim exc))
      | .ok _, .error exc => some (store, .continues (.releasing key claim exc))
      | .ok _, .ok _ => some (store.note (.sent key claim store.now), .returned)
  | .releasing key claim exc, .del reply =>
    match reply with
    | .refused exc' => some (store, .raised exc')
    | .lost exc' => some (store.del key claim, .raised exc')
    | .ok => some (store.del key claim, .raised exc)
  | _, _ => none

def handle : Handler Store Call Answer Nat where
  start := start
  step := step config
  die store _ := store
  env store n := some (store.tick n)

end OutboxFanout.Notifications
