import Mathlib.Data.List.Sort
import OutboxFanout.Order.Models
import OutboxFanout.Shared.Db

/-!
# One poll of the relay

`relay/service.py` as one relay runs it with the database to itself: a
transaction is a state change that an exception discards, and what the outside
world contributes to a poll (the order in which the database meets equal
`created_at` values, the answer to each publish, the clock) is a `Poll`.
`Relay/Interleaving.lean` takes the same functions apart into the steps that
several relays interleave.
-/

namespace OutboxFanout.Relay

/-- The settings of `shared/config.py` the relay reads. -/
structure Config where
  batchSize : Nat
  maxAttempts : Nat
  crashAfterPublish : Bool
  deriving DecidableEq, Repr

def permanentSnsErrors : List String :=
  ["InvalidParameter", "InvalidParameterValue", "ParameterValueInvalid", "EntityTooLarge",
    "AuthorizationError", "InvalidSecurity", "KMSAccessDenied", "KMSInvalidStateException"]

def isPermanent (exc : Exc) : Bool :=
  match exc.errorCode with
  | some code => permanentSnsErrors.contains code
  | none => false

def connectTimeout : Exc :=
  .plain "ConnectTimeoutError" "Connect timeout on endpoint URL"

def invalidParameter : Exc where
  typeName := "InvalidParameterException"
  message := "An error occurred (InvalidParameter) when calling the Publish operation"
  errorCode := some "InvalidParameter"

example : isPermanent connectTimeout = false ∧ isPermanent invalidParameter = true := by decide

/-- `f"{type(exc).__name__}: {exc}"[:500]`. -/
def failureReason (exc : Exc) : String :=
  String.ofList ((exc.typeName ++ ": " ++ exc.message).toList.take 500)

/-- The conditions under which `pending_event_ids` selects a row. -/
def Selectable (maxAttempts : Nat) (row : OutboxEvent) : Prop :=
  row.published = false ∧ row.failedAt = none ∧ row.attempts < maxAttempts

instance : DecidablePred (Selectable maxAttempts) := fun _ => by
  unfold Selectable; infer_instance

/-- `rows` come as the database scans them: `ORDER BY created_at` leaves rows
with equal times in that order. -/
def pendingEventIds (maxAttempts limit : Nat) (rows : List OutboxEvent) : List UUID :=
  (((rows.filter (Selectable maxAttempts)).insertionSort (·.createdAt ≤ ·.createdAt)).take limit).map
    (·.id)

/-- Both updates of `record_failure` on its row. -/
def recordedFailure (maxAttempts : Nat) (exc : Exc) (permanent : Bool) (now : Datetime)
    (row : OutboxEvent) : OutboxEvent :=
  let row := row.countFailure (failureReason exc)
  if permanent || maxAttempts ≤ row.attempts then row.park now else row

theorem recordedFailure_id : (recordedFailure limit exc permanent now row).id = row.id := by
  simp only [recordedFailure]
  split <;> rfl

theorem recordedFailure_createdAt :
    (recordedFailure limit exc permanent now row).createdAt = row.createdAt := by
  simp only [recordedFailure]
  split <;> rfl

theorem recordedFailure_facts :
    (recordedFailure limit exc permanent now row).facts = row.facts := by
  simp only [recordedFailure]
  split <;> rfl

theorem recordedFailure_published :
    (recordedFailure limit exc permanent now row).published = row.published := by
  simp only [recordedFailure]
  split <;> rfl

theorem recordedFailure_attempts :
    (recordedFailure limit exc permanent now row).attempts = row.attempts + 1 := by
  simp only [recordedFailure]
  split <;> rfl

theorem recordedFailure_failedAt :
    (recordedFailure limit exc permanent now row).failedAt = none ↔
      row.failedAt = none ∧ permanent = false ∧ row.attempts + 1 < limit := by
  simp only [recordedFailure, OutboxEvent.countFailure_attempts]
  cases permanent <;> by_cases hle : limit ≤ row.attempts + 1 <;> simp [hle]
  exact fun _ => Nat.not_le.mp hle

-- ---------------------------------------------------------------------------
-- The source functions
-- ---------------------------------------------------------------------------

abbrev Db := OutboxFanout.Db (List OutboxEvent)

/-- What one poll meets outside the table. `publish` is the outcome of
`publisher.publish` on a row. -/
structure Poll where
  scan : List OutboxEvent → List OutboxEvent
  scan_perm : ∀ rows, (scan rows).Perm rows
  publish : OutboxEvent → Except Exc String
  now : UUID → Datetime

variable (config : Config) (poll : Poll)

def recordFailure (eventId : UUID) (exc : Exc) (permanent : Bool) : Db Nat := sessionScope do
  modify (Rows.update OutboxEvent.id eventId (·.countFailure (failureReason exc)))
  match (← get).find? (·.id = eventId) with
  | none => throw (.plain "NoResultFound" "No row was found when one was required")
  | some row =>
    if permanent || config.maxAttempts ≤ row.attempts then
      modify (Rows.update OutboxEvent.id eventId (·.park (poll.now eventId)))
    return row.attempts

/-- The lock is free here, so `SKIP LOCKED` skips nothing, and the relay runs
without `CRASH_AFTER_PUBLISH`. -/
def relayOne (eventId : UUID) : Db Bool := sessionScope do
  match (← get).find? fun row => row.id = eventId ∧ row.published = false with
  | none => return false
  | some event =>
    let _ ← poll.publish event
    modify (Rows.update OutboxEvent.id event.id (·.mark (poll.now eventId)))
    return true

/-- The `for event_id in event_ids` loop; `published` is its counter. -/
def relayBatch.loop : List UUID → (published : Nat) → Db Nat
  | [], published => return published
  | eventId :: eventIds, published => do
    match ← caught (relayOne poll eventId) with
    | .ok true => loop eventIds (published + 1)
    | .ok false => loop eventIds published
    | .error exc =>
      let permanent := isPermanent exc
      let _ ← recordFailure config poll eventId exc permanent
      if permanent then loop eventIds published else return published

def relayBatch : Db (Nat × Nat) := do
  let eventIds ← sessionScope do
    return pendingEventIds config.maxAttempts config.batchSize (poll.scan (← get))
  if eventIds.isEmpty then return (0, 0)
  let published ← relayBatch.loop config poll eventIds 0
  return (published, eventIds.length)

/-- The table after one poll. -/
def afterPoll (rows : List OutboxEvent) : List OutboxEvent := ((relayBatch config poll).run rows).2

end OutboxFanout.Relay
