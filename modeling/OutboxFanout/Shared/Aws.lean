import Mathlib.Logic.Function.Basic
import OutboxFanout.Lib.Rows
import OutboxFanout.Lib.Script
import OutboxFanout.Python

/-!
# The broker

What SNS and SQS hold, the calls that `shared/aws.py` and `bootstrap/main.py`
make, and which queues get a copy of a published message. An ARN or a URL is
determined by the name it was made from; the id of a subscription is never
used again. An attribute whose value is a JSON text holds what was dumped.
-/

namespace OutboxFanout

structure TopicArn where
  name : String
  deriving DecidableEq, Repr

structure QueueUrl where
  name : String
  deriving DecidableEq, Repr

structure QueueArn where
  name : String
  deriving DecidableEq, Repr

structure SubscriptionArn where
  topic : TopicArn
  id : Nat
  deriving DecidableEq, Repr

-- ---------------------------------------------------------------------------
-- Queues
-- ---------------------------------------------------------------------------

structure Statement where
  sid : String
  effect : String
  principalService : String
  action : String
  resource : QueueArn
  sourceArn : TopicArn
  deriving DecidableEq, Repr

structure QueuePolicy where
  version : String
  statement : List Statement
  deriving DecidableEq, Repr

/-- SNS may write to the queue on behalf of the topic. -/
def QueuePolicy.allows (policy : QueuePolicy) (queue : QueueArn) (topic : TopicArn) : Bool :=
  policy.statement.any fun s => s.effect = "Allow" ∧ s.principalService = "sns.amazonaws.com" ∧
    s.action = "sqs:SendMessage" ∧ s.resource = queue ∧ s.sourceArn = topic

structure RedrivePolicy where
  deadLetterTargetArn : QueueArn
  maxReceiveCount : Int
  deriving DecidableEq, Repr

/-- The attributes of a queue that were set, or those a call sets. -/
structure QueueAttributes where
  visibilityTimeout : Option Int := none
  receiveMessageWaitTimeSeconds : Option Int := none
  messageRetentionPeriod : Option Int := none
  redrivePolicy : Option RedrivePolicy := none
  policy : Option QueuePolicy := none
  deriving DecidableEq, Repr

def QueueAttributes.overwrite (old new : QueueAttributes) : QueueAttributes where
  visibilityTimeout := new.visibilityTimeout <|> old.visibilityTimeout
  receiveMessageWaitTimeSeconds :=
    new.receiveMessageWaitTimeSeconds <|> old.receiveMessageWaitTimeSeconds
  messageRetentionPeriod := new.messageRetentionPeriod <|> old.messageRetentionPeriod
  redrivePolicy := new.redrivePolicy <|> old.redrivePolicy
  policy := new.policy <|> old.policy

-- ---------------------------------------------------------------------------
-- Topics
-- ---------------------------------------------------------------------------

/-- The only attribute filtered on. -/
structure FilterPolicy where
  eventType : List String
  deriving DecidableEq, Repr

structure Subscription where
  id : Nat
  endpoint : QueueArn
  filterPolicy : Option FilterPolicy
  deriving DecidableEq, Repr

def Subscription.setFilterPolicy (policy : FilterPolicy) (s : Subscription) : Subscription :=
  { s with filterPolicy := some policy }

/-- Without a filter policy every message passes. -/
def Subscription.accepts (s : Subscription) (eventType : String) : Bool :=
  s.filterPolicy.all (·.eventType.contains eventType)

structure Topic where
  subscriptions : List Subscription
  keyed : Rows.Keyed Subscription.endpoint subscriptions

def Topic.empty : Topic := ⟨[], List.nodup_nil⟩

def Topic.subscribe (t : Topic) (id : Nat) (endpoint : QueueArn)
    (hfree : ∀ s ∈ t.subscriptions, s.endpoint ≠ endpoint) : Topic where
  subscriptions := t.subscriptions ++ [⟨id, endpoint, none⟩]
  keyed := t.keyed.append hfree

def Topic.setFilterPolicy (t : Topic) (id : Nat) (policy : FilterPolicy) : Topic where
  subscriptions := Rows.update Subscription.id id (·.setFilterPolicy policy) t.subscriptions
  keyed := by
    have hkeys : (Rows.update Subscription.id id (·.setFilterPolicy policy) t.subscriptions).map
        Subscription.endpoint = t.subscriptions.map Subscription.endpoint :=
      Rows.map_update fun _ => rfl
    simpa only [Rows.Keyed, hkeys] using t.keyed

-- ---------------------------------------------------------------------------
-- Calls
-- ---------------------------------------------------------------------------

structure Broker where
  topics : String → Option Topic
  queues : String → Option QueueAttributes
  nextId : Nat

/-- A broker that has just started; `nextId` outlives a restart. -/
def Broker.empty (nextId : Nat) : Broker := ⟨fun _ => none, fun _ => none, nextId⟩

inductive AwsCall where
  | createTopic (name : String)
  | createQueue (name : String)
  | setQueueAttributes (url : QueueUrl) (attributes : QueueAttributes)
  | getQueueAttributes (url : QueueUrl)
  | getQueueUrl (name : String)
  | subscribe (topic : TopicArn) (endpoint : QueueArn)
  | setFilterPolicy (subscription : SubscriptionArn) (policy : FilterPolicy)
  | listSubscriptionsByTopic (topic : TopicArn)

abbrev AwsCall.Reply : AwsCall → Type
  | .createTopic _ => TopicArn
  | .createQueue _ | .getQueueUrl _ => QueueUrl
  | .setQueueAttributes .. | .setFilterPolicy .. => Unit
  | .getQueueAttributes _ => QueueArn × QueueAttributes
  | .subscribe .. => SubscriptionArn
  | .listSubscriptionsByTopic _ => List Subscription

abbrev Aws := Script AwsCall AwsCall.Reply

def topicNotFound : Exc where
  typeName := "NotFoundException"
  message := "An error occurred (NotFound): Topic does not exist"
  errorCode := some "NotFound"

def nonExistentQueue : Exc where
  typeName := "QueueDoesNotExist"
  message := "An error occurred (AWS.SimpleQueueService.NonExistentQueue)"
  errorCode := some "AWS.SimpleQueueService.NonExistentQueue"

def Broker.putTopic (b : Broker) (name : String) (topic : Topic) : Broker :=
  { b with topics := Function.update b.topics name (some topic) }

def Broker.putQueue (b : Broker) (name : String) (attributes : QueueAttributes) : Broker :=
  { b with queues := Function.update b.queues name (some attributes) }

def Broker.createTopic (b : Broker) (name : String) : Broker :=
  b.putTopic name ((b.topics name).getD .empty)

def Broker.answer : Service Broker AwsCall AwsCall.Reply Exc := fun b call =>
  match call with
  | .createTopic name => .ok (⟨name⟩, b.createTopic name)
  | .createQueue name => .ok (⟨name⟩, b.putQueue name ((b.queues name).getD {}))
  | .setQueueAttributes url attributes =>
    match b.queues url.name with
    | some old => .ok ((), b.putQueue url.name (old.overwrite attributes))
    | none => .error nonExistentQueue
  | .getQueueAttributes url =>
    match b.queues url.name with
    | some attributes => .ok ((⟨url.name⟩, attributes), b)
    | none => .error nonExistentQueue
  | .getQueueUrl name =>
    match b.queues name with
    | some _ => .ok (⟨name⟩, b)
    | none => .error nonExistentQueue
  | .subscribe topic endpoint =>
    match b.topics topic.name with
    | some t =>
      match hfind : t.subscriptions.find? (·.endpoint = endpoint) with
      | some s => .ok (⟨topic, s.id⟩, b)
      | none =>
        .ok (⟨topic, b.nextId⟩, { b with nextId := b.nextId + 1 }.putTopic topic.name
          (t.subscribe b.nextId endpoint (by simpa using hfind)))
    | none => .error topicNotFound
  | .setFilterPolicy subscription policy =>
    match b.topics subscription.topic.name with
    | some t =>
      if t.subscriptions.any (·.id = subscription.id) then
        .ok ((), b.putTopic subscription.topic.name (t.setFilterPolicy subscription.id policy))
      else .error topicNotFound
    | none => .error topicNotFound
  | .listSubscriptionsByTopic topic =>
    match b.topics topic.name with
    | some t => .ok (t.subscriptions, b)
    | none => .error topicNotFound

-- ---------------------------------------------------------------------------
-- shared/aws.py
-- ---------------------------------------------------------------------------

namespace Aws

def createTopic (name : String) : Aws TopicArn := .lift (AwsCall.createTopic name)

def createQueue (name : String) : Aws QueueUrl := .lift (AwsCall.createQueue name)

def setQueueAttributes (url : QueueUrl) (attributes : QueueAttributes) : Aws Unit :=
  .lift (AwsCall.setQueueAttributes url attributes)

def getQueueAttributes (url : QueueUrl) : Aws (QueueArn × QueueAttributes) :=
  .lift (AwsCall.getQueueAttributes url)

def getQueueUrl (name : String) : Aws QueueUrl := .lift (AwsCall.getQueueUrl name)

def subscribe (topic : TopicArn) (endpoint : QueueArn) : Aws SubscriptionArn :=
  .lift (AwsCall.subscribe topic endpoint)

def setFilterPolicy (subscription : SubscriptionArn) (policy : FilterPolicy) : Aws Unit :=
  .lift (AwsCall.setFilterPolicy subscription policy)

def listSubscriptionsByTopic (topic : TopicArn) : Aws (List Subscription) :=
  .lift (AwsCall.listSubscriptionsByTopic topic)

def topicArn (name : String) : Aws TopicArn := createTopic name

def queueUrl (name : String) : Aws QueueUrl := getQueueUrl name

def queueArn (url : QueueUrl) : Aws QueueArn := do
  let (arn, _) ← getQueueAttributes url
  return arn

end Aws

-- ---------------------------------------------------------------------------
-- Publishing
-- ---------------------------------------------------------------------------

def Broker.grants (b : Broker) (queue : QueueArn) (topic : TopicArn) : Bool :=
  ((b.queues queue.name).bind (·.policy)).any (·.allows queue topic)

/-- The queues that get a copy of a message published to the topic. -/
def Broker.copies (b : Broker) (topic : TopicArn) (eventType : String) : List String :=
  match b.topics topic.name with
  | some t => (t.subscriptions.filter fun s =>
      b.grants s.endpoint topic && s.accepts eventType).map (·.endpoint.name)
  | none => []

end OutboxFanout
