import OutboxFanout.Shared.Aws

/-!
# Bootstrap

`bootstrap/main.py`, call by call. The log lines are left out.
-/

namespace OutboxFanout.Bootstrap

/-- The names `shared/config.py` reads, with its defaults. -/
structure Names where
  snsTopic : String := "order-events"
  billingQueue : String := "billing-queue"
  shippingQueue : String := "shipping-queue"
  notifyQueue : String := "notify-queue"
  billingDlq : String := "billing-dlq"
  shippingDlq : String := "shipping-dlq"
  notifyDlq : String := "notify-dlq"

/-- … and the numbers. -/
structure Settings where
  visibilityTimeoutSeconds : Int := 30
  waitTimeSeconds : Int := 20
  messageRetentionSeconds : Int := 345600
  maxReceiveCount : Int := 5

def Names.queueNames (names : Names) : List String :=
  [names.billingQueue, names.shippingQueue, names.notifyQueue]

/-- `DLQ_FOR`: a key given twice has its last value. -/
def Names.dlqFor (names : Names) (name : String) : String :=
  if name = names.notifyQueue then names.notifyDlq
  else if name = names.shippingQueue then names.shippingDlq
  else names.billingDlq

def filterPolicy : FilterPolicy := ⟨["OrderCreated"]⟩

variable (names : Names) (settings : Settings)

def queueAttributes : QueueAttributes where
  visibilityTimeout := some settings.visibilityTimeoutSeconds
  receiveMessageWaitTimeSeconds := some settings.waitTimeSeconds
  messageRetentionPeriod := some settings.messageRetentionSeconds

def redrivePolicy (dlqArn : QueueArn) : RedrivePolicy where
  deadLetterTargetArn := dlqArn
  maxReceiveCount := settings.maxReceiveCount

def queuePolicy (queueArn : QueueArn) (topicArn : TopicArn) : QueuePolicy where
  version := "2012-10-17"
  statement := [{
    sid := "AllowOrderEventsTopicToSendMessages"
    effect := "Allow"
    principalService := "sns.amazonaws.com"
    action := "sqs:SendMessage"
    resource := queueArn
    sourceArn := topicArn }]

def ensureQueue (name : String) (dlqArn : Option QueueArn) : Aws (QueueUrl × QueueArn) := do
  let url ← Aws.createQueue name
  let attributes := { queueAttributes settings with
    redrivePolicy := dlqArn.map (redrivePolicy settings) }
  Aws.setQueueAttributes url attributes
  let arn ← Aws.queueArn url
  return (url, arn)

def ensureSubscription (topicArn : TopicArn) (queueUrl : QueueUrl) (queueArn : QueueArn) :
    Aws SubscriptionArn := do
  Aws.setQueueAttributes queueUrl { policy := some (queuePolicy queueArn topicArn) }
  let subscriptionArn ← Aws.subscribe topicArn queueArn
  Aws.setFilterPolicy subscriptionArn filterPolicy
  return subscriptionArn

/-- The body of the first loop of `main`. -/
def ensureFanout (topicArn : TopicArn) (name : String) : Aws Unit := do
  let (_, dlqArn) ← ensureQueue settings (names.dlqFor name) none
  let (url, arn) ← ensureQueue settings name (some dlqArn)
  let _ ← ensureSubscription topicArn url arn

def ensureAll (topicArn : TopicArn) : List String → Aws Unit
  | [] => return
  | name :: rest => do
    ensureFanout names settings topicArn name
    ensureAll topicArn rest

def arnsOf : List String → Aws (List QueueArn)
  | [] => return []
  | name :: rest => do
    let arn ← Aws.queueArn (← Aws.queueUrl name)
    return arn :: (← arnsOf rest)

/-- The last loop of `main`. -/
def verifyRedrive : List String → Aws Int
  | [] => return 0
  | name :: rest => do
    let (_, attributes) ← Aws.getQueueAttributes (← Aws.queueUrl name)
    match attributes.redrivePolicy with
    | none => return 1
    | some policy =>
      let expectedDlqArn ← Aws.queueArn (← Aws.queueUrl (names.dlqFor name))
      if policy.deadLetterTargetArn ≠ expectedDlqArn then return 1
      verifyRedrive rest

def main : Aws Int := do
  let topicArn ← Aws.topicArn names.snsTopic
  ensureAll names settings topicArn names.queueNames
  let subscriptions ← Aws.listSubscriptionsByTopic topicArn
  let subscribedArns := subscriptions.map (·.endpoint)
  let expectedArns ← arnsOf names.queueNames
  if expectedArns.any (· ∉ subscribedArns) then return 1
  verifyRedrive names names.queueNames

end OutboxFanout.Bootstrap
