import OutboxFanout.Bootstrap.Wired
import OutboxFanout.Lib.Machine

/-!
# Runs of bootstrap after one another

Each run may end early and have settings of its own; relays create the topic in
between. Once the topic exists nothing but the run changes the broker
(`beside_eq`), so every function has an exact outcome: `configure` for a queue,
`Subscribes` for a subscription. After a complete run the broker is `Converged`,
whatever it was before, and a run on a converged broker leaves it as it is.
-/

namespace OutboxFanout.Bootstrap

open Script

-- ---------------------------------------------------------------------------
-- The runs
-- ---------------------------------------------------------------------------

structure Setup where
  broker : Broker
  -- what is left of the latest run
  script : Aws Int

inductive SetupAction where
  -- a run begins; what was left of the one before is cut off
  | main (settings : Settings)
  | call
  -- topic_arn() of a relay
  | createTopic

def setupStep (names : Names) (s : Setup) : SetupAction → Option Setup
  | .main settings => some { s with script := main names settings }
  | .call =>
    match s.script with
    | .call c k =>
      match s.broker.answer c with
      | .ok (r, broker) => some ⟨broker, k r⟩
      -- the call raises, and the run exits with code 1
      | .error _ => some { s with script := .done 1 }
    | .done _ => none
  | .createTopic => some { s with broker := s.broker.createTopic names.snsTopic }

def setupMachine (names : Names) : Machine Setup SetupAction := ⟨setupStep names⟩

/-- An empty broker, and no run in progress. -/
def Setup.initial (nextId : Nat) : Setup := ⟨.empty nextId, .done 0⟩

def Names.Distinct (names : Names) : Prop :=
  [names.billingQueue, names.shippingQueue, names.notifyQueue,
    names.billingDlq, names.shippingDlq, names.notifyDlq].Nodup

instance : DecidablePred Names.Distinct := fun names => by unfold Names.Distinct; infer_instance

/-- Every subscribed queue lets the topic write. -/
def Granting (topic : TopicArn) (b : Broker) : Prop :=
  ∀ t, b.topics topic.name = some t → ∀ s ∈ t.subscriptions, b.grants s.endpoint topic = true

def mainAttributes (names : Names) (settings : Settings) (name : String) : QueueAttributes :=
  { queueAttributes settings with
    redrivePolicy := some (redrivePolicy settings ⟨names.dlqFor name⟩)
    policy := some (queuePolicy ⟨name⟩ ⟨names.snsTopic⟩) }

/-- What a complete run leaves. -/
structure Converged (names : Names) (settings : Settings) (b : Broker) : Prop where
  queue : ∀ name ∈ names.queueNames, b.queues name = some (mainAttributes names settings name)
  dlq : ∀ name ∈ names.queueNames, b.queues (names.dlqFor name) = some (queueAttributes settings)
  topic : ∃ t, b.topics names.snsTopic = some t ∧
    (t.subscriptions.map (·.endpoint.name)).Perm names.queueNames ∧
    ∀ s ∈ t.subscriptions, s.filterPolicy = some filterPolicy

variable {names : Names} {settings : Settings} {b b' u : Broker}

theorem Names.Distinct.queueNames (h : names.Distinct) : names.queueNames.Nodup := by
  simp only [Names.Distinct, List.nodup_cons, List.mem_cons, not_or] at h
  simp [Names.queueNames, h]

theorem Names.Distinct.dlqFor_notMem (h : names.Distinct) (hmem : name ∈ names.queueNames) :
    names.dlqFor name ∉ names.queueNames := by
  simp only [Names.Distinct, List.nodup_cons, List.mem_cons, not_or] at h
  simp only [Names.queueNames, List.mem_cons, List.not_mem_nil, or_false] at hmem
  rcases hmem with rfl | rfl | rfl <;> simp [Names.dlqFor, Names.queueNames, h, eq_comm]

theorem Names.Distinct.dlqFor_inj (h : names.Distinct) (hmem : name ∈ names.queueNames)
    (hmem' : name' ∈ names.queueNames) (heq : names.dlqFor name = names.dlqFor name') :
    name = name' := by
  simp only [Names.Distinct, List.nodup_cons, List.mem_cons, not_or] at h
  simp only [Names.queueNames, List.mem_cons, List.not_mem_nil, or_false] at hmem hmem'
  rcases hmem with rfl | rfl | rfl <;> rcases hmem' with rfl | rfl | rfl <;>
    simp_all [Names.dlqFor]

-- ---------------------------------------------------------------------------
-- Attributes set on a queue
-- ---------------------------------------------------------------------------

/-- The queue exists then, and has these attributes besides its own. -/
def configure (b : Broker) (name : String) (attributes : QueueAttributes) : Broker :=
  b.putQueue name (((b.queues name).getD {}).overwrite attributes)

@[simp] theorem overwrite_empty {old : QueueAttributes} : old.overwrite {} = old := by
  simp [QueueAttributes.overwrite]

theorem configure_self : (configure b name attributes).queues name =
    some (((b.queues name).getD {}).overwrite attributes) := Function.update_self ..

theorem configure_of_ne (hne : other ≠ name) :
    (configure b name attributes).queues other = b.queues other := Function.update_of_ne hne ..

theorem configure_configure : configure (configure b name first) name second =
    b.putQueue name ((((b.queues name).getD {}).overwrite first).overwrite second) := by
  simp [configure, Broker.putQueue]

/-- Setting what is set already changes nothing. -/
theorem configure_eq (hqueue : b.queues name = some old) (hsame : old.overwrite attributes = old) :
    configure b name attributes = b := by
  simp only [configure, hqueue, Option.getD_some, hsame, Broker.putQueue]
  rw [← hqueue, Function.update_eq_self]

-- ---------------------------------------------------------------------------
-- What is true whenever a run may begin
-- ---------------------------------------------------------------------------

structure Orderly (names : Names) (b : Broker) : Prop where
  granting : Granting ⟨names.snsTopic⟩ b
  endpoints : ∀ t, b.topics names.snsTopic = some t →
    ∀ s ∈ t.subscriptions, s.endpoint.name ∈ names.queueNames
  -- no other queue has a policy
  bare : ∀ name, name ∉ names.queueNames → ∀ attributes, b.queues name = some attributes →
    attributes.redrivePolicy = none ∧ attributes.policy = none

theorem Orderly.empty : Orderly names (.empty nextId) := ⟨nofun, nofun, nofun⟩

theorem createTopic_eq (h : b.topics name = some t) : b.createTopic name = b := by
  simp only [Broker.createTopic, h, Option.getD_some, Broker.putTopic]
  rw [← h, Function.update_eq_self]

theorem createTopic_createTopic : (b.createTopic name).createTopic name = b.createTopic name :=
  createTopic_eq (Function.update_self ..)

theorem Orderly.createTopic (h : Orderly names b) : Orderly names (b.createTopic names.snsTopic) := by
  cases ht : b.topics names.snsTopic with
  | some t => rwa [createTopic_eq ht]
  | none =>
    have hnew : ∀ t, (b.createTopic names.snsTopic).topics names.snsTopic = some t →
        ∀ s, s ∉ t.subscriptions := by
      intro t heq
      simp only [Broker.createTopic, ht, Broker.putTopic, Function.update_self] at heq
      cases heq
      exact fun _ => List.not_mem_nil
    exact ⟨fun t heq s hs => absurd hs (hnew t heq s), fun t heq s hs => absurd hs (hnew t heq s),
      h.bare⟩

/-- What a run may set on a queue. -/
def Fitting (names : Names) (name : String) (attributes : QueueAttributes) : Prop :=
  (∀ policy, attributes.policy = some policy → policy = queuePolicy ⟨name⟩ ⟨names.snsTopic⟩) ∧
    (name ∉ names.queueNames → attributes.redrivePolicy = none ∧ attributes.policy = none)

theorem grows_configure (hfit : Fitting names name attributes) :
    Grows ⟨names.snsTopic⟩ b (configure b name attributes) := by
  refine grows_putQueue fun hgrants => ?_
  cases hpolicy : attributes.policy with
  | some policy => simp [QueueAttributes.overwrite, hpolicy, hfit.1 policy hpolicy, queuePolicy_allows]
  | none =>
    cases hq : b.queues name with
    | none => simp [Broker.grants, hq] at hgrants
    | some old => simpa [Broker.grants, hq, QueueAttributes.overwrite, hpolicy] using hgrants

theorem Orderly.configure (h : Orderly names b) (hfit : Fitting names name attributes) :
    Orderly names (configure b name attributes) where
  granting := fun t ht s hs => (grows_configure hfit).grants _ (h.granting t ht s hs)
  endpoints := h.endpoints
  bare := by
    intro other hother attributes' heq
    by_cases hname : other = name
    · subst hname
      obtain ⟨hredrive, hpolicy⟩ := hfit.2 hother
      rw [configure_self] at heq
      cases heq
      cases hq : b.queues other with
      | none => simp [QueueAttributes.overwrite, hredrive, hpolicy]
      | some old =>
        have hbare := h.bare other hother old hq
        simp [QueueAttributes.overwrite, hredrive, hpolicy, hbare]
    · rw [configure_of_ne hname] at heq
      exact h.bare other hother attributes' heq

theorem Orderly.overwrite_bare (h : Orderly names b) (hname : name ∉ names.queueNames) :
    ((b.queues name).getD {}).overwrite (queueAttributes settings) = queueAttributes settings := by
  cases hq : b.queues name with
  | none => simp [QueueAttributes.overwrite, queueAttributes]
  | some old =>
    have hbare := h.bare name hname old hq
    simp [QueueAttributes.overwrite, queueAttributes, hbare]

-- ---------------------------------------------------------------------------
-- The calls, with the topic there
-- ---------------------------------------------------------------------------

/-- A run, and relays that create the topic between its calls. -/
def beside (names : Names) : Contract Broker where
  rely b b' := b' = b ∨ b' = b.createTopic names.snsTopic
  guar _ b' := Orderly names b'
  fails := False

structure Good (names : Names) (b : Broker) : Prop extends Orderly names b where
  exists_topic : ∃ t, b.topics names.snsTopic = some t

/-- The program makes no call that fails, leaves the broker orderly after each,
and ends with `Q`. -/
abbrev Ends (names : Names) (Q : α → Broker → Prop) (prog : Aws α) (b : Broker) : Prop :=
  Ensures Broker.answer (beside names) Q prog b

theorem beside_trans (h : (beside names).rely b b') (h' : (beside names).rely b' u) :
    (beside names).rely b u := by
  rcases h with rfl | rfl
  · exact h'
  · rcases h' with rfl | rfl
    · exact .inr rfl
    · exact .inr createTopic_createTopic

theorem Good.rely_eq (h : Good names b) (hrely : (beside names).rely b b') : b' = b := by
  obtain ⟨t, ht⟩ := h.exists_topic
  exact hrely.elim id fun heq => heq.trans (createTopic_eq ht)

theorem Ends.bind {P : α → Broker → Prop} {Q : β → Broker → Prop} {prog : Aws α} {f : α → Aws β}
    (h : Ends names P prog b) (hf : ∀ a u, P a u → Ends names Q (f a) u) :
    Ends names Q (prog >>= f) b :=
  Ensures.bind (.inl rfl) h hf

theorem ends_pure {Q : α → Broker → Prop} {a : α} (hb : Good names b) (h : Q a b) :
    Ends names Q (pure a) b :=
  ensures_pure fun _ hrely => hb.rely_eq hrely ▸ h

theorem ends_lift {c : AwsCall} {r : c.Reply} (hb : Good names b) (hanswer : b.answer c = .ok (r, u))
    (hu : Good names u) : Ends names (fun r' u' => r' = r ∧ u' = u) (lift c) b := by
  refine ensures_lift fun t hrely => ?_
  rw [hb.rely_eq hrely, hanswer]
  exact ⟨hu.toOrderly, fun u' hrely' => ⟨rfl, hu.rely_eq hrely'⟩⟩

theorem Good.configure (h : Good names b) (hfit : Fitting names name attributes) :
    Good names (configure b name attributes) :=
  ⟨h.toOrderly.configure hfit, h.exists_topic⟩

theorem fitting_empty : Fitting names name {} := ⟨nofun, fun _ => ⟨rfl, rfl⟩⟩

theorem createQueue_ends (hb : Good names b) :
    Ends names (fun r u => r = ⟨name⟩ ∧ u = configure b name {}) (Aws.createQueue name) b := by
  refine ends_lift (c := .createQueue name) hb ?_ (hb.configure fitting_empty)
  simp [Broker.answer, Bootstrap.configure]

theorem setQueueAttributes_ends (hb : Good names b) (hqueue : b.queues name = some old)
    (hfit : Fitting names name attributes) :
    Ends names (fun _ u => u = configure b name attributes)
      (Aws.setQueueAttributes ⟨name⟩ attributes) b := by
  have hcall : b.answer (.setQueueAttributes ⟨name⟩ attributes) =
      .ok ((), configure b name attributes) := by
    simp [Broker.answer, Bootstrap.configure, hqueue]
  exact (ends_lift hb hcall (hb.configure hfit)).mono fun _ _ h => h.2

theorem getQueueAttributes_ends (hb : Good names b) (hqueue : b.queues name = some attributes) :
    Ends names (fun r u => r = (⟨name⟩, attributes) ∧ u = b) (Aws.getQueueAttributes ⟨name⟩) b :=
  ends_lift (c := .getQueueAttributes ⟨name⟩) hb (by simp [Broker.answer, hqueue]) hb

theorem queueArn_ends (hb : Good names b) (hqueue : b.queues name = some attributes) :
    Ends names (fun r u => r = ⟨name⟩ ∧ u = b) (Aws.queueArn ⟨name⟩) b := by
  refine (getQueueAttributes_ends hb hqueue).bind ?_
  rintro _ _ ⟨rfl, rfl⟩
  exact ends_pure hb ⟨rfl, rfl⟩

theorem queueUrl_ends (hb : Good names b) (hqueue : b.queues name = some attributes) :
    Ends names (fun r u => r = ⟨name⟩ ∧ u = b) (Aws.queueUrl name) b :=
  ends_lift (c := .getQueueUrl name) hb (by simp [Broker.answer, hqueue]) hb

theorem ensureQueue_ends (dlqArn : Option QueueArn) (hb : Good names b)
    (hfit : Fitting names name { queueAttributes settings with
      redrivePolicy := dlqArn.map (redrivePolicy settings) }) :
    Ends names (fun r u => r = (⟨name⟩, ⟨name⟩) ∧ Good names u ∧
        u = configure b name { queueAttributes settings with
          redrivePolicy := dlqArn.map (redrivePolicy settings) })
      (ensureQueue settings name dlqArn) b := by
  have hcreated : Good names (configure b name {}) := hb.configure fitting_empty
  refine (createQueue_ends hb).bind ?_
  rintro _ _ ⟨rfl, rfl⟩
  refine (setQueueAttributes_ends hcreated configure_self hfit).bind ?_
  rintro _ _ rfl
  rw [configure_configure, overwrite_empty, ← configure]
  have hset : Good names (configure b name _) := hb.configure hfit
  refine (queueArn_ends hset configure_self).bind ?_
  rintro _ _ ⟨rfl, rfl⟩
  exact ends_pure hset ⟨rfl, hset, rfl⟩

-- ---------------------------------------------------------------------------
-- Subscriptions
-- ---------------------------------------------------------------------------

/-- A step that leaves the queues alone may subscribe a queue that grants. -/
theorem Orderly.topic (h : Orderly names b) (hqueues : u.queues = b.queues)
    (hsubs : ∀ t, u.topics names.snsTopic = some t → ∀ s ∈ t.subscriptions,
      s.endpoint.name ∈ names.queueNames ∧ b.grants s.endpoint ⟨names.snsTopic⟩ = true) :
    Orderly names u where
  granting := fun t ht s hs => by
    rw [Broker.grants, hqueues]
    exact (hsubs t ht s hs).2
  endpoints := fun t ht s hs => (hsubs t ht s hs).1
  bare := hqueues ▸ h.bare

/-- `subscribe` on the queue `name`, from `b` to `u`. -/
structure Subscribes (names : Names) (name : String) (b : Broker) (r : SubscriptionArn) (u : Broker) :
    Prop where
  topic : r.topic = ⟨names.snsTopic⟩
  good : Good names u
  queues : u.queues = b.queues
  subscribed : Subscribed ⟨names.snsTopic⟩ (fun s => s.id = r.id ∧ s.endpoint = ⟨name⟩) u
  again : Subscribed ⟨names.snsTopic⟩ (fun s => s.endpoint = ⟨name⟩) b → u = b

theorem subscribe_ends (hb : Good names b) (hmem : name ∈ names.queueNames)
    (hgrants : b.grants ⟨name⟩ ⟨names.snsTopic⟩ = true) :
    Ends names (fun r u => Subscribes names name b r u ∧ Grows ⟨names.snsTopic⟩ b u)
      (Aws.subscribe ⟨names.snsTopic⟩ ⟨name⟩) b := by
  obtain ⟨t, ht⟩ := hb.exists_topic
  have hcall : ∃ r u, b.answer (.subscribe ⟨names.snsTopic⟩ ⟨name⟩) = .ok (r, u) ∧
      Subscribes names name b r u := by
    simp only [Broker.answer, ht]
    split
    next s hfind =>
      have hendpoint : s.endpoint = ⟨name⟩ := by simpa using List.find?_some hfind
      have hs := List.mem_of_find?_eq_some hfind
      exact ⟨_, _, rfl, rfl, hb, rfl, ⟨t, ht, s, hs, rfl, hendpoint⟩, fun _ => rfl⟩
    next hfind =>
      have hfree : ∀ s ∈ t.subscriptions, s.endpoint ≠ ⟨name⟩ := by simpa using hfind
      have hadded := Function.update_self names.snsTopic
        (some (t.subscribe b.nextId ⟨name⟩ hfree)) b.topics
      refine ⟨_, _, rfl, rfl, ⟨hb.toOrderly.topic rfl ?_, _, hadded⟩, rfl,
        ⟨_, hadded, _, List.mem_append_right _ List.mem_cons_self, rfl, rfl⟩, ?_⟩
      · intro t' ht' s hs
        cases hadded.symm.trans ht'
        rcases List.mem_append.mp hs with hold | hnew
        · exact ⟨hb.endpoints t ht s hold, hb.granting t ht s hold⟩
        · cases List.mem_singleton.mp hnew
          exact ⟨hmem, hgrants⟩
      · rintro ⟨t', ht', s, hs, hendpoint⟩
        cases ht.symm.trans ht'
        exact absurd hendpoint (hfree s hs)
  obtain ⟨r, u, hanswer, hsubscribes⟩ := hcall
  have hbenign : Benign ⟨names.snsTopic⟩ (.subscribe ⟨names.snsTopic⟩ ⟨name⟩) := trivial
  have hgrows : Grows ⟨names.snsTopic⟩ b u := answer_grows hbenign hanswer
  refine (ends_lift hb hanswer hsubscribes.good).mono ?_
  rintro _ _ ⟨rfl, rfl⟩
  exact ⟨hsubscribes, hgrows⟩

/-- The queue is subscribed with the filter policy. -/
def Routed (names : Names) (name : String) (b : Broker) : Prop :=
  Subscribed ⟨names.snsTopic⟩ (fun s => s.endpoint = ⟨name⟩ ∧ s.filterPolicy = some filterPolicy) b

theorem Routed.grow (h : Routed names name b) (hgrows : Grows ⟨names.snsTopic⟩ b u) :
    Routed names name u :=
  subscribed_lasting (fun _ _ hkeep hp => ⟨hkeep.endpoint.trans hp.1, hkeep.filterPolicy hp.2⟩) b u
    hgrows h

def Filtered (names : Names) (b : Broker) : Prop :=
  ∀ t, b.topics names.snsTopic = some t → ∀ s ∈ t.subscriptions, s.filterPolicy = some filterPolicy

theorem setFilterPolicy_eq {t : Topic}
    (h : ∀ s ∈ t.subscriptions, s.filterPolicy = some filterPolicy) :
    t.setFilterPolicy key filterPolicy = t := by
  have hsame : Rows.update Subscription.id key (·.setFilterPolicy filterPolicy) t.subscriptions =
      t.subscriptions := by
    refine (List.map_congr_left fun s hs => ?_).trans (List.map_id _)
    have hset : s.setFilterPolicy filterPolicy = s :=
      congrArg (Subscription.mk s.id s.endpoint) (h s hs).symm
    simp [hset]
  obtain ⟨subscriptions, keyed⟩ := t
  simpa [Topic.setFilterPolicy] using hsame

theorem setFilterPolicy_endpoints {t : Topic} : (t.setFilterPolicy key policy).subscriptions.map
    Subscription.endpoint = t.subscriptions.map Subscription.endpoint :=
  Rows.map_update fun _ => rfl

theorem setFilterPolicy_ends (hb : Good names b)
    (hsubscribed : Subscribed ⟨names.snsTopic⟩ (fun s => s.id = key ∧ s.endpoint = ⟨name⟩) b) :
    Ends names (fun _ u => Good names u ∧ Grows ⟨names.snsTopic⟩ b u ∧ u.queues = b.queues ∧
        Routed names name u ∧ (Filtered names b → u = b))
      (Aws.setFilterPolicy ⟨⟨names.snsTopic⟩, key⟩ filterPolicy) b := by
  obtain ⟨t, ht, s, hs, hid, hendpoint⟩ := hsubscribed
  have hany : t.subscriptions.any (·.id = key) = true := List.any_eq_true.mpr ⟨s, hs, by simp [hid]⟩
  have hanswer : b.answer (.setFilterPolicy ⟨⟨names.snsTopic⟩, key⟩ filterPolicy) =
      .ok ((), b.putTopic names.snsTopic (t.setFilterPolicy key filterPolicy)) := by
    simp only [Broker.answer, ht, hany, ↓reduceIte]
  have hput : (b.putTopic names.snsTopic (t.setFilterPolicy key filterPolicy)).topics names.snsTopic =
      some (t.setFilterPolicy key filterPolicy) := Function.update_self ..
  have hgood : Good names (b.putTopic names.snsTopic (t.setFilterPolicy key filterPolicy)) := by
    refine ⟨hb.toOrderly.topic rfl fun t' ht' s' hs' => ?_, _, hput⟩
    cases hput.symm.trans ht'
    have hold : s'.endpoint ∈ t.subscriptions.map Subscription.endpoint :=
      setFilterPolicy_endpoints ▸ List.mem_map_of_mem hs'
    obtain ⟨old, hmem, heq⟩ := List.mem_map.mp hold
    rw [← heq]
    exact ⟨hb.endpoints t ht old hmem, hb.granting t ht old hmem⟩
  refine (ends_lift hb hanswer hgood).mono ?_
  rintro _ _ ⟨-, rfl⟩
  have hbenign : Benign ⟨names.snsTopic⟩
      (.setFilterPolicy ⟨⟨names.snsTopic⟩, key⟩ filterPolicy) := rfl
  refine ⟨hgood, answer_grows hbenign hanswer, rfl,
    ⟨_, hput, _, Rows.mem_update_of_eq hs hid, hendpoint, rfl⟩, fun hfiltered => ?_⟩
  rw [setFilterPolicy_eq (hfiltered t ht), Broker.putTopic, ← ht, Function.update_eq_self]

-- ---------------------------------------------------------------------------
-- The functions
-- ---------------------------------------------------------------------------

/-- One queue as a complete run leaves it. -/
structure Settled (names : Names) (settings : Settings) (name : String) (b : Broker) : Prop where
  queue : b.queues name = some (mainAttributes names settings name)
  dlq : b.queues (names.dlqFor name) = some (queueAttributes settings)
  routed : Routed names name b

/-- The body of the first loop on the queue `name`, from `b` to `u`. -/
structure Fans (names : Names) (settings : Settings) (name : String) (b u : Broker) : Prop where
  good : Good names u
  grows : Grows ⟨names.snsTopic⟩ b u
  settled : Settled names settings name u
  others : ∀ other, other ≠ name → other ≠ names.dlqFor name → u.queues other = b.queues other
  again : Settled names settings name b → Filtered names b → u = b

theorem ensureSubscription_ends (settings : Settings) (hb : Good names b)
    (hmem : name ∈ names.queueNames)
    (hqueue : b.queues name = some old) :
    Ends names (fun _ u => Good names u ∧ Grows ⟨names.snsTopic⟩ b u ∧
        u.queues = (configure b name { policy := some (queuePolicy ⟨name⟩ ⟨names.snsTopic⟩) }).queues ∧
        Routed names name u ∧
        (Settled names settings name b → Filtered names b → u = b))
      (ensureSubscription ⟨names.snsTopic⟩ ⟨name⟩ ⟨name⟩) b := by
  have hfit : Fitting names name { policy := some (queuePolicy ⟨name⟩ ⟨names.snsTopic⟩) } :=
    ⟨fun _ h => (Option.some.inj h).symm, fun hnot => absurd hmem hnot⟩
  have hgrants : (configure b name { policy := some (queuePolicy ⟨name⟩ ⟨names.snsTopic⟩) }).grants
      ⟨name⟩ ⟨names.snsTopic⟩ = true := by
    simp [Broker.grants, configure_self, QueueAttributes.overwrite, queuePolicy_allows]
  refine (setQueueAttributes_ends hb hqueue hfit).bind ?_
  rintro _ _ rfl
  refine (subscribe_ends (hb.configure hfit) hmem hgrants).bind ?_
  rintro ⟨_, key⟩ u ⟨⟨rfl, hgood, hqueues, hsubscribed, hagain⟩, hgrows⟩
  refine (setFilterPolicy_ends hgood hsubscribed).bind ?_
  rintro _ v ⟨hgood', hgrows', hqueues', hrouted, hagain'⟩
  refine ends_pure hgood' ⟨hgood', ((grows_configure hfit).trans hgrows).trans hgrows',
    hqueues'.trans hqueues, hrouted, fun hsettled hall => ?_⟩
  have hsame : configure b name { policy := some (queuePolicy ⟨name⟩ ⟨names.snsTopic⟩) } = b :=
    configure_eq hsettled.queue (by simp [QueueAttributes.overwrite, mainAttributes, queueAttributes])
  obtain ⟨t, ht, s, hs, hendpoint, -⟩ := hsettled.routed
  rw [hsame] at hagain
  rw [hagain ⟨t, ht, s, hs, hendpoint⟩] at hagain'
  exact hagain' hall

theorem ensureFanout_ends (hnames : names.Distinct) (hb : Good names b)
    (hmem : name ∈ names.queueNames) :
    Ends names (fun _ u => Fans names settings name b u)
      (ensureFanout names settings ⟨names.snsTopic⟩ name) b := by
  have hdlq := hnames.dlqFor_notMem hmem
  have hne : names.dlqFor name ≠ name := fun heq => hdlq (by rwa [heq])
  have hfit : Fitting names (names.dlqFor name) (queueAttributes settings) :=
    ⟨nofun, fun _ => ⟨rfl, rfl⟩⟩
  have hfit' : Fitting names name { queueAttributes settings with
      redrivePolicy := some (redrivePolicy settings ⟨names.dlqFor name⟩) } :=
    ⟨nofun, fun hnot => absurd hmem hnot⟩
  refine (ensureQueue_ends none hb hfit).bind ?_
  rintro _ _ ⟨rfl, hgood, rfl⟩
  refine (ensureQueue_ends (some ⟨names.dlqFor name⟩) hgood hfit').bind ?_
  rintro _ _ ⟨rfl, hgood', rfl⟩
  refine (ensureSubscription_ends settings hgood' hmem configure_self).bind ?_
  rintro _ u ⟨hgoodu, hgrows, hqueues, hrouted, hagain⟩
  refine ends_pure hgoodu ⟨hgoodu, ((grows_configure hfit).trans (grows_configure hfit')).trans hgrows,
    ⟨?_, ?_, hrouted⟩, fun other hname hdlq' => ?_, fun hsettled hfiltered => ?_⟩
  · rw [hqueues, configure_self, configure_self]
    simp [QueueAttributes.overwrite, mainAttributes, queueAttributes]
  · rw [hqueues, configure_of_ne hne, configure_of_ne hne, configure_self]
    exact congrArg some (hb.toOrderly.overwrite_bare hdlq)
  · rw [hqueues, configure_of_ne hname, configure_of_ne hname, configure_of_ne hdlq']
  · have hfirst : configure b (names.dlqFor name) (queueAttributes settings) = b :=
      configure_eq hsettled.dlq (by simp [QueueAttributes.overwrite, queueAttributes])
    have hsecond : configure (configure b (names.dlqFor name) (queueAttributes settings)) name
        { queueAttributes settings with
          redrivePolicy := some (redrivePolicy settings ⟨names.dlqFor name⟩) } = b := by
      rw [hfirst]
      exact configure_eq hsettled.queue
        (by simp [QueueAttributes.overwrite, mainAttributes, queueAttributes])
    have hagain : Settled names settings name b → Filtered names b → u = b := hsecond ▸ hagain
    exact hagain hsettled hfiltered

-- ---------------------------------------------------------------------------
-- A complete run
-- ---------------------------------------------------------------------------

theorem Fans.keeps (h : Fans names settings name b u) (hnames : names.Distinct)
    (hmem : name ∈ names.queueNames) (hother : other ∈ names.queueNames) (hne : other ≠ name)
    (hsettled : Settled names settings other b) : Settled names settings other u := by
  have hdlq : other ≠ names.dlqFor name := fun heq => hnames.dlqFor_notMem hmem (heq ▸ hother)
  have hname : names.dlqFor other ≠ name := fun heq =>
    hnames.dlqFor_notMem hother (by rwa [heq])
  have hdlqs : names.dlqFor other ≠ names.dlqFor name := fun heq =>
    hne (hnames.dlqFor_inj hother hmem heq)
  exact ⟨(h.others other hne hdlq).trans hsettled.queue, (h.others _ hname hdlqs).trans hsettled.dlq,
    hsettled.routed.grow h.grows⟩

theorem ensureAll_ends (hnames : names.Distinct) (hb : Good names b)
    {queues : List String} (hsub : queues ⊆ names.queueNames) (hnodup : queues.Nodup) :
    Ends names (fun _ u => Good names u ∧ (∀ name ∈ queues, Settled names settings name u) ∧
        (∀ other ∈ names.queueNames, other ∉ queues → Settled names settings other b →
          Settled names settings other u) ∧
        ((∀ name ∈ queues, Settled names settings name b) → Filtered names b → u = b))
      (ensureAll names settings ⟨names.snsTopic⟩ queues) b := by
  induction queues generalizing b with
  | nil => exact ends_pure hb ⟨hb, nofun, fun _ _ _ h => h, fun _ _ => rfl⟩
  | cons name queues ih =>
    obtain ⟨hmem, hsub⟩ := List.cons_subset.mp hsub
    obtain ⟨hnew, hnodup⟩ := List.nodup_cons.mp hnodup
    refine (ensureFanout_ends hnames hb hmem).bind ?_
    rintro _ u hfans
    refine (ih hfans.good hsub hnodup).mono ?_
    rintro _ v ⟨hgood, hsettled, hkeeps, hagain⟩
    refine ⟨hgood, List.forall_mem_cons.mpr ⟨hkeeps name hmem hnew hfans.settled, hsettled⟩,
      fun other hother hnot hold => ?_, fun hold hfiltered => ?_⟩
    · obtain ⟨hne, hnot⟩ := List.ne_and_not_mem_of_not_mem_cons hnot
      exact hkeeps other hother hnot (hfans.keeps hnames hmem hother hne hold)
    · obtain ⟨hhead, htail⟩ := List.forall_mem_cons.mp hold
      obtain rfl := hfans.again hhead hfiltered
      exact hagain htail hfiltered

theorem Good.converged (h : Good names b) (hnames : names.Distinct)
    (hsettled : ∀ name ∈ names.queueNames, Settled names settings name b) :
    Converged names settings b := by
  obtain ⟨t, ht⟩ := h.exists_topic
  have hsubscribed : ∀ name ∈ names.queueNames, ∃ s ∈ t.subscriptions,
      s.endpoint = ⟨name⟩ ∧ s.filterPolicy = some filterPolicy := by
    intro name hmem
    obtain ⟨t', ht', s, hs, hp⟩ := (hsettled name hmem).routed
    cases ht.symm.trans ht'
    exact ⟨s, hs, hp⟩
  have hnodup : (t.subscriptions.map (·.endpoint.name)).Nodup := by
    have hkeyed := t.keyed.map (f := QueueArn.name) fun _ _ hname => congrArg QueueArn.mk hname
    rwa [List.map_map] at hkeyed
  refine ⟨fun name hmem => (hsettled name hmem).queue, fun name hmem => (hsettled name hmem).dlq,
    t, ht, ?_, fun s hs => ?_⟩
  · refine (List.perm_ext_iff_of_nodup hnodup hnames.queueNames).mpr fun name =>
      ⟨fun hmem => ?_, fun hmem => ?_⟩
    · obtain ⟨s, hs, rfl⟩ := List.mem_map.mp hmem
      exact h.endpoints t ht s hs
    · obtain ⟨s, hs, hendpoint, -⟩ := hsubscribed name hmem
      exact List.mem_map.mpr ⟨s, hs, congrArg QueueArn.name hendpoint⟩
  · obtain ⟨s', hs', hendpoint, hfilter⟩ := hsubscribed _ (h.endpoints t ht s hs)
    obtain rfl : s = s' := t.keyed.eq_of_mem hs hs' hendpoint.symm
    exact hfilter

theorem Converged.settled (h : Converged names settings b) (hmem : name ∈ names.queueNames) :
    Settled names settings name b := by
  obtain ⟨t, ht, hperm, hfilter⟩ := h.topic
  obtain ⟨s, hs, hname⟩ := List.mem_map.mp (hperm.mem_iff.mpr hmem)
  exact ⟨h.queue name hmem, h.dlq name hmem, t, ht, s, hs, congrArg QueueArn.mk hname, hfilter s hs⟩

theorem Converged.filtered (h : Converged names settings b) : Filtered names b := by
  obtain ⟨t, ht, -, hfilter⟩ := h.topic
  intro t' ht'
  cases ht.symm.trans ht'
  exact hfilter

theorem arnsOf_ends {queues : List String} (hb : Good names b)
    (hqueues : ∀ name ∈ queues, ∃ attributes, b.queues name = some attributes) :
    Ends names (fun r u => r = queues.map QueueArn.mk ∧ u = b) (arnsOf queues) b := by
  induction queues with
  | nil => exact ends_pure hb ⟨rfl, rfl⟩
  | cons name queues ih =>
    obtain ⟨⟨attributes, hqueue⟩, hrest⟩ := List.forall_mem_cons.mp hqueues
    refine (queueUrl_ends hb hqueue).bind ?_
    rintro _ _ ⟨rfl, rfl⟩
    refine (queueArn_ends hb hqueue).bind ?_
    rintro _ _ ⟨rfl, rfl⟩
    refine (ih hrest).bind ?_
    rintro _ _ ⟨rfl, rfl⟩
    exact ends_pure hb ⟨rfl, rfl⟩

theorem verifyRedrive_ends {queues : List String} (hb : Good names b)
    (hsettled : ∀ name ∈ queues, Settled names settings name b) :
    Ends names (fun r u => r = 0 ∧ u = b) (verifyRedrive names queues) b := by
  induction queues with
  | nil => exact ends_pure hb ⟨rfl, rfl⟩
  | cons name queues ih =>
    obtain ⟨hhead, hrest⟩ := List.forall_mem_cons.mp hsettled
    refine (queueUrl_ends hb hhead.queue).bind ?_
    rintro _ _ ⟨rfl, rfl⟩
    refine (getQueueAttributes_ends hb hhead.queue).bind ?_
    rintro _ _ ⟨rfl, rfl⟩
    simp only [mainAttributes]
    refine (queueUrl_ends hb hhead.dlq).bind ?_
    rintro _ _ ⟨rfl, rfl⟩
    refine (queueArn_ends hb hhead.dlq).bind ?_
    rintro _ _ ⟨rfl, rfl⟩
    simpa [redrivePolicy] using ih hrest

theorem Orderly.created (h : Orderly names b) : Good names (b.createTopic names.snsTopic) :=
  ⟨h.createTopic, _, Function.update_self ..⟩

theorem topicArn_ends (hb : Orderly names b) :
    Ends names (fun r u => r = ⟨names.snsTopic⟩ ∧ u = b.createTopic names.snsTopic)
      (Aws.topicArn names.snsTopic) b := by
  refine ensures_lift (c := AwsCall.createTopic names.snsTopic) fun t hrely => ?_
  have hsame : t.createTopic names.snsTopic = b.createTopic names.snsTopic := by
    rcases hrely with rfl | rfl
    · rfl
    · exact createTopic_createTopic
  change Orderly names (t.createTopic names.snsTopic) ∧ _
  rw [hsame]
  exact ⟨hb.createTopic, fun u hrely' => ⟨rfl, hb.created.rely_eq hrely'⟩⟩

theorem listSubscriptions_ends (hb : Good names b) (ht : b.topics names.snsTopic = some t) :
    Ends names (fun r u => r = t.subscriptions ∧ u = b)
      (Aws.listSubscriptionsByTopic ⟨names.snsTopic⟩) b :=
  ends_lift (c := .listSubscriptionsByTopic ⟨names.snsTopic⟩) hb (by simp [Broker.answer, ht]) hb

/-- The checks at the end of `main`. -/
theorem Converged.subscribed (h : Converged names settings b)
    (ht : b.topics names.snsTopic = some t) :
    (names.queueNames.map QueueArn.mk).any (· ∉ t.subscriptions.map (·.endpoint)) = false := by
  obtain ⟨t', ht', hperm, -⟩ := h.topic
  cases ht.symm.trans ht'
  simp only [List.any_eq_false, List.mem_map]
  rintro _ ⟨name, hmem, rfl⟩
  obtain ⟨s, hs, rfl⟩ := List.mem_map.mp (hperm.mem_iff.mpr hmem)
  simpa using ⟨s, hs, rfl⟩

/-- From any orderly broker a run ends with code 0 and converged, and changes
nothing that was. -/
theorem main_ends (hnames : names.Distinct) (hb : Orderly names b) :
    Ends names (fun code u => code = 0 ∧ Good names u ∧ Converged names settings u ∧
      (Converged names settings b → u = b)) (main names settings) b := by
  refine (topicArn_ends hb).bind ?_
  rintro _ _ ⟨rfl, rfl⟩
  refine (ensureAll_ends hnames hb.created (List.Subset.refl _) hnames.queueNames).bind ?_
  rintro _ u ⟨hgood, hsettled, -, hagain⟩
  have hconverged := hgood.converged hnames hsettled
  obtain ⟨t, ht⟩ := hgood.exists_topic
  refine (listSubscriptions_ends hgood ht).bind ?_
  rintro _ _ ⟨rfl, rfl⟩
  refine (arnsOf_ends hgood fun name hmem => ⟨_, (hsettled name hmem).queue⟩).bind ?_
  rintro _ _ ⟨rfl, rfl⟩
  rw [hconverged.subscribed ht]
  refine (verifyRedrive_ends hgood hsettled).mono ?_
  rintro _ _ ⟨rfl, rfl⟩
  refine ⟨rfl, hgood, hconverged, fun hwas => ?_⟩
  have hsame : b.createTopic names.snsTopic = b := by
    obtain ⟨t, ht, -⟩ := hwas.topic
    exact createTopic_eq ht
  rw [hsame] at hagain
  exact hagain (fun name hmem => hwas.settled hmem) hwas.filtered

-- ---------------------------------------------------------------------------
-- Any number of runs
-- ---------------------------------------------------------------------------

/-- The broker is orderly, and what is left of the run keeps it so. -/
structure Setup.Inv (names : Names) (s : Setup) : Prop where
  orderly : Orderly names s.broker
  script : Ends names (fun _ _ => True) s.script s.broker

theorem Setup.Inv.initial : (Setup.initial nextId).Inv names := ⟨.empty, fun _ _ => trivial⟩

theorem Setup.Inv.main (h : Setup.Inv names s) (hnames : names.Distinct) :
    Setup.Inv names { s with script := Bootstrap.main names settings } :=
  ⟨h.orderly, (main_ends hnames h.orderly).mono fun _ _ _ => trivial⟩

theorem Setup.Inv.step (h : Setup.Inv names s) (hnames : names.Distinct)
    (hstep : setupStep names s action = some s') : Setup.Inv names s' := by
  cases action with
  | main settings =>
    cases hstep
    exact h.main hnames
  | call =>
    obtain ⟨horderly, hscript⟩ := h
    obtain ⟨broker, script⟩ := s
    cases script with
    | done a => cases hstep
    | call c k =>
      simp only [setupStep] at hstep
      split at hstep
      next r broker' hcall =>
        cases hstep
        obtain ⟨horderly', hrest⟩ := hscript.step (.inl rfl) hcall
        exact ⟨horderly', hrest⟩
      next => cases hstep; exact ⟨horderly, fun _ _ => trivial⟩
  | createTopic =>
    cases hstep
    exact ⟨h.orderly.createTopic, h.script.stable beside_trans (.inr rfl)⟩

theorem Setup.Inv.of_reaches (hnames : names.Distinct)
    (h : (setupMachine names).Reaches Machine.anyStep (.initial nextId) s) : Setup.Inv names s :=
  h.invariant .initial fun _ _ _ hinv _ hstep => hinv.step hnames hstep

end OutboxFanout.Bootstrap
