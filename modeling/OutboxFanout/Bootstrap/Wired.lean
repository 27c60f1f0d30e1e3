import OutboxFanout.Bootstrap.Main

/-!
# A complete bootstrap run leaves the topic wired

Whatever a bootstrap run has set up stays until the broker restarts
(`Grows`): relays only create the topic, and every other run sets the same
policies. So a run that began after the last restart never fails, and ends
with all three queues subscribed (`main_ensures`); one that began before it
still only adds.
-/

namespace OutboxFanout.Bootstrap

open Script

variable {topic : TopicArn} {fresh : Prop} {b b' : Broker} {names : Names} {settings : Settings}

-- ---------------------------------------------------------------------------
-- What a run sets up
-- ---------------------------------------------------------------------------

def TopicExists (topic : TopicArn) (b : Broker) : Prop := ∃ t, b.topics topic.name = some t

def QueueExists (name : String) (b : Broker) : Prop := ∃ attributes, b.queues name = some attributes

def Subscribed (topic : TopicArn) (P : Subscription → Prop) (b : Broker) : Prop :=
  ∃ t, b.topics topic.name = some t ∧ ∃ s ∈ t.subscriptions, P s

structure Wired (topic : TopicArn) (name : String) (b : Broker) : Prop where
  grants : b.grants ⟨name⟩ topic = true
  subscribed : Subscribed topic (fun s => s.endpoint = ⟨name⟩ ∧ s.filterPolicy = some filterPolicy) b

/-- What a call may do to a subscription. -/
structure Keeps (s s' : Subscription) : Prop where
  id : s'.id = s.id
  endpoint : s'.endpoint = s.endpoint
  filterPolicy : s.filterPolicy = some filterPolicy → s'.filterPolicy = some filterPolicy

structure Grows (topic : TopicArn) (b b' : Broker) : Prop where
  topics : ∀ t, b.topics topic.name = some t → ∃ t', b'.topics topic.name = some t' ∧
    ∀ s ∈ t.subscriptions, ∃ s' ∈ t'.subscriptions, Keeps s s'
  queues : ∀ name, QueueExists name b → QueueExists name b'
  grants : ∀ queue, b.grants queue topic = true → b'.grants queue topic = true

/-- What lasts until the broker restarts. -/
def Lasting (topic : TopicArn) (F : Broker → Prop) : Prop := ∀ b b', Grows topic b b' → F b → F b'

theorem Keeps.refl (s : Subscription) : Keeps s s := ⟨rfl, rfl, fun h => h⟩

theorem Grows.refl (topic : TopicArn) (b : Broker) : Grows topic b b :=
  ⟨fun t h => ⟨t, h, fun s hs => ⟨s, hs, .refl s⟩⟩, fun _ h => h, fun _ h => h⟩

theorem Grows.trans (h : Grows topic b b') (h' : Grows topic b' b'') : Grows topic b b'' := by
  refine ⟨fun t ht => ?_, fun name hq => h'.queues name (h.queues name hq),
    fun queue hg => h'.grants queue (h.grants queue hg)⟩
  obtain ⟨t', ht', hsubs⟩ := h.topics t ht
  obtain ⟨t'', ht'', hsubs'⟩ := h'.topics t' ht'
  refine ⟨t'', ht'', fun s hs => ?_⟩
  obtain ⟨s', hs', hkeep⟩ := hsubs s hs
  obtain ⟨s'', hs'', hkeep'⟩ := hsubs' s' hs'
  exact ⟨s'', hs'', hkeep'.id.trans hkeep.id, hkeep'.endpoint.trans hkeep.endpoint,
    fun hf => hkeep'.filterPolicy (hkeep.filterPolicy hf)⟩

theorem topicExists_lasting : Lasting topic (TopicExists topic) := fun _ _ h ⟨t, ht⟩ =>
  have ⟨t', ht', _⟩ := h.topics t ht
  ⟨t', ht'⟩

theorem queueExists_lasting : Lasting topic (QueueExists name) := fun _ _ h => h.queues name

theorem subscribed_lasting {P : Subscription → Prop} (hP : ∀ s s', Keeps s s' → P s → P s') :
    Lasting topic (Subscribed topic P) := by
  rintro b b' h ⟨t, ht, s, hs, hp⟩
  obtain ⟨t', ht', hsubs⟩ := h.topics t ht
  obtain ⟨s', hs', hkeep⟩ := hsubs s hs
  exact ⟨t', ht', s', hs', hP s s' hkeep hp⟩

theorem grants_lasting : Lasting topic (fun b => b.grants queue topic = true) :=
  fun _ _ h => h.grants queue

theorem wired_lasting : Lasting topic (Wired topic name) := fun b b' h hw =>
  ⟨h.grants _ hw.grants, subscribed_lasting (fun _ _ hkeep hp =>
    ⟨hkeep.endpoint.trans hp.1, hkeep.filterPolicy hp.2⟩) b b' h hw.subscribed⟩

-- ---------------------------------------------------------------------------
-- The calls
-- ---------------------------------------------------------------------------

/-- The calls of a bootstrap run that overwrite anything. -/
def Benign (topic : TopicArn) : AwsCall → Prop
  | .setQueueAttributes url attributes =>
    ∀ policy, attributes.policy = some policy → policy = queuePolicy ⟨url.name⟩ topic
  | .setFilterPolicy _ policy => policy = filterPolicy
  | _ => True

theorem queuePolicy_allows : (queuePolicy queue topic).allows queue topic = true := by
  simp [QueuePolicy.allows, queuePolicy]

theorem grows_putTopic (hsubs : ∀ t, name = topic.name → b.topics name = some t →
      ∀ s ∈ t.subscriptions, ∃ s' ∈ t'.subscriptions, Keeps s s') :
    Grows topic b (b.putTopic name t') := by
  refine ⟨fun t ht => ?_, fun _ h => h, fun _ h => h⟩
  by_cases hname : topic.name = name
  · refine ⟨t', by simp [Broker.putTopic, hname], hsubs t hname.symm (hname ▸ ht)⟩
  · exact ⟨t, by simpa [Broker.putTopic, hname] using ht, fun s hs => ⟨s, hs, .refl s⟩⟩

theorem grows_putQueue (hgrants : b.grants ⟨name⟩ topic = true →
      attributes.policy.any (·.allows ⟨name⟩ topic) = true) :
    Grows topic b (b.putQueue name attributes) := by
  refine ⟨fun t ht => ⟨t, ht, fun s hs => ⟨s, hs, .refl s⟩⟩, fun name' h => ?_, fun queue h => ?_⟩
  · by_cases hname : name' = name
    · exact ⟨attributes, by simp [Broker.putQueue, hname]⟩
    · simpa [QueueExists, Broker.putQueue, hname] using h
  · obtain ⟨name'⟩ := queue
    by_cases hname : name' = name
    · subst hname
      simpa [Broker.grants, Broker.putQueue] using hgrants h
    · simpa [Broker.grants, Broker.putQueue, hname] using h

theorem answer_grows {c : AwsCall} {r : c.Reply} (hbenign : Benign topic c)
    (h : b.answer c = .ok (r, b')) : Grows topic b b' := by
  unfold Broker.answer at h
  split at h
  next name =>
    cases h
    refine grows_putTopic fun t _ ht s hs => ⟨s, ?_, .refl s⟩
    simpa [ht] using hs
  next name =>
    cases h
    refine grows_putQueue fun hgrants => ?_
    cases hq : b.queues name with
    | none => simp [Broker.grants, hq] at hgrants
    | some attributes => simpa [Broker.grants, hq] using hgrants
  next url attributes =>
    split at h
    next old hq =>
      cases h
      refine grows_putQueue fun hgrants => ?_
      cases hpolicy : attributes.policy with
      | none => simpa [Broker.grants, hq, QueueAttributes.overwrite, hpolicy] using hgrants
      | some policy =>
        simp [QueueAttributes.overwrite, hpolicy, hbenign policy hpolicy, queuePolicy_allows]
    next => cases h
  next =>
    split at h
    next => cases h; exact .refl topic _
    next => cases h
  next =>
    split at h
    next => cases h; exact .refl topic _
    next => cases h
  next subTopic endpoint =>
    split at h
    next t ht =>
      split at h
      next => cases h; exact .refl topic _
      next =>
        cases h
        have hgrows : Grows topic b { b with nextId := b.nextId + 1 } :=
          ⟨fun t ht => ⟨t, ht, fun s hs => ⟨s, hs, .refl s⟩⟩, fun _ h => h, fun _ h => h⟩
        refine hgrows.trans (grows_putTopic fun t' _ ht' s hs => ⟨s, ?_, .refl s⟩)
        obtain rfl : t = t' := Option.some.inj (ht.symm.trans ht')
        exact List.mem_append_left _ hs
    next => cases h
  next subscription policy =>
    split at h
    next t ht =>
      split at h
      next =>
        cases h
        refine grows_putTopic fun t' _ ht' s hs => ?_
        obtain rfl : t = t' := Option.some.inj (ht.symm.trans ht')
        by_cases hid : s.id = subscription.id
        · refine ⟨_, Rows.mem_update_of_eq hs hid, rfl, rfl, fun _ => ?_⟩
          exact congrArg some hbenign
        · exact ⟨s, Rows.mem_update_of_ne hs hid, .refl s⟩
      next => cases h
    next => cases h
  next =>
    split at h
    next => cases h; exact .refl topic _
    next => cases h

-- ---------------------------------------------------------------------------
-- The run
-- ---------------------------------------------------------------------------

/-- A run and the others: they only add while the run is `fresh`, it only ever
adds, and it does not fail while it is fresh. -/
def contract (topic : TopicArn) (fresh : Prop) : Contract Broker where
  rely b b' := fresh → Grows topic b b'
  guar := Grows topic
  fails := ¬fresh

abbrev Runs (topic : TopicArn) (fresh : Prop) (Q : α → Broker → Prop) (prog : Aws α) (b : Broker) :
    Prop := Ensures Broker.answer (contract topic fresh) Q prog b

theorem Runs.bind {P : α → Broker → Prop} {Q : β → Broker → Prop} {prog : Aws α} {f : α → Aws β}
    (h : Runs topic fresh P prog b) (hf : ∀ a b, P a b → Runs topic fresh Q (f a) b) :
    Runs topic fresh Q (prog >>= f) b :=
  Ensures.bind (fun _ => .refl topic _) h hf

theorem Runs.frame {F : Broker → Prop} {Q : α → Broker → Prop} {prog : Aws α}
    (h : Runs topic fresh Q prog b) (hF : Lasting topic F) (hb : fresh → F b) :
    Runs topic fresh (fun a b => Q a b ∧ (fresh → F b)) prog b :=
  Ensures.frame h hb (fun hr hf hfresh => hF _ _ (hr hfresh) (hf hfresh))
    fun hg hf hfresh => hF _ _ hg (hf hfresh)

/-- A call that succeeds where `F` holds, and leaves `G`. -/
theorem runs_lift {c : AwsCall} {F : Broker → Prop} {P : c.Reply → Prop}
    {G : c.Reply → Broker → Prop} (hbenign : Benign topic c) (hb : fresh → F b)
    (hF : Lasting topic F) (hG : ∀ r, Lasting topic (G r))
    (hanswers : ∀ b, F b → ∃ r b', b.answer c = .ok (r, b') ∧ G r b')
    (hreply : ∀ (b : Broker) r b', b.answer c = .ok (r, b') → P r) :
    Runs topic fresh (fun r b => P r ∧ (fresh → G r b)) (lift c) b := by
  refine ensures_lift fun t hrely => ?_
  cases hanswer : t.answer c with
  | error exc =>
    intro hfresh
    obtain ⟨r, b', hok, -⟩ := hanswers t (hF _ _ (hrely hfresh) (hb hfresh))
    rw [hok] at hanswer
    cases hanswer
  | ok reply =>
    obtain ⟨r, b'⟩ := reply
    refine ⟨answer_grows hbenign hanswer, fun u hu => ⟨hreply t r b' hanswer, fun hfresh => ?_⟩⟩
    obtain ⟨r₁, b₁, hok, hg⟩ := hanswers t (hF _ _ (hrely hfresh) (hb hfresh))
    rw [hok] at hanswer
    cases hanswer
    exact hG _ _ _ (hu hfresh) hg

theorem true_lasting : Lasting topic fun _ => True := fun _ _ _ _ => trivial

theorem topicArn_runs : Runs topic fresh (fun r b => r = topic ∧ (fresh → TopicExists topic b))
    (Aws.topicArn topic.name) b := by
  refine runs_lift (c := .createTopic topic.name) (F := fun _ => True) trivial (fun _ => trivial)
    true_lasting (fun _ => topicExists_lasting) (fun b _ => ⟨_, _, rfl, ?_⟩) fun b r b' h => ?_
  · exact ⟨_, Function.update_self ..⟩
  · cases h; rfl

theorem createQueue_runs : Runs topic fresh (fun r b => r = ⟨name⟩ ∧ (fresh → QueueExists name b))
    (Aws.createQueue name) b := by
  refine runs_lift (c := .createQueue name) (F := fun _ => True) trivial (fun _ => trivial)
    true_lasting (fun _ => queueExists_lasting) (fun b _ => ⟨_, _, rfl, ?_⟩) fun b r b' h => ?_
  · exact ⟨_, Function.update_self ..⟩
  · cases h; rfl

theorem setQueueAttributes_runs (hbenign : Benign topic (.setQueueAttributes url attributes))
    (hb : fresh → QueueExists url.name b) :
    Runs topic fresh (fun _ b => True ∧
        (fresh → attributes.policy ≠ none → b.grants ⟨url.name⟩ topic = true))
      (Aws.setQueueAttributes url attributes) b := by
  refine runs_lift (c := .setQueueAttributes url attributes) hbenign hb queueExists_lasting
    (fun _ _ _ hgrows hg hne => hgrows.grants _ (hg hne)) ?_ fun _ _ _ _ => trivial
  rintro b ⟨old, hq⟩
  refine ⟨(), b.putQueue url.name (old.overwrite attributes), by simp only [Broker.answer, hq],
    fun hne => ?_⟩
  obtain ⟨policy, hpolicy⟩ := Option.ne_none_iff_exists'.mp hne
  simp [Broker.grants, Broker.putQueue, QueueAttributes.overwrite, hpolicy,
    hbenign policy hpolicy, queuePolicy_allows]

theorem getQueueAttributes_runs (hb : fresh → QueueExists url.name b) :
    Runs topic fresh (fun r _ => r.1 = ⟨url.name⟩ ∧ (fresh → True))
    (Aws.getQueueAttributes url) b := by
  refine runs_lift (c := .getQueueAttributes url) trivial hb queueExists_lasting
    (fun _ => true_lasting) ?_ fun b r b' h => ?_
  · rintro b ⟨attributes, hq⟩
    exact ⟨(⟨url.name⟩, attributes), b, by simp only [Broker.answer, hq], trivial⟩
  · simp only [Broker.answer] at h
    split at h <;> cases h
    rfl

theorem queueArn_runs (hb : fresh → QueueExists url.name b) :
    Runs topic fresh (fun r _ => r = ⟨url.name⟩) (Aws.queueArn url) b := by
  refine (getQueueAttributes_runs hb).bind ?_
  rintro ⟨arn, attributes⟩ b ⟨rfl, -⟩
  exact ensures_pure fun _ _ => rfl

theorem queueUrl_runs (hb : fresh → QueueExists name b) :
    Runs topic fresh (fun r _ => r = ⟨name⟩ ∧ (fresh → True)) (Aws.queueUrl name) b := by
  refine runs_lift (c := .getQueueUrl name) trivial hb queueExists_lasting
    (fun _ => true_lasting) ?_ fun b r b' h => ?_
  · rintro b ⟨attributes, hq⟩
    exact ⟨⟨name⟩, b, by simp only [Broker.answer, hq], trivial⟩
  · simp only [Broker.answer] at h
    split at h <;> cases h
    rfl

theorem subscribe_runs (hb : fresh → TopicExists topic b) :
    Runs topic fresh (fun r b => r.topic = topic ∧
        (fresh → Subscribed topic (fun s => s.id = r.id ∧ s.endpoint = endpoint) b))
      (Aws.subscribe topic endpoint) b := by
  refine runs_lift (c := .subscribe topic endpoint) trivial hb topicExists_lasting ?_ ?_
    fun b r b' h => ?_
  · exact fun r => subscribed_lasting fun s s' hkeep hp =>
      ⟨hkeep.id.trans hp.1, hkeep.endpoint.trans hp.2⟩
  · rintro b ⟨t, ht⟩
    simp only [Broker.answer, ht]
    split
    next s hfind =>
      have hendpoint : s.endpoint = endpoint := by simpa using List.find?_some hfind
      exact ⟨_, _, rfl, t, ht, s, List.mem_of_find?_eq_some hfind, rfl, hendpoint⟩
    next hfind =>
      exact ⟨_, _, rfl, _, Function.update_self .., _, List.mem_append_right _ List.mem_cons_self,
        rfl, rfl⟩
  · simp only [Broker.answer] at h
    split at h
    next => split at h <;> cases h <;> rfl
    next => cases h

theorem setFilterPolicy_runs
    (hb : fresh → Subscribed topic (fun s => s.id = key ∧ s.endpoint = endpoint) b) :
    Runs topic fresh (fun _ b => True ∧ (fresh → Subscribed topic
        (fun s => s.endpoint = endpoint ∧ s.filterPolicy = some filterPolicy) b))
      (Aws.setFilterPolicy ⟨topic, key⟩ filterPolicy) b := by
  refine runs_lift (c := .setFilterPolicy ⟨topic, key⟩ filterPolicy) rfl hb ?_ ?_ ?_
    fun _ _ _ _ => trivial
  · exact subscribed_lasting fun s s' hkeep hp => ⟨hkeep.id.trans hp.1, hkeep.endpoint.trans hp.2⟩
  · exact fun _ => subscribed_lasting fun s s' hkeep hp =>
      ⟨hkeep.endpoint.trans hp.1, hkeep.filterPolicy hp.2⟩
  · rintro b ⟨t, ht, s, hs, hid, hendpoint⟩
    have hany : t.subscriptions.any (·.id = key) = true := List.any_eq_true.mpr ⟨s, hs, by simp [hid]⟩
    refine ⟨(), b.putTopic topic.name (t.setFilterPolicy key filterPolicy), ?_, ?_⟩
    · simp only [Broker.answer, ht, hany, ↓reduceIte]
    · exact ⟨_, Function.update_self .., _, Rows.mem_update_of_eq hs hid, hendpoint, rfl⟩

theorem listSubscriptions_runs (hb : fresh → TopicExists topic b) :
    Runs topic fresh (fun _ _ => True ∧ (fresh → True)) (Aws.listSubscriptionsByTopic topic) b := by
  refine runs_lift (c := .listSubscriptionsByTopic topic) trivial hb topicExists_lasting
    (fun _ => true_lasting) ?_ fun _ _ _ _ => trivial
  rintro b ⟨t, ht⟩
  exact ⟨t.subscriptions, b, by simp only [Broker.answer, ht], trivial⟩

-- ---------------------------------------------------------------------------
-- The functions
-- ---------------------------------------------------------------------------

theorem ensureQueue_runs : Runs topic fresh
    (fun r b => r = (⟨name⟩, ⟨name⟩) ∧ (fresh → QueueExists name b))
    (ensureQueue settings name dlqArn) b := by
  refine createQueue_runs.bind ?_
  rintro _ b ⟨rfl, hqueue⟩
  refine ((setQueueAttributes_runs (by simp [Benign, queueAttributes]) hqueue).frame
    queueExists_lasting hqueue).bind ?_
  rintro _ b ⟨-, hqueue⟩
  refine ((queueArn_runs hqueue).frame queueExists_lasting hqueue).bind ?_
  rintro _ b ⟨rfl, hqueue⟩
  exact ensures_pure fun t ht => ⟨rfl, fun hfresh => queueExists_lasting _ _ (ht hfresh) (hqueue hfresh)⟩

theorem ensureSubscription_runs (htopic : fresh → TopicExists topic b)
    (hqueue : fresh → QueueExists name b) :
    Runs topic fresh (fun _ b => fresh → Wired topic name b)
      (ensureSubscription topic ⟨name⟩ ⟨name⟩) b := by
  refine ((setQueueAttributes_runs (by simp [Benign]) hqueue).frame topicExists_lasting htopic).bind ?_
  rintro _ b ⟨⟨-, hgrants⟩, htopic⟩
  replace hgrants : fresh → b.grants ⟨name⟩ topic = true := fun hfresh => hgrants hfresh (by simp)
  refine ((subscribe_runs htopic).frame grants_lasting hgrants).bind ?_
  rintro ⟨_, key⟩ b ⟨⟨rfl, hsubscribed⟩, hgrants⟩
  refine ((setFilterPolicy_runs hsubscribed).frame grants_lasting hgrants).bind ?_
  rintro _ b ⟨⟨-, hfiltered⟩, hgrants⟩
  exact ensures_pure fun t ht hfresh =>
    wired_lasting _ _ (ht hfresh) ⟨hgrants hfresh, hfiltered hfresh⟩

/-- All that the first loop sets up for one queue. -/
structure Ready (names : Names) (topic : TopicArn) (name : String) (b : Broker) : Prop where
  wired : Wired topic name b
  queue : QueueExists name b
  dlq : QueueExists (names.dlqFor name) b

theorem ready_lasting : Lasting topic (Ready names topic name) := fun b b' h hr =>
  ⟨wired_lasting b b' h hr.wired, h.queues _ hr.queue, h.queues _ hr.dlq⟩

theorem ensureFanout_runs (htopic : fresh → TopicExists topic b) :
    Runs topic fresh (fun _ b => fresh → Ready names topic name b)
      (ensureFanout names settings topic name) b := by
  refine (ensureQueue_runs.frame topicExists_lasting htopic).bind ?_
  rintro _ b ⟨⟨rfl, hdlq⟩, htopic⟩
  refine ((ensureQueue_runs.frame topicExists_lasting htopic).frame queueExists_lasting hdlq).bind ?_
  rintro _ b ⟨⟨⟨rfl, hqueue⟩, htopic⟩, hdlq⟩
  refine (((ensureSubscription_runs htopic hqueue).frame queueExists_lasting hqueue).frame
    queueExists_lasting hdlq).bind ?_
  rintro _ b ⟨⟨hwired, hqueue⟩, hdlq⟩
  exact ensures_pure fun t ht hfresh =>
    ready_lasting _ _ (ht hfresh) ⟨hwired hfresh, hqueue hfresh, hdlq hfresh⟩

def AllReady (names : Names) (topic : TopicArn) (queues : List String) (b : Broker) : Prop :=
  ∀ name ∈ queues, Ready names topic name b

theorem allReady_lasting : Lasting topic (AllReady names topic queues) :=
  fun b b' h hr name hmem => ready_lasting b b' h (hr name hmem)

theorem ensureAll_runs {queues : List String} (htopic : fresh → TopicExists topic b) :
    Runs topic fresh (fun _ b => fresh → AllReady names topic queues b)
      (ensureAll names settings topic queues) b := by
  induction queues generalizing b with
  | nil => exact ensures_pure fun _ _ _ _ hmem => nomatch hmem
  | cons name queues ih =>
    refine ((ensureFanout_runs htopic).frame topicExists_lasting htopic).bind ?_
    rintro _ b ⟨hready, htopic⟩
    refine ((ih htopic).frame ready_lasting hready).mono ?_
    rintro _ b ⟨hrest, hready⟩ hfresh
    exact List.forall_mem_cons.mpr ⟨hready hfresh, hrest hfresh⟩

theorem arnsOf_runs {queues : List String} (hb : fresh → ∀ name ∈ queues, QueueExists name b) :
    Runs topic fresh (fun _ _ => True) (arnsOf queues) b := by
  induction queues generalizing b with
  | nil => exact ensures_pure fun _ _ => trivial
  | cons name queues ih =>
    have hlasting : Lasting topic fun b => ∀ name' ∈ name :: queues, QueueExists name' b :=
      fun b b' h hq name' hmem => h.queues name' (hq name' hmem)
    refine (queueUrl_runs fun hfresh => hb hfresh name List.mem_cons_self).frame hlasting hb |>.bind ?_
    rintro _ b ⟨⟨rfl, -⟩, hb⟩
    refine (queueArn_runs fun hfresh => hb hfresh name List.mem_cons_self).frame hlasting hb |>.bind ?_
    rintro _ b ⟨-, hb⟩
    refine (ih fun hfresh name' hmem => hb hfresh name' (List.mem_cons_of_mem _ hmem)).bind ?_
    exact fun _ _ _ => ensures_pure fun _ _ => trivial

theorem verifyRedrive_runs {queues : List String} (hb : fresh → AllReady names topic queues b) :
    Runs topic fresh (fun _ _ => True) (verifyRedrive names queues) b := by
  induction queues generalizing b with
  | nil => exact ensures_pure fun _ _ => trivial
  | cons name queues ih =>
    have hhead : ∀ {b}, (fresh → AllReady names topic (name :: queues) b) →
        fresh → Ready names topic name b := fun hb hfresh => hb hfresh name List.mem_cons_self
    refine (queueUrl_runs fun hfresh => (hhead hb hfresh).queue).frame allReady_lasting hb |>.bind ?_
    rintro _ b ⟨⟨rfl, -⟩, hb⟩
    refine (getQueueAttributes_runs fun hfresh => (hhead hb hfresh).queue).frame allReady_lasting hb
      |>.bind ?_
    rintro ⟨arn, attributes⟩ b ⟨-, hb⟩
    dsimp only
    split
    next => exact ensures_pure fun _ _ => trivial
    next policy =>
      refine (queueUrl_runs fun hfresh => (hhead hb hfresh).dlq).frame allReady_lasting hb |>.bind ?_
      rintro _ b ⟨⟨rfl, -⟩, hb⟩
      refine (queueArn_runs fun hfresh => (hhead hb hfresh).dlq).frame allReady_lasting hb |>.bind ?_
      rintro _ b ⟨-, hb⟩
      split
      · exact ensures_pure fun _ _ => trivial
      · exact ih fun hfresh name' hmem => hb hfresh name' (List.mem_cons_of_mem _ hmem)

theorem main_runs : Runs ⟨names.snsTopic⟩ fresh
    (fun _ b => fresh → AllReady names ⟨names.snsTopic⟩ names.queueNames b)
    (main names settings) b := by
  refine topicArn_runs.bind ?_
  rintro _ b ⟨rfl, htopic⟩
  refine ((ensureAll_runs htopic).frame topicExists_lasting htopic).bind ?_
  rintro _ b ⟨hready, htopic⟩
  refine ((listSubscriptions_runs htopic).frame allReady_lasting hready).bind ?_
  rintro subscriptions b ⟨-, hready⟩
  refine (arnsOf_runs fun hfresh name hmem => (hready hfresh name hmem).queue).frame
    allReady_lasting hready |>.bind ?_
  rintro expectedArns b ⟨-, hready⟩
  split
  · exact ensures_pure fun t ht hfresh => allReady_lasting _ _ (ht hfresh) (hready hfresh)
  · exact ((verifyRedrive_runs hready).frame allReady_lasting hready).mono fun _ _ h => h.2

-- ---------------------------------------------------------------------------
-- What a wired topic delivers
-- ---------------------------------------------------------------------------

theorem accepts_orderCreated (h : s.filterPolicy = some filterPolicy) :
    Subscription.accepts s "OrderCreated" = true := by
  simp [Subscription.accepts, h, filterPolicy]

/-- One publish puts one copy into the queue. -/
theorem Wired.count_copies (h : Wired topic name b) :
    (b.copies topic "OrderCreated").count name = 1 := by
  obtain ⟨t, ht, s, hs, hendpoint, hfilter⟩ := h.subscribed
  simp only [Broker.copies, ht]
  refine List.count_eq_one_of_mem ?_ ?_
  · have hkeys := t.keyed.sublist ((List.filter_sublist (p := fun s =>
      b.grants s.endpoint topic && s.accepts "OrderCreated")).map Subscription.endpoint)
    have hnames := hkeys.map (f := QueueArn.name) fun _ _ hname => congrArg QueueArn.mk hname
    rw [List.map_map] at hnames
    exact hnames
  · refine List.mem_map.mpr ⟨s, List.mem_filter.mpr ⟨hs, ?_⟩, congrArg QueueArn.name hendpoint⟩
    simp only [hendpoint, h.grants, accepts_orderCreated hfilter, Bool.and_self]

end OutboxFanout.Bootstrap
