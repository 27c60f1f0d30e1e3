import OutboxFanout.Bootstrap.Wired
import OutboxFanout.Relay.History
import OutboxFanout.Relay.Publisher

/-!
# The broker restarts

A restart wipes every topic, queue and subscription. A relay then publishes to
the ARN it has cached, forgets it on the NotFound, and creates the topic anew,
without subscriptions. Here relays, requests, restarts and bootstrap runs
interleave, one AWS call a step.
-/

namespace OutboxFanout.Restart

open Bootstrap Outbox

abbrev RunId := Nat

/-- A bootstrap run in progress; `epoch` is the number of restarts before it. -/
structure Run where
  script : Aws Int
  epoch : Nat

/-- `epoch` and the fields after it are history: nothing the code does depends on them. -/
structure State where
  outbox : Outbox.State
  broker : Broker
  -- publisher._topic_arn of each relay
  topicArn : RelayId → Option TopicArn
  runs : RunId → Option Run
  -- restarts so far
  epoch : Nat
  -- a bootstrap run that began after the last restart has ended
  bootstrapped : Bool
  -- the queues that got a copy of what the relay published last
  copies : RelayId → List String
  -- for every committed mark, the row and the queues its publish had reached
  marked : List (UUID × List String)

inductive Action where
  -- any step but the start of a relay and its publish
  | outbox (action : Outbox.Action)
  -- relay.main up to its loop; the answer is create_topic's
  | start (r : RelayId) (config : Relay.Config) (answer : Answer)
  -- topic_arn() within publish, the ARN not cached
  | resolve (r : RelayId) (answer : Answer)
  | publish (r : RelayId) (answer : Answer)
  | restart
  | bootstrap (i : RunId) (settings : Settings)
  | call (i : RunId)
  | exit (i : RunId)
  -- the run is killed, or a call of it raises
  | cut (i : RunId)

/-- The exception a call raised. -/
def exc? : Answer → Option Exc
  | .accepted => none
  | .refused exc | .lost exc => some exc

/-- The call took effect. -/
def effective : Answer → Bool
  | .accepted | .lost _ => true
  | .refused _ => false

variable (names : Names)

/-- `topic_arn()` with nothing cached. -/
def State.resolve (s : State) (r : RelayId) : Answer → State
  | .accepted =>
    { s with
      broker := s.broker.createTopic names.snsTopic
      topicArn := Function.update s.topicArn r (some ⟨names.snsTopic⟩) }
  | .refused _ => s
  | .lost _ => { s with broker := s.broker.createTopic names.snsTopic }

/-- The mark this step commits, with the queues its publish reached. -/
def State.marks (s : State) : Outbox.Action → List (UUID × List String)
  | .relay r (.commit outcome _) =>
    match (s.outbox.relays r).pc, outcome with
    | .accepted event _, .done => [(event.id, s.copies r)]
    | .accepted event _, .lost _ => [(event.id, s.copies r)]
    | _, _ => []
  | _ => []

def State.put (s : State) (i : RunId) (run : Option Run) : State :=
  { s with runs := Function.update s.runs i run }

def step (s : State) : Action → Option State
  | .outbox (.relay _ (.start _)) => none
  | .outbox (.relay _ (.publish _)) => none
  | .outbox action =>
    (Outbox.step s.outbox action).map fun outbox =>
      { s with outbox, marked := s.marks action ++ s.marked }
  | .start r config answer =>
    (Outbox.step s.outbox (.relay r (.start config))).map fun outbox =>
      { s with outbox, topicArn := Function.update s.topicArn r none }.resolve names r answer
  | .resolve r answer =>
    match (s.outbox.relays r).pc, s.topicArn r, exc? answer with
    | .locked _ _, none, none => some (s.resolve names r answer)
    | .locked _ _, none, some exc =>
      (Outbox.step s.outbox (.relay r (.publish (.refused exc)))).map fun outbox =>
        { s with outbox }.resolve names r answer
    | _, _, _ => none
  | .publish r answer =>
    match (s.outbox.relays r).pc, s.topicArn r with
    | .locked event _, some arn =>
      -- a missing topic accepts nothing
      if effective answer → (s.broker.topics arn.name).isSome then
        (Outbox.step s.outbox (.relay r (.publish answer))).map fun outbox =>
          { s with
            outbox
            topicArn := Function.update s.topicArn r
              (if (exc? answer).any saysNotFound then none else some arn)
            copies := Function.update s.copies r (s.broker.copies arn event.eventType) }
      else none
    | _, _ => none
  | .restart =>
    some { s with broker := .empty s.broker.nextId, epoch := s.epoch + 1, bootstrapped := false }
  | .bootstrap i settings =>
    match s.runs i with
    | none => some (s.put i (some ⟨main names settings, s.epoch⟩))
    | some _ => none
  | .call i =>
    match s.runs i with
    | some ⟨.call c k, epoch⟩ =>
      match s.broker.answer c with
      | .ok (r, broker) => some ({ s with broker }.put i (some ⟨k r, epoch⟩))
      | .error _ => some (s.put i none)
    | _ => none
  | .exit i =>
    match s.runs i with
    | some ⟨.done _, epoch⟩ =>
      some { s.put i none with bootstrapped := s.bootstrapped || epoch = s.epoch }
    | _ => none
  | .cut i => some (s.put i none)

def machine : Machine State Action := ⟨step names⟩

def State.empty : State where
  outbox := .empty
  broker := .empty 0
  topicArn := fun _ => none
  runs := fun _ => none
  epoch := 0
  bootstrapped := false
  copies := fun _ => []
  marked := []

/-- Every committed mark relied on a publish that put one copy into each queue. -/
def Landed (s : State) : Prop :=
  ∀ mark ∈ s.marked, ∀ queue ∈ names.queueNames, mark.2.count queue = 1

instance : Decidable (Landed names s) := by unfold Landed; infer_instance

/-- Every publish that finds the topic comes after a complete bootstrap run
that began after the last restart. -/
def AfterBootstrap (s : State) : Action → Prop
  | .publish _ _ => (s.broker.topics names.snsTopic).isSome → s.bootstrapped = true
  | _ => True

instance : DecidablePred (AfterBootstrap names s) := fun action => by
  unfold AfterBootstrap
  split <;> infer_instance

-- ---------------------------------------------------------------------------
-- The steps
-- ---------------------------------------------------------------------------

variable {names : Names} {s s' : State}

inductive Step (names : Names) (s : State) : Action → State → Prop
  | outbox (hs : Outbox.Step s.outbox action outbox) (hacc : accepted? s.outbox action = none) :
    Step names s (.outbox action) { s with outbox, marked := s.marks action ++ s.marked }
  | start (hs : Outbox.Step s.outbox (.relay r (.start config)) outbox) :
    Step names s (.start r config answer)
      ({ s with outbox, topicArn := Function.update s.topicArn r none }.resolve names r answer)
  | resolve : Step names s (.resolve r answer) (s.resolve names r answer)
  | resolveFails (hs : Outbox.Step s.outbox (.relay r (.publish (.refused exc))) outbox) :
    Step names s (.resolve r answer) ({ s with outbox }.resolve names r answer)
  | publish (hpc : (s.outbox.relays r).pc = .locked event ids) (harn : s.topicArn r = some arn)
      (htopic : effective answer → (s.broker.topics arn.name).isSome)
      (hs : Outbox.Step s.outbox (.relay r (.publish answer)) outbox)
      (hnext : next = none ∨ next = some arn) :
    Step names s (.publish r answer)
      { s with
        outbox
        topicArn := Function.update s.topicArn r next
        copies := Function.update s.copies r (s.broker.copies arn event.eventType) }
  | restart : Step names s .restart
      { s with broker := .empty s.broker.nextId, epoch := s.epoch + 1, bootstrapped := false }
  | bootstrap : Step names s (.bootstrap i settings) (s.put i (some ⟨main names settings, s.epoch⟩))
  | call {k : c.Reply → Aws Int} {broker : Broker} (hrun : s.runs i = some ⟨.call c k, epoch⟩)
      (hcall : s.broker.answer c = .ok (r, broker)) :
    Step names s (.call i) ({ s with broker }.put i (some ⟨k r, epoch⟩))
  | callFails : Step names s (.call i) (s.put i none)
  | exit (hrun : s.runs i = some ⟨.done code, epoch⟩) :
    Step names s (.exit i) { s.put i none with bootstrapped := s.bootstrapped || epoch = s.epoch }
  | cut : Step names s (.cut i) (s.put i none)

theorem step_cases (h : step names s action = some s') : Step names s action s' := by
  unfold step at h
  split at h
  next => cases h
  next => cases h
  next action hstart hpublish =>
    obtain ⟨outbox, hs, rfl⟩ := Option.map_eq_some_iff.mp h
    refine .outbox (Outbox.step_cases hs) ?_
    unfold accepted?
    split
    next r answer => exact absurd rfl (hpublish r answer)
    next => rfl
  next =>
    obtain ⟨outbox, hs, rfl⟩ := Option.map_eq_some_iff.mp h
    exact .start (Outbox.step_cases hs)
  next =>
    split at h
    next => cases h; exact .resolve
    next =>
      obtain ⟨outbox, hs, rfl⟩ := Option.map_eq_some_iff.mp h
      exact .resolveFails (Outbox.step_cases hs)
    next => cases h
  next =>
    split at h
    next hpc harn =>
      split at h
      next htopic =>
        obtain ⟨outbox, hs, rfl⟩ := Option.map_eq_some_iff.mp h
        refine .publish hpc harn htopic (Outbox.step_cases hs) ?_
        split
        · exact .inl rfl
        · exact .inr rfl
      next => cases h
    next => cases h
  next => cases h; exact .restart
  next =>
    split at h
    next => cases h; exact .bootstrap
    next => cases h
  next =>
    split at h
    next hrun =>
      split at h
      next hcall => cases h; exact .call hrun hcall
      next => cases h; exact .callFails
    next => cases h
  next =>
    split at h
    next hrun => cases h; exact .exit hrun
    next => cases h
  next => cases h; exact .cut

-- ---------------------------------------------------------------------------
-- The invariant
-- ---------------------------------------------------------------------------

/-- What is left of a bootstrap run ends with the topic wired. -/
abbrev Wires (names : Names) (fresh : Prop) (script : Aws Int) (b : Broker) : Prop :=
  Runs ⟨names.snsTopic⟩ fresh
    (fun _ b => fresh → AllReady names ⟨names.snsTopic⟩ names.queueNames b) script b

structure Run.Ok (names : Names) (epoch : Nat) (b : Broker) (run : Run) : Prop where
  epoch_le : run.epoch ≤ epoch
  adds : Wires names False run.script b
  fresh : run.epoch = epoch → Wires names True run.script b

theorem Wires.grow {script : Aws Int} (h : Wires names fresh script b)
    (hgrows : fresh → Grows ⟨names.snsTopic⟩ b b') : Wires names fresh script b' :=
  Script.Ensures.stable (fun h h' hfresh => (h hfresh).trans (h' hfresh)) h hgrows

theorem Run.Ok.grow {run : Run} (h : run.Ok names n b) (hgrows : Grows ⟨names.snsTopic⟩ b b') :
    run.Ok names n b' :=
  ⟨h.epoch_le, h.adds.grow nofun, fun hepoch => (h.fresh hepoch).grow fun _ => hgrows⟩

theorem Run.Ok.restart {run : Run} (h : run.Ok names n b) : run.Ok names (n + 1) b' :=
  ⟨Nat.le_succ_of_le h.epoch_le, h.adds.grow nofun, fun hepoch =>
    absurd (hepoch.symm.trans_le h.epoch_le) (Nat.not_succ_le_self n)⟩

/-- The next call of a run. -/
theorem Run.Ok.call {k : c.Reply → Aws Int} (h : Run.Ok names n b ⟨.call c k, m⟩)
    (hcall : b.answer c = .ok (r, b')) :
    Grows ⟨names.snsTopic⟩ b b' ∧ Run.Ok names n b' ⟨k r, m⟩ := by
  obtain ⟨hgrows, hadds⟩ := h.adds.step nofun hcall
  exact ⟨hgrows, h.epoch_le, hadds,
    fun hepoch => ((h.fresh hepoch).step (fun _ => .refl _ _) hcall).2⟩

def OneEach (names : Names) (copies : List String) : Prop :=
  ∀ queue ∈ names.queueNames, copies.count queue = 1

structure Inv (names : Names) (s : State) : Prop where
  locking : Outbox.Inv s.outbox
  requests : RequestsOk s.outbox
  eventTypes : ∀ row ∈ s.outbox.outbox, row.eventType = eventTypeOrderCreated
  topicArn : ∀ r arn, s.topicArn r = some arn → arn = ⟨names.snsTopic⟩
  runs : ∀ i run, s.runs i = some run → run.Ok names s.epoch s.broker
  ready : s.bootstrapped = true → AllReady names ⟨names.snsTopic⟩ names.queueNames s.broker
  copies : ∀ r event ids, (s.outbox.relays r).pc = .accepted event ids → OneEach names (s.copies r)
  landed : Landed names s

theorem Inv.empty : Inv names .empty where
  locking := Outbox.State.empty_initial.inv
  requests := Outbox.State.empty_initial.requestsOk
  eventTypes := nofun
  topicArn := nofun
  runs := nofun
  ready := nofun
  copies := fun r event ids hpc => by simp [State.empty, Outbox.State.empty, State.holding] at hpc
  landed := nofun

theorem Inv.grow (h : Inv names s) (hgrows : Grows ⟨names.snsTopic⟩ s.broker broker) :
    Inv names { s with broker } :=
  { h with
    runs := fun i run hrun => (h.runs i run hrun).grow hgrows
    ready := fun hboot => allReady_lasting _ _ hgrows (h.ready hboot) }

theorem Inv.put (h : Inv names s) (hrun : ∀ r, run = some r → r.Ok names s.epoch s.broker) :
    Inv names (s.put i run) := by
  refine { h with runs := fun i' run' hrun' => ?_ }
  by_cases hi : i' = i
  · subst hi
    exact hrun run' (by simpa [State.put] using hrun')
  · exact h.runs i' run' (by simpa [State.put, hi] using hrun')

theorem Inv.setArn (h : Inv names s) (hnext : next = none ∨ next = some ⟨names.snsTopic⟩) :
    Inv names { s with topicArn := Function.update s.topicArn r next } := by
  refine { h with topicArn := fun r' arn harn => ?_ }
  by_cases hr : r' = r
  · subst hr
    rcases hnext with rfl | rfl
    · simp at harn
    · simpa [eq_comm] using harn
  · exact h.topicArn r' arn (by simpa [hr] using harn)

theorem Inv.resolve (h : Inv names s) : Inv names (s.resolve names r answer) := by
  have hcreate : Inv names { s with broker := s.broker.createTopic names.snsTopic } :=
    h.grow (answer_grows (c := .createTopic names.snsTopic) trivial rfl)
  cases answer with
  | accepted => exact hcreate.setArn (.inr rfl)
  | refused exc => exact h
  | lost exc => exact hcreate

theorem Inv.outboxStep {outbox : Outbox.State} (h : Inv names s)
    (hs : Outbox.Step s.outbox action outbox)
    (hcopies : ∀ r event ids, (outbox.relays r).pc = .accepted event ids → OneEach names (s.copies r)) :
    Inv names { s with outbox } :=
  { h with
    locking := h.locking.step hs
    requests := h.requests.step hs
    eventTypes := h.requests.eventTypes hs h.eventTypes
    copies := hcopies }

theorem Inv.marks (h : Inv names s) (hmem : mark ∈ s.marks action) : OneEach names mark.2 := by
  unfold State.marks at hmem
  split at hmem
  next r outcome now =>
    split at hmem
    next hpc => exact List.mem_singleton.mp hmem ▸ h.copies r _ _ hpc
    next hpc => exact List.mem_singleton.mp hmem ▸ h.copies r _ _ hpc
    next => cases hmem
  next => cases hmem

/-- What a relay sees accepted reached every queue. -/
theorem Inv.oneEach (h : Inv names s) (hpc : (s.outbox.relays r).pc = .locked event ids)
    (hboot : s.bootstrapped = true) :
    OneEach names (s.broker.copies ⟨names.snsTopic⟩ event.eventType) := by
  intro queue hmem
  rw [h.eventTypes event (h.locking.held r event (by rw [hpc]; rfl)).1]
  exact (h.ready hboot queue hmem).wired.count_copies

theorem Inv.unaccepted {outbox : Outbox.State} (h : Inv names s)
    (hs : Outbox.Step s.outbox action outbox) (hacc : accepted? s.outbox action = none) :
    Inv names { s with outbox } := by
  refine h.outboxStep hs fun r event ids hpc => ?_
  rcases hs.accepted_pc hpc with hpc | hnew
  · exact h.copies r event ids hpc
  · rw [hacc] at hnew
    cases hnew

theorem accepted?_refused {s : Outbox.State} :
    accepted? s (.relay r (.publish (.refused exc))) = none := by
  cases hpc : (s.relays r).pc <;> simp [accepted?, hpc]

theorem Inv.publish {outbox : Outbox.State} (h : Inv names s)
    (hpc : (s.outbox.relays r).pc = .locked event ids)
    (hboot : effective answer → s.bootstrapped = true)
    (hs : Outbox.Step s.outbox (.relay r (.publish answer)) outbox) :
    Inv names { s with
      outbox
      copies := Function.update s.copies r (s.broker.copies ⟨names.snsTopic⟩ event.eventType) } := by
  have hcopies : ∀ r' event' ids', (outbox.relays r').pc = .accepted event' ids' → OneEach names
      (Function.update s.copies r (s.broker.copies ⟨names.snsTopic⟩ event.eventType) r') := by
    intro r' event' ids' hpc'
    by_cases hr : r' = r
    · subst hr
      rw [Function.update_self]
      refine h.oneEach hpc (hboot ?_)
      rcases hs.accepted_pc hpc' with hold | hnew
      · rw [hpc] at hold
        cases hold
      · cases answer with
        | accepted | lost => rfl
        | refused => rw [accepted?_refused] at hnew; cases hnew
    · rw [Function.update_of_ne hr]
      cases hs with
      | relay hrelay => exact h.copies r' event' ids' (hrelay.others hr ▸ hpc')
  exact { h with
    locking := h.locking.step hs
    requests := h.requests.step hs
    eventTypes := h.requests.eventTypes hs h.eventTypes
    copies := hcopies }

theorem Inv.step (h : Inv names s) (hs : Step names s action s')
    (hc : AfterBootstrap names s action) :
    Inv names s' := by
  cases hs with
  | outbox hs hacc =>
    refine { h.unaccepted hs hacc with landed := fun mark hmem => ?_ }
    rcases List.mem_append.mp hmem with hmem | hmem
    · exact h.marks hmem
    · exact h.landed mark hmem
  | start hs => exact ((h.unaccepted hs rfl).setArn (.inl rfl)).resolve
  | resolve => exact h.resolve
  | resolveFails hs => exact (h.unaccepted hs accepted?_refused).resolve
  | publish hpc harn htopic hs hnext =>
    obtain rfl := h.topicArn _ _ harn
    exact (h.publish hpc (fun heff => hc (htopic heff)) hs).setArn hnext
  | restart =>
    exact { h with
      runs := fun i run hrun => (h.runs i run hrun).restart
      ready := nofun }
  | bootstrap =>
    refine h.put fun run hrun => ?_
    cases hrun
    exact ⟨le_rfl, main_runs, fun _ => main_runs⟩
  | call hrun hcall =>
    obtain ⟨hgrows, hnext⟩ := (h.runs _ _ hrun).call hcall
    refine (h.grow hgrows).put fun run hrun => ?_
    cases hrun
    exact hnext
  | callFails | cut => exact h.put nofun
  | @exit i code epoch hrun =>
    have hok := h.runs i _ hrun
    have hput : Inv names (s.put i none) := h.put nofun
    refine { hput with ready := fun hboot => ?_ }
    rcases Bool.or_eq_true_iff.mp hboot with hboot | hepoch
    · exact h.ready hboot
    · exact hok.fresh (of_decide_eq_true hepoch) _ (fun _ => .refl _ _) trivial

theorem landed_of_reaches (h : (machine names).Reaches (AfterBootstrap names) .empty s) :
    Landed names s :=
  (h.invariant (I := Inv names) .empty fun _ _ _ hi hc hs => hi.step (step_cases hs) hc).landed

-- ---------------------------------------------------------------------------
-- With and without a bootstrap run after the restart
-- ---------------------------------------------------------------------------

/-- A complete bootstrap run, the start of a relay, and an order. -/
def deployed : List Action :=
  .bootstrap 0 {} :: List.replicate 47 (.call 0) ++ [.exit 0,
    .start 0 ⟨10, 5, false⟩ .accepted, .outbox (.post 0 false ⟨1⟩ placedAt keyboardOrder),
    .outbox (.flush 0 ⟨2⟩ placedAt), .outbox (.commitOrder 0)]

/-- A poll up to the lock on row 2. -/
def polled : List Action := [.outbox (.relay 0 (.poll [⟨2⟩])), .outbox (.relay 0 .select)]

/-- The publish is accepted and the mark committed. -/
def marked : List Action := [.publish 0 .accepted, .outbox (.relay 0 (.commit .done placedAt))]

theorem landed_deployed : ∃ s, s.marked.length = 1 ∧ Landed {} s := by
  obtain ⟨s, h, hmarked⟩ := (machine {}).exists_reaches (C := AfterBootstrap {}) (s := .empty)
    (deployed ++ polled ++ marked) (fun s => s.marked.length = 1) (by decide +kernel)
  exact ⟨s, hmarked, landed_of_reaches h⟩

/-- The publish to the wiped topic fails, the next poll creates it anew, and the
row is marked although no queue got a copy. -/
theorem not_landed_restarted : ∃ s, (machine {}).Reaches Machine.anyStep .empty s ∧ ¬Landed {} s :=
  (machine {}).exists_reaches (deployed ++ [.restart] ++ polled ++ [.publish 0 (.refused topicNotFound),
    .outbox (.relay 0 .record), .outbox (.relay 0 (.commit .done placedAt))] ++ polled ++
    [.resolve 0 .accepted] ++ marked) (fun s => ¬Landed {} s) (by decide +kernel)

end OutboxFanout.Restart
