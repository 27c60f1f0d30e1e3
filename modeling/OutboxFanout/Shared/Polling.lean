import OutboxFanout.Billing.Service
import OutboxFanout.Lib.Amortized
import OutboxFanout.Shared.Aws
import OutboxFanout.Shared.Settlement

/-!
# The loop around a batch

`run` of `shared/consumer.py` between two batches: it looks at the shutdown
event, resolves the URL of the queue when it has none, and receives. A call that
raises is followed by a wait, and one that says the queue is gone drops the URL.
A `Site` shows none of this, and every run here is one of the site
(`reaches_site`). The queue itself is gone after a restart of the broker, until
bootstrap creates it again.
-/

namespace OutboxFanout.Polling

/-- Where a consumer stands between two batches. -/
inductive Stage where
  -- while not shutdown.is_set()
  | looking
  | resolving
  | receiving
  -- shutdown.wait(_ERROR_BACKOFF_SECONDS)
  | waiting
  deriving DecidableEq

/-- `present`: the queue exists. -/
structure State (σ η : Type) where
  site : Site σ η
  present : Bool
  stage : ConsumerId → Stage
  queueUrl : ConsumerId → Option QueueUrl

inductive Action (α ε : Type) where
  -- what happens outside the code between two batches
  | site (action : SiteAction α ε)
  | start (c : ConsumerId) (config : ConsumerConfig)
  | look (c : ConsumerId)
  -- the exception the call raised, if any
  | resolve (c : ConsumerId) (error : Option Exc)
  | receive (c : ConsumerId) (ids : List Nat) (error : Option Exc)
  | wake (c : ConsumerId)
  -- the broker restarts, and bootstrap creates the queue
  | vanish
  | provision

/-- `"NonExistentQueue" in exc.response["Error"]["Code"]`, of a `ClientError`. -/
def saysNonExistentQueue (exc : Exc) : Bool :=
  match exc.errorCode with
  | some code => "NonExistentQueue".toList <:+: code.toList
  | none => false

variable {σ η α ε : Type}

def State.to (s : State σ η) (c : ConsumerId) (stage : Stage) : State σ η :=
  { s with stage := Function.update s.stage c stage }

/-- The `except` branches around the receive. -/
def State.failed (s : State σ η) (c : ConsumerId) (exc : Exc) : State σ η :=
  { s.to c .waiting with
    queueUrl := if saysNonExistentQueue exc then Function.update s.queueUrl c none else s.queueUrl }

/-- The messages go with the queue. -/
def forget (site : Site σ η) : Site σ η :=
  { site with queue := { site.queue with messages := [], keyed := List.nodup_nil, bound := nofun } }

/-- The code between two batches is not the site's, and a missing queue gets nothing. -/
def State.passes (s : State σ η) : SiteAction α ε → Bool
  | .consumer _ (.start _) | .consumer _ .exit | .consumer _ (.receive _ _) => false
  | .deliver _ => s.present
  | _ => true

section
variable (handler : Handler σ η α ε) (queueName : String)

def step (s : State σ η) : Action α ε → Option (State σ η)
  | .site action =>
    if s.passes action then (s.site.step handler action).map fun site => { s with site } else none
  | .start c config =>
    (s.site.step handler (.consumer c (.start config))).map fun site =>
      { s.to c .looking with site, queueUrl := Function.update s.queueUrl c none }
  | .look c =>
    match (s.site.consumers c).pc, s.stage c with
    | .polling, .looking =>
      if (s.site.consumers c).shutdown then
        (s.site.step handler (.consumer c .exit)).map fun site => { s with site }
      else some (s.to c (if (s.queueUrl c).isSome then .receiving else .resolving))
    | _, _ => none
  | .resolve c error =>
    match (s.site.consumers c).pc, s.stage c, error with
    | .polling, .resolving, none =>
      if s.present then
        some { s.to c .receiving with queueUrl := Function.update s.queueUrl c (some ⟨queueName⟩) }
      else none
    | .polling, .resolving, some exc => some (s.failed c exc)
    | _, _, _ => none
  | .receive c ids error =>
    match s.stage c with
    | .receiving =>
      if s.present ∨ error.isSome ∧ ids = [] then
        (s.site.step handler (.consumer c (.receive ids error.isNone))).map fun site =>
          match error with
          | none => { s with site }.to c .looking
          | some exc => { s with site }.failed c exc
      else none
    | _ => none
  | .wake c =>
    match (s.site.consumers c).pc, s.stage c with
    | .polling, .waiting => some (s.to c .looking)
    | _, _ => none
  | .vanish => some { s with site := forget s.site, present := false }
  | .provision => some { s with present := true }

def machine : Machine (State σ η) (Action α ε) := ⟨step handler queueName⟩

end

/-- The queue exists, and no process runs. -/
def State.empty (limit : Nat) (store : σ) : State σ η where
  site := .empty limit store
  present := true
  stage := fun _ => .looking
  queueUrl := fun _ => none

-- ---------------------------------------------------------------------------
-- The steps
-- ---------------------------------------------------------------------------

inductive Step (handler : Handler σ η α ε) (queueName : String) (s : State σ η) :
    Action α ε → State σ η → Prop
  | site (hs : s.site.step handler action = some site) (hpass : s.passes action = true) :
    Step handler queueName s (.site action) { s with site }
  | start (hs : s.site.step handler (.consumer c (.start config)) = some site) :
    Step handler queueName s (.start c config)
      { s.to c .looking with site, queueUrl := Function.update s.queueUrl c none }
  | exit (hpc : (s.site.consumers c).pc = .polling) (hstage : s.stage c = .looking)
      (hs : s.site.step handler (.consumer c .exit) = some site) :
    Step handler queueName s (.look c) { s with site }
  | go (hpc : (s.site.consumers c).pc = .polling) (hstage : s.stage c = .looking)
      (hrun : (s.site.consumers c).shutdown = false)
      (hnext : stage = .receiving ∧ (s.queueUrl c).isSome ∨ stage = .resolving) :
    Step handler queueName s (.look c) (s.to c stage)
  | resolve (hpc : (s.site.consumers c).pc = .polling) (hstage : s.stage c = .resolving)
      (hpresent : s.present = true) :
    Step handler queueName s (.resolve c none)
      { s.to c .receiving with queueUrl := Function.update s.queueUrl c (some ⟨queueName⟩) }
  | resolveFails (hpc : (s.site.consumers c).pc = .polling) (hstage : s.stage c = .resolving) :
    Step handler queueName s (.resolve c (some exc)) (s.failed c exc)
  | receive (hstage : s.stage c = .receiving) (hpresent : s.present = true)
      (hs : s.site.step handler (.consumer c (.receive ids true)) = some site) :
    Step handler queueName s (.receive c ids none) ({ s with site }.to c .looking)
  | receiveFails (hstage : s.stage c = .receiving)
      (hs : s.site.step handler (.consumer c (.receive ids false)) = some site) :
    Step handler queueName s (.receive c ids (some exc)) ({ s with site }.failed c exc)
  | wake (hpc : (s.site.consumers c).pc = .polling) (hstage : s.stage c = .waiting) :
    Step handler queueName s (.wake c) (s.to c .looking)
  | vanish : Step handler queueName s .vanish { s with site := forget s.site, present := false }
  | provision : Step handler queueName s .provision { s with present := true }

variable {handler : Handler σ η α ε} {queueName : String} {s s' : State σ η}

theorem step_cases (h : step handler queueName s action = some s') :
    Step handler queueName s action s' := by
  cases action with
  | site action =>
    simp only [step] at h
    split at h
    next hpass =>
      obtain ⟨site, hs, rfl⟩ := Option.map_eq_some_iff.mp h
      exact .site hs hpass
    next => cases h
  | start c config =>
    obtain ⟨site, hs, rfl⟩ := Option.map_eq_some_iff.mp h
    exact .start hs
  | look c =>
    simp only [step] at h
    split at h
    next hpc hstage =>
      split at h
      next =>
        obtain ⟨site, hs, rfl⟩ := Option.map_eq_some_iff.mp h
        exact .exit hpc hstage hs
      next hrun =>
        cases h
        refine .go hpc hstage (by simpa using hrun) ?_
        split
        next hurl => exact .inl ⟨rfl, hurl⟩
        next => exact .inr rfl
    next => cases h
  | resolve c error =>
    simp only [step] at h
    split at h
    next hpc hstage =>
      split at h
      next hpresent => cases h; exact .resolve hpc hstage hpresent
      next => cases h
    next hpc hstage => cases h; exact .resolveFails hpc hstage
    next => cases h
  | receive c ids error =>
    simp only [step] at h
    split at h
    next hstage =>
      split at h
      next hpresent =>
        obtain ⟨site, hs, rfl⟩ := Option.map_eq_some_iff.mp h
        cases error with
        | none => exact .receive hstage (by simpa using hpresent) hs
        | some exc => exact .receiveFails hstage hs
      next => cases h
    next => cases h
  | wake c =>
    simp only [step] at h
    split at h
    next hpc hstage => cases h; exact .wake hpc hstage
    next => cases h
  | vanish => cases h; exact .vanish
  | provision => cases h; exact .provision

-- ---------------------------------------------------------------------------
-- The site
-- ---------------------------------------------------------------------------

/-- The queue does not vanish. -/
def Kept (_ : State σ η) : Action α ε → Prop
  | .vanish => False
  | _ => True

/-- The URL, the waits and the calls that raise do not show in the site: what
every run of a site keeps, every run of the loops keeps. -/
theorem reaches_site (h : (machine handler queueName).Reaches Kept s s') :
    (Site.machine handler).Reaches Machine.anyStep s.site s'.site :=
  h.project State.site fun _ _ _ hkept hs => by
    cases step_cases hs with
    | site hsite => exact .inr ⟨_, trivial, hsite⟩
    | start hsite => exact .inr ⟨.consumer _ _, trivial, hsite⟩
    | exit _ _ hsite => exact .inr ⟨.consumer _ _, trivial, hsite⟩
    | receive _ _ hsite => exact .inr ⟨.consumer _ _, trivial, hsite⟩
    | receiveFails _ hsite => exact .inr ⟨.consumer _ _, trivial, hsite⟩
    | go | resolve | resolveFails | wake | provision => exact .inl rfl
    | vanish => exact hkept.elim

-- ---------------------------------------------------------------------------
-- One consumer
-- ---------------------------------------------------------------------------

/-- The consumer whose step it is. -/
def Action.consumer? : Action α ε → Option ConsumerId
  | .site (.consumer c _) | .start c _ | .look c | .resolve c _ | .receive c _ _ | .wake c => some c
  | .site _ | .vanish | .provision => none

theorem siteStep_others {site site' : Site σ η} (hs : SiteStep handler site action site')
    (hother : ∀ own, action ≠ .consumer c own) : site'.consumers c = site.consumers c := by
  cases hs with
  | deliver | expire | redrive | env => rfl
  | _ =>
    refine Function.update_of_ne (fun heq => ?_) _ _
    subst heq
    exact hother _ rfl

theorem step_others (hs : Step handler queueName s action s') (hother : action.consumer? ≠ some c) :
    s'.site.consumers c = s.site.consumers c ∧ s'.stage c = s.stage c ∧ s'.queueUrl c = s.queueUrl c := by
  have hsite : ∀ {site own}, s.site.step handler (.consumer own site) = some s'.site → own ≠ c →
      s'.site.consumers c = s.site.consumers c := fun hs hne =>
    siteStep_others (Site.step_cases hs) fun _ heq => hne (by cases heq; rfl)
  have hne : ∀ own, action.consumer? = some own → c ≠ own :=
    fun own heq hc => hother (heq.trans (hc ▸ rfl))
  cases hs with
  | site hs =>
    refine ⟨siteStep_others (Site.step_cases hs) fun own heq => hother ?_, rfl, rfl⟩
    rw [heq]
    rfl
  | start hs =>
    have hc := hne _ rfl
    exact ⟨hsite hs hc.symm, by simp [State.to, hc], by simp [hc]⟩
  | exit _ _ hs => exact ⟨hsite hs (hne _ rfl).symm, rfl, rfl⟩
  | receive _ _ hs =>
    have hc := hne _ rfl
    exact ⟨hsite hs hc.symm, by simp [State.to, hc], rfl⟩
  | receiveFails _ hs =>
    have hc := hne _ rfl
    refine ⟨hsite hs hc.symm, by simp [State.failed, State.to, hc], ?_⟩
    simp only [State.failed]
    split <;> simp [hc]
  | resolveFails =>
    have hc := hne _ rfl
    refine ⟨rfl, by simp [State.failed, State.to, hc], ?_⟩
    simp only [State.failed]
    split <;> simp [hc]
  | go | resolve | wake =>
    have hc := hne _ rfl
    exact ⟨rfl, by simp [State.to, hc], by simp [State.to, hc]⟩
  | vanish | provision => exact ⟨rfl, rfl, rfl⟩

-- ---------------------------------------------------------------------------
-- A URL that leads nowhere
-- ---------------------------------------------------------------------------

/-- The consumer has cached a URL, and there is no such queue. -/
def State.stale (s : State σ η) (c : ConsumerId) : Bool := (s.queueUrl c).isSome && !s.present

/-- A receive from a queue that is gone, answered so. -/
def isNonExistent (c : ConsumerId) (s : State σ η) : Action α ε → Bool
  | .receive c' _ (some exc) => c' = c && !s.present && saysNonExistentQueue exc
  | _ => false

def isVanish (_ : State σ η) : Action α ε → Bool
  | .vanish => true
  | _ => false

/-- Who receives has a URL. -/
def Resolved (c : ConsumerId) (s : State σ η) : Prop := s.stage c = .receiving → (s.queueUrl c).isSome

theorem Resolved.step (h : Resolved c s) (hs : Step handler queueName s action s') : Resolved c s' := by
  by_cases hown : action.consumer? = some c
  case neg =>
    obtain ⟨-, hstage, hurl⟩ := step_others hs hown
    rwa [Resolved, hstage, hurl]
  cases hs with
  | site | exit => exact h
  | start => 
    obtain rfl := Option.some.inj hown
    simp [Resolved, State.to]
  | go _ _ _ hnext =>
    obtain rfl := Option.some.inj hown
    intro hstage
    rcases hnext with ⟨-, hurl⟩ | rfl
    · exact hurl
    · simp [State.to] at hstage
  | resolve => 
    obtain rfl := Option.some.inj hown
    simp [Resolved]
  | receive | wake =>
    obtain rfl := Option.some.inj hown
    simp [Resolved, State.to]
  | resolveFails | receiveFails =>
    obtain rfl := Option.some.inj hown
    simp [Resolved, State.failed, State.to]
  | vanish | provision => exact h

theorem State.stale_iff : s.stale c = true ↔ (s.queueUrl c).isSome ∧ s.present = false := by
  simp [State.stale]

theorem failed_queueUrl (h : ((s.failed c exc).queueUrl c').isSome) : (s.queueUrl c').isSome := by
  simp only [State.failed] at h
  split at h
  next =>
    by_cases hc : c' = c
    · simp [hc] at h
    · rwa [Function.update_of_ne hc] at h
  next => exact h

/-- Only a restart of the broker makes a URL stale. -/
theorem stale_of_step (hs : Step handler queueName s action s') (hvanish : action ≠ .vanish)
    (h : s'.stale c = true) : s.stale c = true := by
  rw [State.stale_iff] at h ⊢
  obtain ⟨hurl, habsent⟩ := h
  cases hs with
  | site | exit | go | wake | receive => exact ⟨hurl, habsent⟩
  | @start own =>
    refine ⟨?_, habsent⟩
    by_cases hc : c = own
    · simp [hc] at hurl
    · simpa [hc] using hurl
  | resolve _ _ hpresent => exact absurd (hpresent.symm.trans habsent) (by decide)
  | resolveFails => exact ⟨failed_queueUrl hurl, habsent⟩
  | receiveFails => exact ⟨failed_queueUrl hurl, habsent⟩
  | vanish => exact absurd rfl hvanish
  | provision => cases habsent

theorem stale_of_nonExistent (hs : Step handler queueName s action s') (hresolved : Resolved c s)
    (h : isNonExistent c s action = true) : s.stale c = true ∧ s'.stale c = false := by
  cases hs with
  | @receiveFails own _ _ exc hstage =>
    simp only [isNonExistent, Bool.and_eq_true, decide_eq_true_eq, Bool.not_eq_true'] at h
    obtain ⟨⟨rfl, habsent⟩, hsays⟩ := h
    exact ⟨State.stale_iff.mpr ⟨hresolved hstage, habsent⟩, by simp [State.stale, State.failed, hsays]⟩
  | _ => cases h

def staleness (handler : Handler σ η α ε) (queueName : String) (c : ConsumerId) :
    Machine.Potential (machine handler queueName) Machine.anyStep (Resolved c)
      (fun s action => if isNonExistent c s action then 1 else 0)
      (fun s action => if isVanish s action then 1 else 0) where
  of s := if s.stale c then 1 else 0
  keeps hresolved _ hs := hresolved.step (step_cases hs)
  pays {s action s'} hresolved _ hs := by
    have hstep := step_cases hs
    cases hgone : isNonExistent c s action with
    | true =>
      obtain ⟨hstale, hstale'⟩ := stale_of_nonExistent hstep hresolved hgone
      simp [hstale, hstale']
    | false =>
      by_cases hvanish : action = .vanish
      · subst hvanish
        cases s'.stale c <;> simp [isVanish]
      · have hkeep := stale_of_step (c := c) hstep hvanish
        cases hstale' : s'.stale c with
        | false => simp
        | true => simp [hkeep hstale']

/-- A consumer does not receive from a missing queue for ever: each restart of
the broker costs it at most one such answer. -/
theorem nonExistents_le (hpath : (machine handler queueName).Path (.empty limit store) steps s)
    (c : ConsumerId) : steps.countP (fun x => isNonExistent c x.1 x.2) ≤
      steps.countP fun x => isVanish x.1 x.2 := by
  have hle := (staleness handler queueName c).total_le hpath (fun _ _ => trivial) nofun
  rw [Machine.total_count, Machine.total_count] at hle
  simpa [staleness, State.stale, State.empty] using Nat.le_of_add_right_le hle

abbrev BillingState := State (Table Billing.BillingRecord) (Insert Billing.Values Billing.BillingRecord)

abbrev BillingAction := Action (InsertAnswer Billing.Draws) TableEvent

/-- The broker restarts between the resolve and the receive. -/
theorem nonExistents_le_once : ∃ steps : List (BillingState × BillingAction),
    steps.countP (fun x => isVanish x.1 x.2) = 1 ∧ steps.countP (fun x => isNonExistent 0 x.1 x.2) ≤ 1 := by
  obtain ⟨steps, s, hpath, -, hactions, -⟩ := (machine Billing.handle "billing-queue").exists_path
    (C := Machine.anyStep) (s := .empty 5 .empty)
    [.start 0 ⟨1, 5⟩, .look 0, .resolve 0 none, .vanish, .receive 0 [] (some nonExistentQueue), .wake 0,
      .look 0] (fun _ => True) (by decide)
  have hvanished : steps.countP (fun x => isVanish x.1 x.2) = 1 :=
    Machine.countP_actions (p := isVanish (.empty 5 .empty : BillingState)) hactions
  exact ⟨steps, hvanished, hvanished ▸ nonExistents_le hpath 0⟩

-- ---------------------------------------------------------------------------
-- After the signal
-- ---------------------------------------------------------------------------

/-- A step of this consumer's loop and of the delete in it, which are all its
steps but those of the handler. -/
def isLoop (c : ConsumerId) (_ : State σ η) : Action α ε → Bool
  | .site (.consumer c' .next) | .site (.consumer c' (.delete _ _)) | .look c' | .resolve c' _
  | .receive c' _ _ | .wake c' => c' = c
  | _ => false

def isReceive (c : ConsumerId) (_ : State σ η) : Action α ε → Bool
  | .receive c' _ _ => c' = c
  | _ => false

/-- `_handle_one` is called on the next message. -/
def opens (c : ConsumerId) (s : State σ η) : Action α ε → Bool
  | .site (.consumer c' .next) =>
    match (s.site.consumers c).pc with
    | .batch (_ :: _) => c' = c && !(s.site.consumers c).shutdown
    | _ => false
  | _ => false

/-- The process is not replaced by a new one. -/
def SameProcess (c : ConsumerId) (_ : State σ η) : Action α ε → Prop
  | .start c' _ => c' ≠ c
  | _ => True

def ConsumerPc.inBatch : ConsumerPc η → Bool
  | .down | .polling => false
  | .batch _ | .handling _ _ _ _ | .deleting _ _ _ => true

/-- In a batch the next look is at the flag. -/
def Looking (c : ConsumerId) (s : State σ η) : Prop :=
  ConsumerPc.inBatch (s.site.consumers c).pc = true → s.stage c = .looking

/-- Only a receive begins a batch. -/
theorem inBatch_of_site {site : Site σ η} (hs : SiteStep handler s.site (.consumer c own) site)
    (hpass : s.passes (.consumer c own : SiteAction α ε) = true)
    (h : ConsumerPc.inBatch (site.consumers c).pc = true) :
    ConsumerPc.inBatch (s.site.consumers c).pc = true := by
  cases hs with
  | start | exit | receive => cases hpass
  | killCall | kill | drop => simp [Site.goto, Site.put, ConsumerPc.inBatch] at h
  | stop => simpa [Site.put] using h
  | next hpc | handle hpc | delete hpc | keep hpc =>
    rw [hpc]
    rfl

theorem Looking.step (h : Looking c s) (hs : Step handler queueName s action s') : Looking c s' := by
  by_cases hown : action.consumer? = some c
  case neg =>
    obtain ⟨hconsumer, hstage, -⟩ := step_others hs hown
    rwa [Looking, hconsumer, hstage]
  cases hs with
  | @site action _ hs hpass =>
    cases action with
    | consumer own action =>
      obtain rfl := Option.some.inj hown
      exact fun hin => h (inBatch_of_site (Site.step_cases hs) hpass hin)
    | _ => cases hown
  | start | receive =>
    obtain rfl := Option.some.inj hown
    simp [Looking, State.to]
  | exit _ hstage =>
    obtain rfl := Option.some.inj hown
    exact fun _ => hstage
  | go hpc | resolve hpc | resolveFails hpc | wake hpc =>
    obtain rfl := Option.some.inj hown
    simp [Looking, State.to, State.failed, hpc, ConsumerPc.inBatch]
  | receiveFails _ hs =>
    obtain rfl := Option.some.inj hown
    cases Site.step_cases hs with
    | receive hpc hq hnext =>
      obtain ⟨⟨⟩, -⟩ | ⟨-, rfl⟩ := hnext
      simp [Looking, State.failed, State.to, Site.goto, Site.put, ConsumerPc.inBatch]
  | vanish | provision => exact h

theorem looking_of_reaches (h : (machine handler queueName).Reaches C (.empty limit store) s)
    (c : ConsumerId) : Looking c s :=
  h.invariant (fun _ => rfl) fun _ _ _ hi _ hs => hi.step (step_cases hs)

/-- The loop steps up to the exit. -/
def State.stepsLeft (s : State σ η) (c : ConsumerId) : Nat :=
  match (s.site.consumers c).pc, s.stage c with
  | .down, _ => 0
  | .polling, .looking => 1
  | .polling, .waiting => 2
  | .polling, .receiving => 3
  | .polling, .resolving => 4
  | .batch _, _ => 2
  | .handling _ _ _ _, _ | .deleting _ _ _, _ => 3

def State.receivesLeft (s : State σ η) (c : ConsumerId) : Nat :=
  match (s.site.consumers c).pc, s.stage c with
  | .polling, .receiving | .polling, .resolving => 1
  | _, _ => 0

/-- What a step of a consumer that is to stop does to it. -/
structure Stops (c : ConsumerId) (s : State σ η) (action : Action α ε) (s' : State σ η) : Prop where
  shutdown : (s'.site.consumers c).shutdown = true
  steps : (if isLoop c s action then 1 else 0) + s'.stepsLeft c ≤ s.stepsLeft c
  receives : (if isReceive c s action then 1 else 0) + s'.receivesLeft c ≤ s.receivesLeft c
  opens : opens c s action = false

/-- A step that is none of the loop's leaves the consumer where it is. -/
theorem stops_still {action : Action α ε} (hshutdown : (s'.site.consumers c).shutdown = true)
    (hpc : (s'.site.consumers c).pc = (s.site.consumers c).pc) (hstage : s'.stage c = s.stage c)
    (hloop : isLoop c s action = false) (hreceive : isReceive c s action = false)
    (hopens : opens c s action = false) : Stops c s action s' :=
  ⟨hshutdown, by simp [hloop, State.stepsLeft, hpc, hstage],
    by simp [hreceive, State.receivesLeft, hpc, hstage], hopens⟩

theorem stops_other (hshutdown : (s.site.consumers c).shutdown = true)
    (hs : Step handler queueName s action s') (hother : action.consumer? ≠ some c) :
    Stops c s action s' := by
  obtain ⟨hconsumer, hstage, -⟩ := step_others hs hother
  have hne : ∀ {own}, action.consumer? = some own → own ≠ c := fun heq hc => hother (hc ▸ heq)
  refine stops_still (hconsumer ▸ hshutdown) (by rw [hconsumer]) hstage ?_ ?_ ?_
  · unfold isLoop
    split <;> first | rfl | exact decide_eq_false (hne rfl)
  · unfold isReceive
    split <;> first | rfl | exact decide_eq_false (hne rfl)
  · unfold opens
    split
    next =>
      split
      next => rw [decide_eq_false (hne rfl), Bool.false_and]
      next => rfl
    next => rfl

theorem stops_site {site : Site σ η} {own : ConsumerAction α} (hlooking : Looking c s)
    (hshutdown : (s.site.consumers c).shutdown = true)
    (hs : SiteStep handler s.site (.consumer c own) site)
    (hpass : s.passes (.consumer c own : SiteAction α ε) = true) :
    Stops c s (.site (.consumer c own) : Action α ε) { s with site } := by
  cases hs with
  | start | exit | receive => cases hpass
  | killCall | kill =>
    refine ⟨?_, ?_, ?_, rfl⟩ <;>
      simp [Site.goto, Site.put, hshutdown, State.stepsLeft, State.receivesLeft, isLoop, isReceive]
  | stop => exact stops_still (by simp [Site.put]) (by simp [Site.put]) rfl rfl rfl rfl
  | drop hpc hstop =>
    have hstage := hlooking (by rw [hpc]; rfl)
    refine ⟨?_, ?_, ?_, ?_⟩
    · simpa [Site.goto, Site.put] using hshutdown
    · simp [Site.goto, Site.put, State.stepsLeft, isLoop, hstage, hpc]
    · simp [Site.goto, Site.put, State.receivesLeft, isReceive, hstage]
    · simp only [opens, hpc, hshutdown]
      split <;> simp
  | next hpc hrun => exact absurd (hrun.symm.trans hshutdown) (by decide)
  | @handle _ _ _ _ _ _ _ progress hpc hcall =>
    refine ⟨by simpa [Site.goto, Site.put] using hshutdown, ?_, ?_, rfl⟩ <;> cases progress <;>
      simp [Site.goto, Site.put, Progress.pc, State.stepsLeft, State.receivesLeft, isLoop, isReceive, hpc]
  | delete hpc | keep hpc =>
    refine ⟨by simpa [Site.goto, Site.put] using hshutdown, ?_, ?_, rfl⟩ <;>
      simp [Site.goto, Site.put, State.stepsLeft, State.receivesLeft, isLoop, isReceive, hpc]

theorem stops_step (hlooking : Looking c s) (hshutdown : (s.site.consumers c).shutdown = true)
    (hsame : SameProcess c s action) (hs : Step handler queueName s action s') :
    Stops c s action s' := by
  by_cases hown : action.consumer? = some c
  case neg => exact stops_other hshutdown hs hown
  cases hs with
  | @site action _ hs hpass =>
    cases action with
    | consumer own action =>
      obtain rfl := Option.some.inj hown
      exact stops_site hlooking hshutdown (Site.step_cases hs) hpass
    | _ => cases hown
  | start => exact absurd (Option.some.inj hown) hsame
  | exit hpc hstage hs =>
    obtain rfl := Option.some.inj hown
    cases Site.step_cases hs
    refine ⟨?_, ?_, ?_, rfl⟩ <;> simp [Site.goto, Site.put, hshutdown, State.stepsLeft,
      State.receivesLeft, isLoop, isReceive, hpc, hstage]
  | go _ _ hrun =>
    obtain rfl := Option.some.inj hown
    exact absurd (hrun.symm.trans hshutdown) (by decide)
  | resolve hpc hstage | resolveFails hpc hstage | wake hpc hstage =>
    obtain rfl := Option.some.inj hown
    refine ⟨hshutdown, ?_, ?_, rfl⟩ <;> simp [State.stepsLeft, State.receivesLeft, isLoop, isReceive,
      State.failed, State.to, hpc, hstage]
  | receive hstage _ hs | receiveFails hstage hs =>
    obtain rfl := Option.some.inj hown
    cases Site.step_cases hs with
    | receive hpc hq hnext =>
      rcases hnext with ⟨⟨⟩, rfl⟩ | ⟨⟨⟩, rfl⟩
      refine ⟨?_, ?_, ?_, rfl⟩ <;> simp [Site.goto, Site.put, State.stepsLeft, State.receivesLeft,
        isLoop, isReceive, State.failed, State.to, hpc, hstage, hshutdown]
  | vanish | provision => cases hown

/-- The flag is set, and stays so. -/
def Flagged (c : ConsumerId) (s : State σ η) : Prop :=
  Looking c s ∧ (s.site.consumers c).shutdown = true

/-- A cost that the steps of a stopping consumer pay from `of`. -/
def stopPotential (handler : Handler σ η α ε) (queueName : String) (c : ConsumerId)
    (p : State σ η → Action α ε → Bool) (of : State σ η → Nat)
    (hpays : ∀ {s action s'}, Stops c s action s' → (if p s action then 1 else 0) + of s' ≤ of s) :
    Machine.Potential (machine handler queueName) (SameProcess c) (Flagged c)
      (fun s action => if p s action then 1 else 0) (fun _ _ => 0) where
  of := of
  keeps h hsame hs := ⟨h.1.step (step_cases hs), (stops_step h.1 h.2 hsame (step_cases hs)).shutdown⟩
  pays h hsame hs := hpays (stops_step h.1 h.2 hsame (step_cases hs))

theorem stepsLeft_le : s.stepsLeft c ≤ 4 := by
  unfold State.stepsLeft
  split <;> decide

theorem receivesLeft_le : s.receivesLeft c ≤ 1 := by
  unfold State.receivesLeft
  split <;> decide

-- ---------------------------------------------------------------------------
-- The way out
-- ---------------------------------------------------------------------------

/-- The loop of the consumer comes to its end. -/
def Leaves (handler : Handler σ η α ε) (queueName : String) (c : ConsumerId) (s : State σ η) : Prop :=
  ∃ s', (machine handler queueName).Reaches (fun s action => isLoop c s action = true) s s' ∧
    (s'.site.consumers c).pc = .down

theorem Leaves.of_step (h : Leaves handler queueName c s')
    (hs : step handler queueName s action = some s') (hloop : isLoop c s action = true) :
    Leaves handler queueName c s := by
  obtain ⟨t, hreach, hdown⟩ := h
  exact ⟨t, .trans (.next action .refl hloop hs) hreach, hdown⟩

theorem leaves_of_looking (hflag : (s.site.consumers c).shutdown = true)
    (hpc : (s.site.consumers c).pc = .polling) (hstage : s.stage c = .looking) :
    Leaves handler queueName c s := by
  have hlook : step handler queueName s (.look c) = some { s with site := s.site.goto c .down } := by
    simp [step, hpc, hstage, hflag, Site.step, Site.consumerStep]
  refine Leaves.of_step ⟨_, .refl, ?_⟩ hlook (decide_eq_true rfl)
  simp [Site.goto, Site.put]

theorem leaves_of_waiting (hflag : (s.site.consumers c).shutdown = true)
    (hpc : (s.site.consumers c).pc = .polling) (hstage : s.stage c = .waiting) :
    Leaves handler queueName c s := by
  have hwake : step handler queueName s (.wake c) = some (s.to c .looking) := by
    simp [step, hpc, hstage]
  refine Leaves.of_step ?_ hwake (decide_eq_true rfl)
  exact leaves_of_looking hflag hpc (by simp [State.to])

/-- Every call of the queue may raise. -/
theorem leaves_of_polling (hflag : (s.site.consumers c).shutdown = true)
    (hpc : (s.site.consumers c).pc = .polling) : Leaves handler queueName c s := by
  cases hstage : s.stage c with
  | looking => exact leaves_of_looking hflag hpc hstage
  | waiting => exact leaves_of_waiting hflag hpc hstage
  | resolving =>
    have hraise : step handler queueName s (.resolve c (some nonExistentQueue)) =
        some (s.failed c nonExistentQueue) := by
      simp [step, hpc, hstage]
    refine Leaves.of_step ?_ hraise (decide_eq_true rfl)
    exact leaves_of_waiting hflag hpc (by simp [State.failed, State.to])
  | receiving =>
    let queue := s.site.queue.move [] .inFlight 1
    have hraise : step handler queueName s (.receive c [] (some nonExistentQueue)) =
        some ({ s with site := { s.site with queue }.goto c .polling }.failed c nonExistentQueue) := by
      simp [step, hpc, hstage, Site.step, Site.consumerStep, Queue.receive, queue]
    refine Leaves.of_step (leaves_of_waiting ?_ ?_ ?_) hraise (decide_eq_true rfl)
    · simpa [State.failed, State.to, Site.goto, Site.put] using hflag
    · simp [State.failed, State.to, Site.goto, Site.put]
    · simp [State.failed, State.to]

theorem leaves_of_batch (hlooking : Looking c s) (hflag : (s.site.consumers c).shutdown = true)
    (hpc : (s.site.consumers c).pc = .batch rest) : Leaves handler queueName c s := by
  have hnext : step handler queueName s (.site (.consumer c .next)) =
      some { s with site := s.site.goto c .polling } := by
    cases rest <;> simp [step, State.passes, Site.step, Site.consumerStep, hpc, hflag]
  refine Leaves.of_step (leaves_of_looking ?_ ?_ ?_) hnext (decide_eq_true rfl)
  · simpa [Site.goto, Site.put] using hflag
  · simp [Site.goto, Site.put]
  · exact hlooking (by rw [hpc]; rfl)

/-- The delete of the message in hand may raise, too. -/
theorem leaves_of_deleting (hlooking : Looking c s) (hflag : (s.site.consumers c).shutdown = true)
    (hpc : (s.site.consumers c).pc = .deleting delivery event rest) : Leaves handler queueName c s := by
  have hdelete : step handler queueName s (.site (.consumer c (.delete true false))) =
      some { s with site := s.site.goto c (.batch rest) } := by
    simp [step, State.passes, Site.step, Site.consumerStep, hpc]
  have hbatch : ((s.site.goto c (.batch rest)).consumers c).pc = .batch rest := by
    simp [Site.goto, Site.put]
  refine Leaves.of_step (leaves_of_batch ?_ ?_ hbatch) hdelete (decide_eq_true rfl)
  · exact fun _ => hlooking (by rw [hpc]; rfl)
  · simpa [Site.goto, Site.put] using hflag

/-- Once the flag is set a consumer begins no further message, receives at most
once more, and takes at most four steps of its loop, whatever runs beside it;
and with no call of its handler in progress these lead out of the loop, from a
handled message past its delete. -/
theorem stopping_le (h : (machine handler queueName).Reaches C (.empty limit store) s)
    (hflag : (s.site.consumers c).shutdown = true)
    (hpath : (machine handler queueName).Path s steps s')
    (hsame : Machine.Along (SameProcess c) steps) :
    steps.countP (fun x => opens c x.1 x.2) = 0 ∧ steps.countP (fun x => isReceive c x.1 x.2) ≤ 1 ∧
      steps.countP (fun x => isLoop c x.1 x.2) ≤ 4 ∧
      ((s'.site.consumers c).pc.call? = none → Leaves handler queueName c s') := by
  have hflagged : Flagged c s := ⟨looking_of_reaches h c, hflag⟩
  have hbegun := (stopPotential handler queueName c (opens c) (fun _ => 0)
    fun hstops => by simp [hstops.opens]).total_le_of hpath hsame hflagged
  have hreceived := (stopPotential handler queueName c (isReceive c) (·.receivesLeft c)
    Stops.receives).total_le_of hpath hsame hflagged
  have hlooped := (stopPotential handler queueName c (isLoop c) (·.stepsLeft c)
    Stops.steps).total_le_of hpath hsame hflagged
  rw [Machine.total_count] at hbegun hreceived hlooped
  refine ⟨Nat.le_zero.mp hbegun, hreceived.trans receivesLeft_le, hlooped.trans stepsLeft_le,
    fun hcall => ?_⟩
  have hflagged' : Flagged c s' := (hpath.reaches hsame).invariant hflagged fun _ _ _ hi hsame hs =>
    ⟨hi.1.step (step_cases hs), (stops_step hi.1 hi.2 hsame (step_cases hs)).shutdown⟩
  cases hpc : (s'.site.consumers c).pc with
  | down => exact ⟨s', .refl, hpc⟩
  | polling => exact leaves_of_polling hflagged'.2 hpc
  | batch => exact leaves_of_batch hflagged'.1 hflagged'.2 hpc
  | handling => simp [hpc, ConsumerPc.call?] at hcall
  | deleting => exact leaves_of_deleting hflagged'.1 hflagged'.2 hpc

instance (s : State σ η) : DecidablePred (SameProcess c s (α := α) (ε := ε)) := fun action => by
  unfold SameProcess
  split <;> infer_instance

/-- The signal arrives before the receive, which brings a message all the same. -/
theorem stopping_le_received : ∃ steps : List (BillingState × BillingAction),
    steps.countP (fun x => isReceive 0 x.1 x.2) = 1 ∧ steps.countP (fun x => opens 0 x.1 x.2) = 0 ∧
      steps.countP (fun x => isLoop 0 x.1 x.2) ≤ 4 := by
  let actions : List BillingAction := [.receive 0 [0] none, .site (.consumer 0 .next), .look 0]
  obtain ⟨s, hreach, hflag, hrest⟩ := (machine Billing.handle "billing-queue").exists_reaches
    (C := Machine.anyStep) (s := .empty 5 .empty)
    [.site (.deliver "{}"), .start 0 ⟨1, 5⟩, .look 0, .resolve 0 none, .site (.consumer 0 .stop)]
    (fun s => (s.site.consumers 0).shutdown = true ∧ ((machine Billing.handle "billing-queue").exec
      (SameProcess 0) s actions).any (fun _ => True) = true) (by decide)
  obtain ⟨steps, s', hpath, hsame, hactions, -⟩ :=
    (machine Billing.handle "billing-queue").exists_path actions (fun _ => True) hrest
  have hreceived : steps.countP (fun x => isReceive 0 x.1 x.2) = 1 :=
    Machine.countP_actions (p := isReceive 0 (.empty 5 .empty : BillingState)) hactions
  obtain ⟨hbegun, -, hlooped, -⟩ := stopping_le hreach hflag hpath hsame
  exact ⟨steps, hreceived, hbegun, hlooped⟩

end OutboxFanout.Polling
