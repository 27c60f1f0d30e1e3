import OutboxFanout.Lib.Amortized
import OutboxFanout.Restart

/-!
# The cached ARN

A restart of the broker leaves every relay with an ARN that leads nowhere.
`publish` pays for that once: the NotFound makes it forget the ARN, and the next
publish creates the topic, which nothing but another restart takes away.
-/

namespace OutboxFanout.Restart

open Bootstrap Outbox

-- ---------------------------------------------------------------------------
-- What is there stays
-- ---------------------------------------------------------------------------

def Remain (b b' : Broker) : Prop := ∀ name, (b.topics name).isSome → (b'.topics name).isSome

theorem Remain.refl (b : Broker) : Remain b b := fun _ h => h

theorem remain_putTopic : Remain b (b.putTopic name t) := fun other h => by
  by_cases hname : other = name <;> simp [Broker.putTopic, hname, h]

/-- No call removes a topic. -/
theorem answer_remain {c : AwsCall} {r : c.Reply} (h : b.answer c = .ok (r, b')) : Remain b b' := by
  unfold Broker.answer at h
  split at h
  next => cases h; exact remain_putTopic
  next => cases h; exact fun _ h => h
  next =>
    split at h <;> cases h
    exact fun _ h => h
  next =>
    split at h <;> cases h
    exact .refl b
  next =>
    split at h <;> cases h
    exact .refl b
  next =>
    split at h
    next =>
      split at h <;> cases h
      · exact .refl b
      · exact remain_putTopic
    next => cases h
  next =>
    split at h
    next =>
      split at h <;> cases h
      exact remain_putTopic
    next => cases h
  next =>
    split at h <;> cases h
    exact .refl b

-- ---------------------------------------------------------------------------
-- Stale ARNs
-- ---------------------------------------------------------------------------

/-- The relay has cached an ARN, and there is no such topic. -/
def State.stale (s : State) (r : RelayId) : Bool :=
  (s.topicArn r).any fun arn => (s.broker.topics arn.name).isNone

/-- A publish to a topic that is gone, answered by NotFound. -/
def isNotFound (r : RelayId) (s : State) : Action → Bool
  | .publish r' answer => r' = r && s.stale r && (exc? answer).any saysNotFound
  | _ => false

def isRestart (_ : State) : Action → Bool
  | .restart => true
  | _ => false

variable {names : Names} {s s' : State} {r : RelayId}

theorem stale_of_remain (harn : s'.topicArn r = s.topicArn r) (hremain : Remain s.broker s'.broker)
    (h : s'.stale r = true) : s.stale r = true := by
  unfold State.stale at h ⊢
  rw [harn] at h
  cases hr : s.topicArn r with
  | none => simp [hr] at h
  | some arn =>
    simp only [hr, Option.any_some, Option.isNone_iff_eq_none] at h ⊢
    cases ht : s.broker.topics arn.name with
    | none => rfl
    | some t =>
      have hsome := hremain arn.name (by simp [ht])
      simp [h] at hsome

theorem resolve_remain : Remain s.broker (s.resolve names r' answer).broker := by
  cases answer with
  | refused => exact .refl _
  | accepted | lost => exact remain_putTopic

/-- An ARN that has just been resolved is not stale. -/
theorem stale_of_resolve (h : (s.resolve names r' answer).stale r = true) : s.stale r = true := by
  by_cases harn : (s.resolve names r' answer).topicArn r = s.topicArn r
  · exact stale_of_remain harn resolve_remain h
  · cases answer with
    | refused | lost => exact absurd rfl harn
    | accepted =>
      by_cases hr : r = r'
      · subst hr
        simp [State.stale, State.resolve, Broker.createTopic, Broker.putTopic] at h
      · exact absurd (by simp [State.resolve, hr]) harn

theorem publish_arn (h : step names s (.publish r' answer) = some s') : s'.broker = s.broker ∧
    s'.topicArn = Function.update s.topicArn r'
      (if (exc? answer).any saysNotFound then none else s.topicArn r') := by
  simp only [step] at h
  split at h
  next hpc harn =>
    split at h
    next =>
      obtain ⟨outbox, -, rfl⟩ := Option.map_eq_some_iff.mp h
      exact ⟨rfl, by rw [harn]⟩
    next => cases h
  next => cases h

/-- Only a restart makes an ARN stale. -/
theorem stale_of_step (hs : Step names s action s') (hrestart : action ≠ .restart)
    (hpublish : ∀ r answer, action ≠ .publish r answer) (h : s'.stale r = true) : s.stale r = true := by
  cases hs with
  | publish => exact absurd rfl (hpublish _ _)
  | restart => exact absurd rfl hrestart
  | @start r' =>
    have hforgot := stale_of_resolve h
    by_cases hr : r = r'
    · subst hr
      simp [State.stale] at hforgot
    · refine stale_of_remain ?_ ?_ hforgot
      · simp [hr]
      · exact .refl _
  | resolve => exact stale_of_resolve h
  | resolveFails =>
    have hbefore := stale_of_resolve h
    exact hbefore
  | call hrun hcall =>
    refine stale_of_remain ?_ (answer_remain hcall) h
    rfl
  | _ => exact h

/-- A stale ARN is paid for by the restart that made it stale, and used up by the NotFound. -/
theorem stale_pays (h : step names s action = some s') :
    (if isNotFound r s action then 1 else 0) + (if s'.stale r then 1 else 0) ≤
      (if s.stale r then 1 else 0) + if isRestart s action then 1 else 0 := by
  have hkeep : isNotFound r s action = false → (s'.stale r = true → s.stale r = true) →
      (if isNotFound r s action then 1 else 0) + (if s'.stale r then 1 else 0) ≤
        (if s.stale r then 1 else 0) + if isRestart s action then 1 else 0 := fun hnot hstale => by
    cases hs' : s'.stale r with
    | false => simp [hnot]
    | true => simp [hnot, hstale hs']
  by_cases hrestart : action = .restart
  · subst hrestart
    cases s'.stale r <;> simp [isNotFound, isRestart]
  by_cases hpublish : ∃ r' answer, action = .publish r' answer
  · obtain ⟨r', answer, rfl⟩ := hpublish
    obtain ⟨hbroker, harn⟩ := publish_arn h
    have hremain : Remain s.broker s'.broker := hbroker ▸ .refl _
    by_cases hr : r' = r
    · subst hr
      cases hsays : (exc? answer).any saysNotFound with
      | true =>
        have hforgot : s'.stale r' = false := by simp [State.stale, harn, hsays]
        cases hstale : s.stale r' <;> simp [isNotFound, hforgot, hsays, hstale]
      | false =>
        exact hkeep (by simp [isNotFound, hsays])
          (stale_of_remain (by rw [harn, hsays]; simp) hremain)
    · exact hkeep (by simp [isNotFound, hr])
        (stale_of_remain (by rw [harn, Function.update_of_ne (Ne.symm hr)]) hremain)
  · refine hkeep ?_ (stale_of_step (step_cases h) hrestart fun r answer heq => hpublish ⟨r, answer, heq⟩)
    cases action with
    | publish r answer => exact absurd ⟨r, answer, rfl⟩ hpublish
    | _ => rfl

def staleness (names : Names) (r : RelayId) : Machine.Potential (machine names) Machine.anyStep
    (fun _ => True) (fun s action => if isNotFound r s action then 1 else 0)
    (fun s action => if isRestart s action then 1 else 0) where
  of s := if s.stale r then 1 else 0
  keeps _ _ _ := trivial
  pays _ _ hs := stale_pays hs

/-- A relay does not publish to a missing topic for ever: each restart of the
broker costs it at most one NotFound, whatever else goes on. -/
theorem notFounds_le (hpath : (machine names).Path .empty steps s) (r : RelayId) :
    steps.countP (fun x => isNotFound r x.1 x.2) ≤ steps.countP fun x => isRestart x.1 x.2 := by
  have hle := (staleness names r).total_le hpath (fun _ _ => trivial) trivial
  rw [Machine.total_count, Machine.total_count] at hle
  simpa [staleness, State.stale, State.empty] using Nat.le_of_add_right_le hle

theorem notFounds_le_once : ∃ steps : List (State × Action),
    steps.countP (fun x => isRestart x.1 x.2) = 1 ∧ steps.countP (fun x => isNotFound 0 x.1 x.2) ≤ 1 := by
  obtain ⟨steps, s, hpath, -, hactions, -⟩ := (machine {}).exists_path (C := Machine.anyStep) (s := .empty)
    (deployed ++ [.restart] ++ polled ++ [.publish 0 (.refused topicNotFound)]) (fun _ => True)
    (by decide +kernel)
  have hrestarts : steps.countP (fun x => isRestart x.1 x.2) = 1 :=
    Machine.countP_actions (p := isRestart .empty) hactions
  exact ⟨steps, hrestarts, hrestarts ▸ notFounds_le hpath 0⟩

end OutboxFanout.Restart
