import OutboxFanout.Lib.Run
import OutboxFanout.Lib.Simulation

/-!
# Fair runs

A run is `Within` a condition when all its steps are taken where the condition
allows them, and fair to a predicate when that `Ends`: it may hold again and
again, but never for ever. `exists_of_descent` is the rule for progress by
stages, each of which ends in a lower one.
-/

namespace Machine.Run

variable {σ α τ β π : Type} {m : Machine σ α} {n : Machine τ β} {C : σ → α → Prop} {P : σ → Prop}
  {run : m.Run}

/-- Every step of the run is taken where the condition allows it. -/
def Within (run : m.Run) (C : σ → α → Prop) : Prop :=
  ∀ k a, run.action k = some a → C (run.state k) a

/-- What holds does not hold for ever. -/
def Ends (run : m.Run) (P : σ → Prop) : Prop := ∀ k, P (run.state k) → ∃ l ≥ k, ¬P (run.state l)

theorem Within.reaches (h : run.Within C) (hkl : k ≤ l) : m.Reaches C (run.state k) (run.state l) := by
  induction l, hkl using Nat.le_induction with
  | base => exact .refl
  | succ l _ ih =>
    rcases run.next l with hrest | ⟨a, haction, hs⟩
    · exact hrest ▸ ih
    · exact .next a ih (h l a haction) hs

-- ---------------------------------------------------------------------------
-- The steps up to a moment
-- ---------------------------------------------------------------------------

/-- Latest first. -/
def before (run : m.Run) : Nat → List (σ × α)
  | 0 => []
  | k + 1 => ((run.action k).map fun a => (run.state k, a)).toList ++ run.before k

theorem path_before (run : m.Run) (k : Nat) : m.Path (run.state 0) (run.before k) (run.state k) := by
  induction k with
  | zero => exact .refl
  | succ k ih =>
    have hstep := run.step k
    rw [before]
    cases haction : run.action k with
    | none =>
      rw [haction] at hstep
      exact hstep ▸ ih
    | some a =>
      rw [haction] at hstep
      exact .next a ih hstep

theorem Within.along_before (h : run.Within C) (k : Nat) : Along C (run.before k) := by
  induction k with
  | zero => exact along_nil
  | succ k ih =>
    rw [before]
    cases haction : run.action k with
    | none => exact ih
    | some a => exact along_cons.mpr ⟨h k a haction, ih⟩

/-- The counted steps up to a later moment. -/
theorem countP_before_le {p : σ × α → Bool} (hkl : k ≤ l) :
    (run.before k).countP p ≤ (run.before l).countP p := by
  induction l, hkl using Nat.le_induction with
  | base => exact le_rfl
  | succ l _ ih =>
    rw [before, List.countP_append]
    exact ih.trans (Nat.le_add_left ..)

theorem countP_before_succ {p : σ × α → Bool} (haction : run.action k = some a)
    (hp : p (run.state k, a) = true) :
    (run.before (k + 1)).countP p = (run.before k).countP p + 1 := by
  simp [before, haction, hp, Nat.add_comm]

-- ---------------------------------------------------------------------------
-- Progress by stages
-- ---------------------------------------------------------------------------

/-- Every move from a stage is to a lower one, and no stage lasts: then `Q` comes. -/
theorem exists_of_descent {P Q : Nat → Prop} (stage : Nat → π) (measure : π → Nat)
    (hstep : ∀ k, P k → Q k ∨ P (k + 1) ∧
      (stage (k + 1) = stage k ∨ measure (stage (k + 1)) < measure (stage k)))
    (hmoves : ∀ k, P k → ∃ l ≥ k, Q l ∨ stage l ≠ stage k) (h : P b) : ∃ l ≥ b, Q l := by
  induction hd : measure (stage b) using Nat.strong_induction_on generalizing b with
  | h d ih =>
    subst hd
    by_contra hnever
    push Not at hnever
    have hlater : ∀ l ≥ b, P l ∧ (stage l = stage b ∨
        ∃ j ≥ b, P j ∧ measure (stage j) < measure (stage b)) := by
      intro l hl
      induction l, hl using Nat.le_induction with
      | base => exact ⟨h, .inl rfl⟩
      | succ l hl ih =>
        obtain ⟨hp, hstage⟩ := ih
        obtain ⟨hp', hmove⟩ := (hstep l hp).resolve_left (hnever l hl)
        refine ⟨hp', ?_⟩
        rcases hstage with hsame | hlower
        · rcases hmove with hmove | hmove
          · exact .inl (hmove.trans hsame)
          · exact .inr ⟨l + 1, Nat.le_succ_of_le hl, hp', hsame ▸ hmove⟩
        · exact .inr hlower
    obtain ⟨l, hl, hleft⟩ := hmoves b h
    obtain ⟨j, hj, hpj, hlt⟩ := (hlater l hl).2.resolve_left (hleft.resolve_left (hnever l hl))
    obtain ⟨i, hi, hq⟩ := ih _ hlt hpj rfl
    exact hnever i (hj.trans hi) hq

/-- What ends, and lasts until something else comes, leads to it. -/
theorem Within.leads {P Q : σ → Prop} (h : run.Within C) (hends : run.Ends P) (hk : P (run.state k))
    (hstep : ∀ s a s', P s → C s a → m.step s a = some s' → P s' ∨ Q s ∨ Q s') :
    ∃ l ≥ k, Q (run.state l) := by
  obtain ⟨l, hl, hq⟩ : ∃ l ≥ k, Q (run.state l) ∨ Q (run.state (l + 1)) := by
    refine exists_of_descent (P := fun l => P (run.state l)) (fun l => P (run.state l)) (fun _ => 0)
      (fun l hp => ?_) (fun l hp => ?_) hk
    · rcases run.next l with hrest | ⟨a, haction, hs⟩
      · rw [hrest]
        exact .inr ⟨hp, .inl rfl⟩
      · rcases hstep _ a _ hp (h l a haction) hs with hp' | hq
        · exact .inr ⟨hp', .inl (propext ⟨fun _ => hp, fun _ => hp'⟩)⟩
        · exact .inl hq
    · obtain ⟨j, hj, hnot⟩ := hends l hp
      exact ⟨j, hj, .inr fun hsame => hnot (hsame.mpr hp)⟩
  rcases hq with hq | hq
  · exact ⟨l, hl, hq⟩
  · exact ⟨l + 1, Nat.le_succ_of_le hl, hq⟩

-- ---------------------------------------------------------------------------
-- The run of a part
-- ---------------------------------------------------------------------------

/-- Every step is a step of the part, or does not touch it. -/
def project (run : m.Run) (part : σ → τ) (shows : σ → α → Option β)
    (h : ∀ {s a s'}, m.step s a = some s' → n.stutter (part s) (shows s a) = some (part s')) :
    n.Run where
  state k := part (run.state k)
  action k := (run.action k).bind (shows (run.state k))
  step k := by
    have hstep := run.step k
    cases haction : run.action k with
    | none =>
      rw [haction] at hstep
      exact congrArg part hstep
    | some a =>
      rw [haction] at hstep
      have hpart := h hstep
      rw [Option.bind_some]
      cases hshows : shows (run.state k) a with
      | none =>
        rw [hshows] at hpart
        exact (Option.some.inj hpart).symm
      | some b => rwa [hshows] at hpart

theorem Within.project {E : τ → β → Prop} {part : σ → τ} {shows : σ → α → Option β}
    {h : ∀ {s a s'}, m.step s a = some s' → n.stutter (part s) (shows s a) = some (part s')}
    (hwithin : run.Within C) (hshows : ∀ s a b, C s a → shows s a = some b → E (part s) b) :
    (run.project part shows h).Within E := by
  intro k b hb
  obtain ⟨a, haction, hshown⟩ := Option.bind_eq_some_iff.mp hb
  exact hshows _ a b (hwithin k a haction) hshown

-- ---------------------------------------------------------------------------
-- Runs that come to rest
-- ---------------------------------------------------------------------------

theorem ends_of_rest (hrest : ∀ k ≥ b, run.state k = t) (ht : ¬P t) : run.Ends P := fun k _ =>
  ⟨max k b, le_max_left .., by rwa [hrest _ (le_max_right ..)]⟩

/-- A finite run, after which nothing happens. -/
theorem exists_rest (h : m.Reaches C s t) : ∃ run : m.Run, run.state 0 = s ∧ run.Within C ∧
    ∃ b, ∀ k ≥ b, run.state k = t := by
  have hextends : ∀ later : m.Run, later.state 0 = t → later.Within C →
      ∃ run : m.Run, run.state 0 = s ∧ run.Within C ∧ ∃ b, ∀ k, run.state (b + k) = later.state k := by
    induction h with
    | refl => exact fun later hstart hlater => ⟨later, hstart, hlater, 0, fun k => by rw [Nat.zero_add]⟩
    | next a _ hc ha ih =>
      intro later hstart hlater
      rw [← hstart] at ha
      have hwithin : (later.cons a ha).Within C := by
        rintro (_ | k) b haction
        · cases haction
          exact hc
        · exact hlater k b haction
      obtain ⟨run, hrun, hwithin, b, hb⟩ := ih (later.cons a ha) rfl hwithin
      refine ⟨run, hrun, hwithin, b + 1, fun k => ?_⟩
      rw [Nat.add_assoc, Nat.add_comm 1, hb]
      rfl
  obtain ⟨run, hstart, hwithin, b, hb⟩ := hextends (.rest m t) rfl nofun
  refine ⟨run, hstart, hwithin, b, fun k hk => ?_⟩
  obtain ⟨k, rfl⟩ := Nat.exists_eq_add_of_le hk
  exact hb k

/-- At any moment the run has come to rest, or is where the condition allows a step. -/
theorem Within.rest_or (h : run.Within C) (hrest : ∀ k ≥ b, run.state k = t) (k : Nat) :
    run.state k = t ∨ ∃ a, C (run.state k) a := by
  have hreach := h.reaches (le_max_left k b)
  rw [hrest _ (le_max_right k b)] at hreach
  clear hrest
  induction hreach with
  | refl => exact .inl rfl
  | next a _ hc _ ih => exact .inr (ih.elim (fun heq => ⟨a, heq ▸ hc⟩) fun h => h)

end Machine.Run
