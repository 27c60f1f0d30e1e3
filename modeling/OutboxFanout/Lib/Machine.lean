import Mathlib.Logic.Basic
import Mathlib.Tactic.Cases

/-!
# Machines and their runs

A machine is a partial step function: everything a step leaves open (which
process moves, what a service answers, where a crash falls) is part of the
action, so a run is a list of actions. `Reaches C` collects the runs whose
every step is taken where the condition `C` allows it; `C` is `anyStep` when
nothing is excluded.
-/

structure Machine (σ α : Type) where
  step : σ → α → Option σ

namespace Machine

variable {σ α : Type} {m : Machine σ α} {C D : σ → α → Prop}

/-- The condition that excludes nothing. -/
def anyStep : σ → α → Prop := fun _ _ => True

instance : DecidablePred (anyStep (σ := σ) (α := α) s) := fun _ => .isTrue trivial

inductive Reaches (m : Machine σ α) (C : σ → α → Prop) (s : σ) : σ → Prop
  | refl : Reaches m C s s
  | next {t u : σ} (a : α) : Reaches m C s t → C t a → m.step t a = some u → Reaches m C s u

theorem Reaches.mono (h : m.Reaches C s t) (hcd : ∀ s a, C s a → D s a) : m.Reaches D s t := by
  induction h with
  | refl => exact .refl
  | next a _ hc hs ih => exact .next a ih (hcd _ _ hc) hs

theorem Reaches.trans (h : m.Reaches C s t) (h' : m.Reaches C t u) : m.Reaches C s u := by
  induction h' with
  | refl => exact h
  | next a _ hc hs ih => exact .next a ih hc hs

/-- What holds at the start and survives every allowed step holds throughout. -/
theorem Reaches.invariant {I : σ → Prop} (h : m.Reaches C s t) (h₀ : I s)
    (hstep : ∀ t a u, I t → C t a → m.step t a = some u → I u) : I t := by
  induction h with
  | refl => exact h₀
  | next a _ hc hs ih => exact hstep _ a _ ih hc hs

/-- A projection under which every step is a step of the other machine or
leaves its state alone carries runs to runs. -/
theorem Reaches.project {τ β : Type} {n : Machine τ β} {E : τ → β → Prop} (f : σ → τ)
    (h : m.Reaches C s t)
    (hstep : ∀ t a u, C t a → m.step t a = some u →
      f u = f t ∨ ∃ b, E (f t) b ∧ n.step (f t) b = some (f u)) :
    n.Reaches E (f s) (f t) := by
  induction h with
  | refl => exact .refl
  | next a _ hc hs ih =>
    rcases hstep _ a _ hc hs with heq | ⟨b, he, hb⟩
    · exact heq ▸ ih
    · exact .next b ih he hb

section
variable [∀ s, DecidablePred (C s)]

/-- Runs a list of actions, oldest first; stops at one that `C` or the machine
refuses. -/
def exec (m : Machine σ α) (C : σ → α → Prop) [∀ s, DecidablePred (C s)] : σ → List α → Option σ
  | s, [] => some s
  | s, a :: as => if C s a then (m.step s a).bind fun t => exec m C t as else none

theorem reaches_of_exec (h : m.exec C s as = some t) : m.Reaches C s t := by
  induction as generalizing s with
  | nil => cases h; exact .refl
  | cons a as ih =>
    simp only [exec] at h
    split at h
    next hc =>
      obtain ⟨u, hu, ht⟩ := Option.bind_eq_some_iff.mp h
      exact Reaches.trans (.next a .refl hc hu) (ih ht)
    next => cases h

/-- A run on given actions, by evaluation. -/
theorem exists_reaches (m : Machine σ α) (as : List α) (P : σ → Prop) [DecidablePred P]
    (h : (m.exec C s as).any (fun t => P t) = true) : ∃ t, m.Reaches C s t ∧ P t := by
  obtain ⟨t, ht, hp⟩ := (Option.any_eq_true ..).mp h
  exact ⟨t, reaches_of_exec ht, of_decide_eq_true hp⟩

/-- … with a state on the way. -/
theorem exists_reaches_via (m : Machine σ α) (as bs : List α) (P Q : σ → Prop) [DecidablePred P]
    [DecidablePred Q] (h : (m.exec C s as).any (fun t =>
      P t ∧ (m.exec C t bs).any (fun u => Q u) = true) = true) :
    ∃ t u, m.Reaches C s t ∧ P t ∧ m.Reaches C t u ∧ Q u := by
  obtain ⟨t, ht, hp, hrest⟩ := exists_reaches m as _ h
  obtain ⟨u, hu, hq⟩ := exists_reaches m bs Q hrest
  exact ⟨t, u, ht, hp, hu, hq⟩

/-- Some steps may be erased from a run when they keep the relation `R` to the
other run's state and the remaining steps can be taken there, too. -/
theorem exec_erase {m : Machine σ α} {R : σ → σ → Prop} {keep : α → Bool}
    (hdrop : ∀ s u a s', R s u → keep a = false → m.step s a = some s' → R s' u)
    (hkeep : ∀ s u a s', R s u → keep a = true → m.step s a = some s' →
      ∃ u', m.step u a = some u' ∧ R s' u')
    (hR : R s u) (h : m.exec anyStep s as = some s') :
    ∃ u', m.exec anyStep u (as.filter keep) = some u' ∧ R s' u' := by
  induction as generalizing s u with
  | nil => cases h; exact ⟨u, rfl, hR⟩
  | cons a as ih =>
    simp only [exec, anyStep, ↓reduceIte] at h
    obtain ⟨t, ht, hrest⟩ := Option.bind_eq_some_iff.mp h
    cases hk : keep a with
    | false =>
      rw [List.filter_cons_of_neg (by simp [hk])]
      exact ih (hdrop s u a t hR hk ht) hrest
    | true =>
      rw [List.filter_cons_of_pos hk]
      obtain ⟨v, hv, hR'⟩ := hkeep s u a t hR hk ht
      obtain ⟨u', hu', hR''⟩ := ih hR' hrest
      refine ⟨u', ?_, hR''⟩
      simp only [exec, anyStep, ↓reduceIte]
      exact Option.bind_eq_some_iff.mpr ⟨v, hv, hu'⟩

end

end Machine
