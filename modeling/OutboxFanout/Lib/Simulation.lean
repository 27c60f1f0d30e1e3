import OutboxFanout.Lib.Path

/-!
# Simulation by what a run shows

`shows` says which step of the abstract machine a step of the concrete one is;
none: the abstract machine does not see it. Then what a run shows is a run of
the abstract machine, and ends in a related state.
-/

namespace Machine

variable {σ α τ β : Type} {m : Machine σ α} {n : Machine τ β}

/-- What the steps of a run show, oldest first. -/
def shown (shows : σ → α → Option β) (steps : List (σ × α)) : List β :=
  (steps.filterMap fun x => shows x.1 x.2).reverse

theorem shown_cons {shows : σ → α → Option β} {steps : List (σ × α)} :
    shown shows ((s, a) :: steps) = shown shows steps ++ (shows s a).toList := by
  cases h : shows s a <;> simp [shown, h]

/-- A step, or none. -/
def stutter (n : Machine τ β) (t : τ) : Option β → Option τ
  | none => some t
  | some b => n.step t b

structure Simulation (m : Machine σ α) (n : Machine τ β) where
  rel : σ → τ → Prop
  shows : σ → α → Option β
  step : ∀ {s t a s'}, rel s t → m.step s a = some s' →
    ∃ t', n.stutter t (shows s a) = some t' ∧ rel s' t'

theorem exec_append {C : σ → α → Prop} [∀ s, DecidablePred (C s)] :
    m.exec C s (as ++ bs) = (m.exec C s as).bind fun t => m.exec C t bs := by
  induction as generalizing s with
  | nil => rfl
  | cons a as ih =>
    simp only [List.cons_append, exec]
    split
    · rw [Option.bind_assoc]
      exact congrArg _ (funext fun _ => ih)
    · rfl

theorem exec_toList {b : Option β} (h : n.stutter t b = some t') :
    n.exec anyStep t b.toList = some t' := by
  cases b with
  | none => exact h
  | some b => simpa [exec, anyStep, stutter] using h

theorem Simulation.path (sim : Simulation m n) (h : m.Path s steps s') (hrel : sim.rel s t) :
    ∃ t', n.exec anyStep t (shown sim.shows steps) = some t' ∧ sim.rel s' t' := by
  induction h with
  | refl => exact ⟨t, rfl, hrel⟩
  | @next u u' steps a _ hs ih =>
    obtain ⟨v, hexec, hv⟩ := ih
    obtain ⟨v', hstep, hv'⟩ := sim.step hv hs
    refine ⟨v', ?_, hv'⟩
    rw [shown_cons, exec_append]
    exact Option.bind_eq_some_iff.mpr ⟨v, hexec, exec_toList hstep⟩

end Machine
