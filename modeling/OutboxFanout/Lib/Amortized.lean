import OutboxFanout.Lib.Path

/-!
# Costs paid from a potential

What the steps of a run cost is bounded by what they bring in, when every single
step is paid for from what it brings and what the potential loses by it.
-/

namespace Machine

variable {σ α : Type} {m : Machine σ α} {C : σ → α → Prop} {cost gain : σ → α → Nat}

/-- The sum over the steps of a run. -/
def total (cost : σ → α → Nat) : List (σ × α) → Nat
  | [] => 0
  | (s, a) :: steps => cost s a + total cost steps

theorem total_cons {steps : List (σ × α)} : total cost ((s, a) :: steps) = cost s a + total cost steps :=
  rfl

theorem total_zero {steps : List (σ × α)} : total (fun _ _ => 0) steps = 0 := by
  induction steps with
  | nil => rfl
  | cons x steps ih => rw [total_cons, ih]

/-- To count steps is to give each of them cost one. -/
theorem total_count {p : σ → α → Bool} {steps : List (σ × α)} :
    total (fun s a => if p s a then 1 else 0) steps = steps.countP fun x => p x.1 x.2 := by
  induction steps with
  | nil => rfl
  | cons x steps ih => rw [total_cons, ih, List.countP_cons, Nat.add_comm]

/-- Where `inv` holds, the potential pays for every step. -/
structure Potential (m : Machine σ α) (C : σ → α → Prop) (inv : σ → Prop) (cost gain : σ → α → Nat) where
  of : σ → Nat
  keeps : ∀ {s a t}, inv s → C s a → m.step s a = some t → inv t
  pays : ∀ {s a t}, inv s → C s a → m.step s a = some t → cost s a + of t ≤ of s + gain s a

theorem Potential.total_le {inv : σ → Prop} (p : Potential m C inv cost gain) (h : m.Path s steps t)
    (hc : Along C steps) (hi : inv s) : total cost steps + p.of t ≤ p.of s + total gain steps := by
  have hkeeps : inv t ∧ total cost steps + p.of t ≤ p.of s + total gain steps := by
    induction h with
    | refl => exact ⟨hi, Nat.le_of_eq (Nat.add_comm ..)⟩
    | next a _ hs ih =>
      obtain ⟨ha, hrest⟩ := along_cons.mp hc
      obtain ⟨ht, hle⟩ := ih hrest
      have hpays := p.pays ht ha hs
      rw [total_cons, total_cons]
      exact ⟨p.keeps ht ha hs, by omega⟩
  exact hkeeps.2

/-- Where no step brings in anything. -/
theorem Potential.total_le_of {inv : σ → Prop} (p : Potential m C inv cost fun _ _ => 0)
    (h : m.Path s steps t) (hc : Along C steps) (hi : inv s) : total cost steps ≤ p.of s := by
  have hle := p.total_le h hc hi
  rw [total_zero] at hle
  exact Nat.le_of_add_right_le hle

end Machine
