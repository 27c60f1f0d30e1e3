import Mathlib.Data.List.Basic

/-!
# First occurrences

Which elements of a list are the first of their key, and when two keys, one at
least as fine as the other, tell the same elements.
-/

namespace Firsts

variable {α κ μ : Type}

/-- `before` is what came before the list. -/
def firsts [DecidableEq κ] (key : α → κ) (before : List α) : List α → List Bool
  | [] => []
  | x :: xs => decide (key x ∉ before.map key) :: firsts key (x :: before) xs

/-- Elements with one `f` have one `g`. -/
def Alike (f : α → κ) (g : α → μ) (xs : List α) : Prop :=
  ∀ x ∈ xs, ∀ y ∈ xs, f x = f y → g x = g y

variable {f : α → κ} {g : α → μ} {before xs : List α}

theorem Alike.subset (h : Alike f g xs) (hsub : before ⊆ xs) : Alike f g before :=
  fun x hx y hy => h x (hsub hx) y (hsub hy)

theorem Alike.head (h : Alike f g (x :: before)) (hmem : f x ∈ before.map f) :
    g x ∈ before.map g := by
  obtain ⟨y, hy, heq⟩ := List.mem_map.mp hmem
  exact List.mem_map.mpr ⟨y, hy, h y (List.mem_cons_of_mem _ hy) x List.mem_cons_self heq⟩

theorem Alike.cons (h : Alike f g before) (hfine : Alike g f (x :: before))
    (hhead : f x ∈ before.map f → g x ∈ before.map g) : Alike f g (x :: before) := by
  have hx : ∀ y ∈ before, f x = f y → g x = g y := by
    intro y hy heq
    obtain ⟨z, hz, hzx⟩ := List.mem_map.mp (hhead (heq ▸ List.mem_map_of_mem hy))
    have hfz : f z = f x := hfine z (List.mem_cons_of_mem _ hz) x List.mem_cons_self hzx
    exact hzx.symm.trans (h z hz y hy (hfz.trans heq))
  intro y hy z hz heq
  rcases List.mem_cons.mp hy with hyx | hyb <;> rcases List.mem_cons.mp hz with hzx | hzb
  · rw [hyx, hzx]
  · exact hyx ▸ hx z hzb (hyx ▸ heq)
  · exact hzx ▸ (hx y hyb (hzx ▸ heq.symm)).symm
  · exact h y hyb z hzb heq

section
variable [DecidableEq κ] [DecidableEq μ]

theorem firsts_eq_iff_of_before (hbefore : Alike f g before) (hfine : Alike g f (xs ++ before)) :
    firsts f before xs = firsts g before xs ↔ Alike f g (xs ++ before) := by
  induction xs generalizing before with
  | nil => exact ⟨fun _ => hbefore, fun _ => rfl⟩
  | cons x xs ih =>
    have hperm : (xs ++ x :: before) ⊆ (x :: xs ++ before) := List.perm_middle.subset
    have hperm' : (x :: xs ++ before) ⊆ (xs ++ x :: before) := List.perm_middle.symm.subset
    have hnow : (x :: before) ⊆ (x :: xs ++ before) := fun y hy => hperm (List.mem_append_right _ hy)
    have hfine' : Alike g f (x :: before) := hfine.subset hnow
    simp only [firsts, List.cons.injEq, decide_eq_decide, not_iff_not]
    constructor
    · rintro ⟨hhead, htail⟩
      exact ((ih (hbefore.cons hfine' hhead.mp) (hfine.subset hperm)).mp htail).subset hperm'
    · intro halike
      have hcons : Alike f g (x :: before) := halike.subset hnow
      exact ⟨⟨hcons.head, hfine'.head⟩,
        (ih hcons (hfine.subset hperm)).mpr (halike.subset hperm)⟩

/-- Two keys tell the same first elements just when the coarser is as fine. -/
theorem firsts_eq_iff (hfine : Alike g f xs) : firsts f [] xs = firsts g [] xs ↔ Alike f g xs := by
  have hnone : Alike f g [] := nofun
  have h := firsts_eq_iff_of_before hnone (by rwa [List.append_nil] : Alike g f (xs ++ []))
  rwa [List.append_nil] at h

end

end Firsts
