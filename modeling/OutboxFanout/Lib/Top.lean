import Mathlib.Data.List.Sort

/-!
# The first rows of an order

What `ORDER BY … LIMIT n` answers: up to `n` rows in order, and nothing left out
that comes before one of them. Between rows with equal keys the answer is open;
the keys it shows are not (`Top.keys_eq`).
-/

namespace Rows

variable {ρ κ : Type} {r : ρ → ρ → Prop} {n : Nat} {rows chosen : List ρ}

structure Top (r : ρ → ρ → Prop) (n : Nat) (rows chosen : List ρ) : Prop where
  sorted : chosen.Pairwise r
  length : chosen.length = min n rows.length
  rest : ∃ rest, (chosen ++ rest).Perm rows ∧ ∀ a ∈ chosen, ∀ b ∈ rest, r a b

theorem top_take_insertionSort [DecidableRel r] [Std.Total r] [IsTrans ρ r] :
    Top r n rows ((rows.insertionSort r).take n) := by
  have hsorted := List.pairwise_insertionSort r rows
  have hperm := List.perm_insertionSort r rows
  rw [← List.take_append_drop n (rows.insertionSort r)] at hsorted
  obtain ⟨htaken, -, hcross⟩ := List.pairwise_append.mp hsorted
  refine ⟨htaken, ?_, (rows.insertionSort r).drop n, ?_, hcross⟩
  · rw [List.length_take, hperm.length_eq]
  · rw [List.take_append_drop]
    exact hperm

theorem Top.subset (h : Top r n rows chosen) : chosen ⊆ rows := by
  obtain ⟨rest, hperm, -⟩ := h.rest
  exact fun a ha => hperm.subset (List.mem_append_left _ ha)

theorem Top.nodup (h : Top r n rows chosen) {key : ρ → κ} (hkeyed : (rows.map key).Nodup) :
    (chosen.map key).Nodup := by
  obtain ⟨rest, hperm, -⟩ := h.rest
  have hall := (hperm.map key).nodup_iff.mpr hkeyed
  rw [List.map_append] at hall
  exact hall.of_append_left

/-- A row that is left out comes after `n` others. -/
theorem Top.mem_or (h : Top r n rows chosen) (ha : a ∈ rows) :
    a ∈ chosen ∨ chosen.length = n ∧ ∀ b ∈ chosen, r b a := by
  obtain ⟨rest, hperm, hcross⟩ := h.rest
  rcases List.mem_append.mp (hperm.mem_iff.mpr ha) with hin | hout
  · exact .inl hin
  · have hlength := hperm.length_eq
    have hpos := List.length_pos_of_mem hout
    have hmin := h.length
    rw [List.length_append] at hlength
    exact .inr ⟨by omega, fun b hb => hcross b hb a hout⟩

section
variable (le : κ → κ → Prop) [DecidableRel le] [Std.Total le] [IsTrans κ le] [Std.Antisymm le] {key : ρ → κ}

/-- The keys of the answer do not depend on it. -/
theorem Top.keys (h : Top r n rows chosen) (hr : ∀ a b, r a b → le (key a) (key b)) :
    chosen.map key = ((rows.map key).insertionSort le).take n := by
  obtain ⟨rest, hrest, hcross⟩ := h.rest
  let later := (rest.map key).insertionSort le
  have hlater : later.Perm (rest.map key) := List.perm_insertionSort ..
  have hsorted : (chosen.map key ++ later).Pairwise le := by
    refine List.pairwise_append.mpr ⟨List.pairwise_map.mpr (h.sorted.imp (hr _ _)),
      List.pairwise_insertionSort .., fun k hk k' hk' => ?_⟩
    obtain ⟨a, ha, rfl⟩ := List.mem_map.mp hk
    obtain ⟨b, hb, rfl⟩ := List.mem_map.mp (hlater.mem_iff.mp hk')
    exact hr _ _ (hcross a ha b hb)
  have hperm : (chosen.map key ++ later).Perm (rows.map key) := by
    refine (hlater.append_left _).trans ?_
    rw [← List.map_append]
    exact hrest.map key
  have hall : chosen.map key ++ later = (rows.map key).insertionSort le :=
    (hperm.trans (List.perm_insertionSort ..).symm).eq_of_pairwise' hsorted
      (List.pairwise_insertionSort ..)
  have hlength : (chosen.map key).length + later.length = rows.length := by
    rw [← List.length_append, hperm.length_eq, List.length_map]
  have hchosen : (chosen.map key).length = min n rows.length := (List.length_map ..).trans h.length
  rw [← hall]
  rcases Nat.le_total n rows.length with hle | hle
  · rw [List.take_append_of_le_length (by omega), List.take_of_length_le (by omega)]
  · rw [List.eq_nil_of_length_eq_zero (show later.length = 0 by omega), List.append_nil,
      List.take_of_length_le (by omega)]

/-- Two answers to the query show the same keys. -/
theorem Top.keys_eq {rows' chosen' : List ρ} (h : Top r n rows chosen) (h' : Top r n rows' chosen')
    (hr : ∀ a b, r a b → le (key a) (key b)) (hperm : rows.Perm rows') :
    chosen.map key = chosen'.map key := by
  rw [h.keys le hr, h'.keys le hr]
  refine congrArg (List.take n) (List.Perm.eq_of_pairwise' (List.pairwise_insertionSort le _)
    (List.pairwise_insertionSort le _) ?_)
  exact ((List.perm_insertionSort ..).trans (hperm.map key)).trans (List.perm_insertionSort ..).symm

end

end Rows
