import Mathlib.Algebra.GroupWithZero.Nat
import Mathlib.Data.List.Nodup
import Mathlib.Algebra.Order.BigOperators.Group.List
import Mathlib.Algebra.Order.Group.Nat

/-!
# Keyed tables

A table is a list of rows in no meaningful order; a key function names the
primary key. `update key k f` is `UPDATE … WHERE key = k`.
-/

namespace Rows

variable {ρ κ : Type} {key : ρ → κ}

def update [DecidableEq κ] (key : ρ → κ) (k : κ) (f : ρ → ρ) (rows : List ρ) : List ρ :=
  rows.map fun row => if key row = k then f row else row

/-- The primary-key constraint. -/
def Keyed (key : ρ → κ) (rows : List ρ) : Prop := (rows.map key).Nodup

instance [DecidableEq κ] : Decidable (Keyed key rows) := by unfold Keyed; infer_instance

theorem keyed_singleton : Keyed key [row] := List.nodup_singleton _

theorem Keyed.append (h : Keyed key rows) (hrow : ∀ old ∈ rows, key old ≠ key row) :
    Keyed key (rows ++ [row]) := by
  rw [Keyed, List.map_append, List.map_singleton, List.nodup_append]
  refine ⟨h, by simp, ?_⟩
  rintro k hk k' hk' rfl
  obtain ⟨old, hm, rfl⟩ := List.mem_map.mp hk
  exact hrow old hm (by simpa using hk')

theorem Keyed.eq_of_mem (h : Keyed key rows) (ha : a ∈ rows) (hb : b ∈ rows)
    (hab : key a = key b) : a = b :=
  List.inj_on_of_nodup_map h ha hb hab

/-- A measure that grows by one on one key grows by one over the table. -/
theorem Keyed.sum_le_succ (h : Keyed key rows) {v w : ρ → Nat}
    (heq : ∀ row ∈ rows, key row = k → w row ≤ v row + 1)
    (hne : ∀ row ∈ rows, key row ≠ k → w row ≤ v row) :
    (rows.map w).sum ≤ (rows.map v).sum + 1 := by
  induction rows with
  | nil => simp
  | cons row rows ih =>
    simp only [Keyed, List.map_cons, List.nodup_cons] at h
    simp only [List.map_cons, List.sum_cons]
    by_cases hk : key row = k
    · have hrest : (rows.map w).sum ≤ (rows.map v).sum := by
        refine List.sum_le_sum fun old hmem =>
          hne old (List.mem_cons_of_mem _ hmem) fun hold => h.1 ?_
        exact hk.trans hold.symm ▸ List.mem_map_of_mem hmem
      have hrow := heq row List.mem_cons_self hk
      omega
    · have hrow := hne row List.mem_cons_self hk
      have hrest := ih h.2 (fun old hmem => heq old (List.mem_cons_of_mem _ hmem)) fun old hmem =>
        hne old (List.mem_cons_of_mem _ hmem)
      omega

/-- `ORDER BY … LIMIT n` reaches a row once `n` covers the rows not after it. -/
theorem mem_take_of_pairwise {r : ρ → ρ → Prop} [DecidableRel r] {rows : List ρ}
    (hrefl : ∀ a, r a a) (hs : rows.Pairwise r) (hmem : row ∈ rows)
    (hn : (rows.filter (r · row)).length ≤ n) : row ∈ rows.take n := by
  obtain ⟨before, after, rfl⟩ := List.append_of_mem hmem
  have hbefore : before.filter (r · row) = before := by
    refine List.filter_eq_self.mpr fun old hold => ?_
    simpa using (List.pairwise_append.mp hs).2.2 old hold row List.mem_cons_self
  rw [List.filter_append, hbefore, List.filter_cons_of_pos (by simpa using hrefl row),
    List.length_append, List.length_cons] at hn
  obtain ⟨k, rfl⟩ : ∃ k, n = before.length + (k + 1) := ⟨n - (before.length + 1), by omega⟩
  simp [List.take_append]

section
variable [DecidableEq κ]

theorem mem_update :
    row ∈ update key k f rows ↔
      (row ∈ rows ∧ key row ≠ k) ∨ ∃ old ∈ rows, key old = k ∧ f old = row := by
  simp only [update, List.mem_map]
  constructor
  · rintro ⟨old, hm, rfl⟩
    by_cases hk : key old = k
    · exact .inr ⟨old, hm, hk, by simp [hk]⟩
    · exact .inl (by simpa [hk] using hm)
  · rintro (⟨hm, hk⟩ | ⟨old, hm, hk, rfl⟩)
    · exact ⟨row, hm, by simp [hk]⟩
    · exact ⟨old, hm, by simp [hk]⟩

theorem mem_update_of_ne (hm : row ∈ rows) (hk : key row ≠ k) : row ∈ update key k f rows :=
  mem_update.mpr (.inl ⟨hm, hk⟩)

theorem mem_update_of_eq (hm : row ∈ rows) (hk : key row = k) : f row ∈ update key k f rows :=
  mem_update.mpr (.inr ⟨row, hm, hk, rfl⟩)

theorem map_update {g : ρ → β} (hf : ∀ row, g (f row) = g row) :
    (update key k f rows).map g = rows.map g := by
  simp only [update, List.map_map]
  refine List.map_congr_left fun row _ => ?_
  by_cases hk : key row = k <;> simp [hk, hf]

theorem update_congr {f g : ρ → ρ} (h : ∀ row ∈ rows, key row = k → f row = g row) :
    update key k f rows = update key k g rows := by
  refine List.map_congr_left fun row hmem => ?_
  by_cases hk : key row = k
  · simp [hk, h row hmem hk]
  · simp [hk]

theorem update_update {f g : ρ → ρ} (hf : ∀ row, key (f row) = key row) :
    update key k g (update key k f rows) = update key k (fun row => g (f row)) rows := by
  simp only [update, List.map_map]
  refine List.map_congr_left fun row _ => ?_
  by_cases hk : key row = k <;> simp [hk, hf]

theorem Keyed.update (h : Keyed key rows) (hf : ∀ row, key (f row) = key row) :
    Keyed key (update key k f rows) := by
  simpa [Keyed, map_update hf] using h

end

end Rows
