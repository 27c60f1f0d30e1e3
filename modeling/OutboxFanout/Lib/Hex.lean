import Mathlib.Data.List.Basic
import Mathlib.Tactic.Ring

/-!
# Hexadecimal digits

Fixed-width lower-case output, and input in either case.
-/

namespace Hex

def digit (n : Nat) : Char := "0123456789abcdef".toList.getD n '0'

/-- `'%0<width>x' % n` for an `n` that fits. -/
def digits : (width n : Nat) → List Char
  | 0, _ => []
  | width + 1, n => digits width (n / 16) ++ [digit (n % 16)]

def digit? (c : Char) : Option Nat :=
  "0123456789abcdef".toList.idxOf? c.toLower

def read (cs : List Char) : Option Nat :=
  cs.foldlM (fun n c => (digit? c).map (16 * n + ·)) 0

theorem digits_length (width n : Nat) : (digits width n).length = width := by
  induction width generalizing n with
  | zero => rfl
  | succ width ih => simp [digits, ih]

theorem mem_digits (h : c ∈ digits width n) : ∃ d < 16, c = digit d := by
  induction width generalizing n with
  | zero => cases h
  | succ width ih =>
    rcases List.mem_append.mp h with h | h
    · exact ih h
    · exact ⟨n % 16, Nat.mod_lt _ (by decide), List.mem_singleton.mp h⟩

theorem digit?_digit : ∀ d < 16, digit? (digit d) = some d := by decide

theorem mod_pow_succ (width n : Nat) :
    n % 16 ^ (width + 1) = 16 * (n / 16 % 16 ^ width) + n % 16 := by
  rw [Nat.pow_succ, Nat.mul_comm, Nat.mod_mul, Nat.add_comm]

theorem read_digits (width n : Nat) : read (digits width n) = some (n % 16 ^ width) := by
  induction width generalizing n with
  | zero => simp [digits, read, Nat.mod_one]
  | succ width ih =>
    have hlast := digit?_digit (n % 16) (Nat.mod_lt _ (by decide))
    simp only [read] at ih
    simp [digits, read, List.foldlM_append, ih, hlast, mod_pow_succ]

end Hex
