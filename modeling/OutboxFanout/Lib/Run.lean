import Mathlib.Order.Lattice
import OutboxFanout.Lib.Machine

/-!
# Runs without an end

`Reaches` says what can happen; a `Run` is one course of events, with a step or
none at every moment, and says what does. `leads` is the progress rule: what
lasts until something else comes, and does not last forever, leads to it.
-/

namespace Machine

variable {σ α : Type} {m : Machine σ α} {C : σ → α → Prop}

structure Run (m : Machine σ α) where
  state : Nat → σ
  -- none: nothing happens
  action : Nat → Option α
  step : ∀ n, match action n with
    | some a => m.step (state n) a = some (state (n + 1))
    | none => state (n + 1) = state n

namespace Run

theorem next (run : m.Run) (n : Nat) : run.state (n + 1) = run.state n ∨
    ∃ a, run.action n = some a ∧ m.step (run.state n) a = some (run.state (n + 1)) := by
  have hstep := run.step n
  cases haction : run.action n with
  | none =>
    rw [haction] at hstep
    exact .inl hstep
  | some a =>
    rw [haction] at hstep
    exact .inr ⟨a, rfl, hstep⟩

theorem step_of_action (run : m.Run) (h : run.action n = some a) :
    m.step (run.state n) a = some (run.state (n + 1)) := by
  have hstep := run.step n
  rwa [h] at hstep

/-- What holds at some moment and survives every step holds from then on. -/
theorem invariant (run : m.Run) {I : σ → Prop} (h : I (run.state k))
    (hstep : ∀ s a s', I s → m.step s a = some s' → I s') (hn : k ≤ n) : I (run.state n) := by
  induction n, hn using Nat.le_induction with
  | base => exact h
  | succ n _ ih =>
    rcases run.next n with hrest | ⟨a, -, ha⟩
    · exact hrest ▸ ih
    · exact hstep _ a _ ih ha

/-- The progress rule. -/
theorem leads (run : m.Run) {P Q : σ → Prop} (h : P (run.state k))
    (hstep : ∀ s a s', P s → m.step s a = some s' → P s' ∨ Q s ∨ Q s')
    (hleaves : ∃ n ≥ k, ¬P (run.state n)) : ∃ n ≥ k, Q (run.state n) := by
  by_contra hnever
  push Not at hnever
  obtain ⟨n, hn, hp⟩ := hleaves
  refine hp ?_
  clear hp
  induction n, hn using Nat.le_induction with
  | base => exact h
  | succ n hn ih =>
    rcases run.next n with hrest | ⟨a, -, ha⟩
    · exact hrest ▸ ih
    · rcases hstep _ a _ ih ha with hp | hq | hq
      · exact hp
      · exact absurd hq (hnever n hn)
      · exact absurd hq (hnever (n + 1) (Nat.le_succ_of_le hn))

-- ---------------------------------------------------------------------------
-- Runs from their steps
-- ---------------------------------------------------------------------------

/-- Nothing ever happens. -/
def rest (m : Machine σ α) (s : σ) : m.Run := ⟨fun _ => s, fun _ => none, fun _ => rfl⟩

def cons (run : m.Run) (a : α) (h : m.step s a = some (run.state 0)) : m.Run where
  state
    | 0 => s
    | n + 1 => run.state n
  action
    | 0 => some a
    | n + 1 => run.action n
  step
    | 0 => h
    | n + 1 => run.step n

/-- `later` is `run` from the moment `b` on. -/
structure From (run later : m.Run) (b : Nat) : Prop where
  state : ∀ n, run.state (b + n) = later.state n
  action : ∀ n, run.action (b + n) = later.action n

/-- A finite run goes on as any run from where it ends. -/
theorem exists_from (later : m.Run) (h : m.Reaches C s t) (ht : later.state 0 = t) :
    ∃ run : m.Run, ∃ b, run.state 0 = s ∧ run.From later b ∧
      ∀ n ≤ b, m.Reaches C s (run.state n) := by
  induction h generalizing later with
  | refl =>
    refine ⟨later, 0, ht, ⟨fun n => by rw [Nat.zero_add], fun n => by rw [Nat.zero_add]⟩, ?_⟩
    intro n hn
    obtain rfl := Nat.le_zero.mp hn
    rw [ht]
    exact .refl
  | @next t u a h hc ha ih =>
    rw [← ht] at ha
    obtain ⟨run, b, hstart, hfrom, hreach⟩ := ih (later.cons a ha) rfl
    have hshift : ∀ n, b + 1 + n = b + (n + 1) := fun n => by omega
    refine ⟨run, b + 1, hstart, ⟨fun n => ?_, fun n => ?_⟩, fun n hn => ?_⟩
    · exact hshift n ▸ hfrom.state (n + 1)
    · exact hshift n ▸ hfrom.action (n + 1)
    · rcases Nat.lt_or_eq_of_le hn with hn | rfl
      · exact hreach n (Nat.le_of_lt_succ hn)
      · rw [hfrom.state 1]
        exact .next a h hc ha

end Run

end Machine
