import Mathlib.Logic.Function.Basic
import OutboxFanout.Lib.Machine
import OutboxFanout.Lib.Rows

/-!
# Fan-out without queues

What announcing items to subscribers is for: an item is placed, announced, and
from then on taken by each subscriber, by one that is `once` no more than once.
There are no copies, no redeliveries and no crashes here; that an item was
placed before it was announced, and announced before it was taken, is part of
the state.
-/

structure Fanout (key : ι → K) (once : κ → Prop) where
  placed : List ι
  announced : List ι
  taken : κ → List ι
  keyed : Rows.Keyed key placed
  announced_placed : ∀ item ∈ announced, item ∈ placed
  taken_announced : ∀ k, ∀ item ∈ taken k, item ∈ announced
  taken_once : ∀ k, once k → Rows.Keyed key (taken k)

namespace Fanout

variable {ι K κ : Type} {key : ι → K} {once : κ → Prop}

inductive Event (ι κ : Type) where
  | place (item : ι)
  | announce (item : ι)
  | take (k : κ) (item : ι)
  -- the subscriber forgets what it took
  | wipe (k : κ)

def empty : Fanout key once where
  placed := []
  announced := []
  taken _ := []
  keyed := List.nodup_nil
  announced_placed := nofun
  taken_announced _ := nofun
  taken_once _ _ := List.nodup_nil

def place (f : Fanout key once) (item : ι) (h : key item ∉ f.placed.map key) : Fanout key once :=
  { f with
    placed := f.placed ++ [item]
    keyed := f.keyed.append fun _ hold heq => h (heq ▸ List.mem_map_of_mem hold)
    announced_placed := fun old hold => List.mem_append_left _ (f.announced_placed old hold) }

def announce (f : Fanout key once) (item : ι) (h : item ∈ f.placed) : Fanout key once :=
  { f with
    announced := f.announced ++ [item]
    announced_placed := by
      intro old hold
      rcases List.mem_append.mp hold with hold | hold
      · exact f.announced_placed old hold
      · exact List.mem_singleton.mp hold ▸ h
    taken_announced := fun k old hold => List.mem_append_left _ (f.taken_announced k old hold) }

section
variable [DecidableEq κ]

def take (f : Fanout key once) (k : κ) (item : ι) (h : item ∈ f.announced)
    (honce : once k → item ∉ f.taken k) : Fanout key once :=
  { f with
    taken := Function.update f.taken k (f.taken k ++ [item])
    taken_announced := by
      intro k' old hold
      by_cases hk : k' = k
      · subst hk
        rw [Function.update_self] at hold
        rcases List.mem_append.mp hold with hold | hold
        · exact f.taken_announced k' old hold
        · exact List.mem_singleton.mp hold ▸ h
      · exact f.taken_announced k' old (by rwa [Function.update_of_ne hk] at hold)
    taken_once := by
      intro k' hk'
      by_cases hk : k' = k
      · subst hk
        rw [Function.update_self]
        refine (f.taken_once k' hk').append fun old hold heq => honce hk' ?_
        have hplaced := f.announced_placed old (f.taken_announced k' old hold)
        exact f.keyed.eq_of_mem hplaced (f.announced_placed item h) heq ▸ hold
      · rw [Function.update_of_ne hk]
        exact f.taken_once k' hk' }

def wipe (f : Fanout key once) (k : κ) : Fanout key once :=
  { f with
    taken := Function.update f.taken k []
    taken_announced := by
      intro k' old hold
      by_cases hk : k' = k
      · subst hk
        simp at hold
      · exact f.taken_announced k' old (by rwa [Function.update_of_ne hk] at hold)
    taken_once := by
      intro k' hk'
      by_cases hk : k' = k
      · subst hk
        rw [Function.update_self]
        exact List.nodup_nil
      · rw [Function.update_of_ne hk]
        exact f.taken_once k' hk' }

variable [DecidableEq K] [DecidableEq ι] [DecidablePred once]

def step (f : Fanout key once) : Event ι κ → Option (Fanout key once)
  | .place item => if h : key item ∉ f.placed.map key then some (f.place item h) else none
  | .announce item => if h : item ∈ f.placed then some (f.announce item h) else none
  | .take k item =>
    if h : item ∈ f.announced ∧ (once k → item ∉ f.taken k) then some (f.take k item h.1 h.2)
    else none
  | .wipe k => some (f.wipe k)

def machine (key : ι → K) (once : κ → Prop) [DecidablePred once] :
    Machine (Fanout key once) (Event ι κ) :=
  ⟨step⟩

variable {f : Fanout key once}

theorem step_place (h : key item ∉ f.placed.map key) :
    (machine key once).step f (.place item) = some (f.place item h) :=
  dif_pos h

theorem step_announce (h : item ∈ f.placed) :
    (machine key once).step f (.announce item) = some (f.announce item h) :=
  dif_pos h

theorem step_take (h : item ∈ f.announced) (honce : once k → item ∉ f.taken k) :
    (machine key once).step f (.take k item) = some (f.take k item h honce) :=
  dif_pos ⟨h, honce⟩

end

/-- What a subscriber that takes each item once has not taken yet. -/
def outstanding [DecidableEq ι] (f : Fanout key once) (k : κ) : List ι :=
  f.placed.filter (· ∉ f.taken k)

/-- Taken and outstanding make up what was placed. -/
theorem balance [DecidableEq ι] (f : Fanout key once) (h : once k) :
    (f.taken k ++ f.outstanding k).Perm f.placed := by
  have htaken : (f.taken k).Perm (f.placed.filter (· ∈ f.taken k)) := by
    refine (List.perm_ext_iff_of_nodup (f.taken_once k h).of_map
      (f.keyed.of_map.filter _)).mpr fun item => ?_
    simp only [List.mem_filter, decide_eq_true_eq, iff_and_self]
    exact fun hmem => f.announced_placed item (f.taken_announced k item hmem)
  refine (htaken.append_right _).trans ?_
  simpa [outstanding] using List.filter_append_perm (· ∈ f.taken k) f.placed

end Fanout
