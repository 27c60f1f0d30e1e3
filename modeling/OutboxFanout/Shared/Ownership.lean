import OutboxFanout.Shared.Uniqueness

/-!
# Whose an uncommitted row is

An uncommitted row keeps every other INSERT for its order waiting. No such row
outlives its call: it is committed, rolled back, or gone with the process.
-/

namespace OutboxFanout.Projection

variable {ν δ ρ : Type} {p : Projection ν δ ρ} {table table' : Table ρ}
  {holder holder' : ConsumerId → Option UUID} {record : ρ}

/-- Every uncommitted row is that of some call in progress. -/
structure Owned (p : Projection ν δ ρ) (table : Table ρ) (holder : ConsumerId → Option UUID) :
    Prop extends Exclusive p table holder where
  owner : ∀ order ∈ table.pending, ∃ c, holder c = some order

theorem Owned.empty : Owned p .empty fun _ => none := ⟨.empty, nofun⟩

theorem Owned.insert (h : Owned p table holder) (hfree : ¬p.Holds table order)
    (hpending : order ∉ table.pending) (hc : holder c = none) :
    Owned p { table with pending := order :: table.pending }
      (Function.update holder c (some order)) where
  toExclusive := h.toExclusive.insert hfree hpending
  owner order' hmem := by
    rcases List.mem_cons.mp hmem with rfl | hmem
    · exact ⟨c, Function.update_self ..⟩
    · obtain ⟨c', hc'⟩ := h.owner order' hmem
      refine ⟨c', ?_⟩
      rw [Function.update_of_ne, hc']
      rintro rfl
      rw [hc] at hc'
      cases hc'

theorem Owned.owner_erase (h : Owned p table holder) (hc : holder c = some order)
    (hmem : order' ∈ table.pending.erase order) :
    ∃ c', Function.update holder c none c' = some order' := by
  obtain ⟨hne, hmem⟩ := h.nodup.mem_erase_iff.mp hmem
  obtain ⟨c', hc'⟩ := h.owner order' hmem
  refine ⟨c', ?_⟩
  rw [Function.update_of_ne, hc']
  rintro rfl
  rw [hc] at hc'
  exact hne (Option.some.inj hc').symm

theorem Owned.release (h : Owned p table holder) (hc : holder c = some (p.rowOrderId record)) :
    Owned p (p.release table record) (Function.update holder c none) :=
  ⟨h.toExclusive.release hc, fun _ => h.owner_erase hc⟩

theorem Owned.commit (h : Owned p table holder) (hc : holder c = some (p.rowOrderId record)) :
    Owned p (p.commit table record) (Function.update holder c none) :=
  ⟨h.toExclusive.commit hc, fun _ => h.owner_erase hc⟩

section
variable {s s' : Site (Table ρ) (Insert ν ρ)} {q : Consumer (Insert ν ρ)}

theorem Owned.put (h : Owned p table (s.holders p.inserted?))
    (hpc : q.pc.call?.bind p.inserted? = s.holders p.inserted? c) :
    Owned p table ((s.put c q).holders p.inserted?) := by
  rwa [Site.holders_put, hpc, Function.update_eq_self]

theorem holders_of_pc (hpc : (s.consumers c).pc.call? = none) : s.holders p.inserted? c = none := by
  rw [Site.holders, hpc]
  rfl

theorem Owned.answered (h : Owned p s.store (s.holders p.inserted?))
    (hpc : (s.consumers c).pc = .handling delivery event call rest)
    (hanswer : Answered p s.store call answer table progress) :
    Owned p table
      (({ s with store := table }.goto c (progress.pc delivery event rest)).holders p.inserted?) := by
  have hheld : s.holders p.inserted? c = p.inserted? call := by
    simp [Site.holders, hpc, ConsumerPc.call?]
  cases hanswer with
  | conflict | executeFails | ignored | ignoredFails => exact h.put hheld.symm
  | inserted hfree hpending =>
    rw [Site.goto, Site.holders_put]
    show Owned p _ (Function.update _ c (some (p.rowOrderId (p.row _ _))))
    rw [p.rowOrderId_row]
    exact h.insert hfree hpending hheld
  | committed hout =>
    rw [Site.goto, Site.holders_put]
    rcases hout with ⟨-, rfl⟩ | ⟨_, -, rfl⟩ <;> exact h.commit hheld
  | refused =>
    rw [Site.goto, Site.holders_put]
    exact h.release hheld

theorem Owned.step (h : Owned p s.store (s.holders p.inserted?))
    (hs : SiteStep p.handler s action s') : Owned p s'.store (s'.holders p.inserted?) := by
  cases hs with
  | start hpc | exit hpc => exact h.put (holders_of_pc (by rw [hpc]; rfl)).symm
  | drop hpc | delete hpc | keep hpc => exact h.put (holders_of_pc (by rw [hpc]; rfl)).symm
  | @kill c hpc =>
    refine h.put (holders_of_pc ?_).symm
    cases heq : (s.consumers c).pc with
    | handling => exact absurd heq (hpc _ _ _ _)
    | _ => rfl
  | stop => exact h.put rfl
  | receive hpc hq hnext =>
    have hnone := holders_of_pc (p := p) (congrArg ConsumerPc.call? hpc)
    rcases hnext with ⟨-, rfl⟩ | ⟨-, rfl⟩ <;> exact h.put hnone.symm
  | next hpc => exact h.put (inserted?_open.trans (holders_of_pc (by rw [hpc]; rfl)).symm)
  | handle hpc hcall => exact h.answered hpc (step_cases hcall)
  | @killCall c delivery event call rest hpc =>
    have hheld : s.holders p.inserted? c = p.inserted? call := by
      simp [Site.holders, hpc, ConsumerPc.call?]
    cases call with
    | ready | conflict => exact h.put hheld.symm
    | inserted record =>
      rw [Site.goto, Site.holders_put]
      exact h.release hheld
  | deliver | expire | redrive => exact h
  | @env event store hstore =>
    have hexclusive := h.toExclusive.step (.env hstore)
    cases event
    cases hstore
    exact ⟨hexclusive, h.owner⟩

theorem owned_of_reaches (h : (Site.machine p.handler).Reaches C (.empty limit .empty) s) :
    Owned p s.store (s.holders p.inserted?) :=
  h.invariant (I := fun s => Owned p s.store (s.holders p.inserted?)) .empty
    fun _ _ _ hi _ hs => hi.step (Site.step_cases hs)

theorem handling_of_holder (h : s.holders p.inserted? c = some order) :
    ∃ delivery event record rest, p.rowOrderId record = order ∧
      (s.consumers c).pc = .handling delivery event (.inserted record) rest := by
  obtain ⟨call, hcall, hinserted⟩ := Option.bind_eq_some_iff.mp h
  cases hpc : (s.consumers c).pc with
  | handling delivery event call' rest =>
    rw [hpc] at hcall
    cases hcall
    cases call with
    | inserted record => exact ⟨delivery, event, record, rest, Option.some.inj hinserted, rfl⟩
    | ready | conflict => cases hinserted
  | _ => simp [hpc, ConsumerPc.call?] at hcall

end

end OutboxFanout.Projection
