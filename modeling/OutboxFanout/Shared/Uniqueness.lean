import OutboxFanout.Shared.Projection

/-!
# One row per order

`ON CONFLICT (order_id) DO NOTHING` between several consumers: an order is in
the table, or one uncommitted INSERT has it, or neither. So no commit adds a
second row for an order, however deliveries, rollbacks and kills fall.
-/

namespace OutboxFanout.Projection

variable {ν δ ρ : Type} {p : Projection ν δ ρ} {table table' : Table ρ}
  {holder holder' : ConsumerId → Option UUID} {record : ρ}

/-- The order of the row a call has inserted and not committed. -/
def inserted? (p : Projection ν δ ρ) : Insert ν ρ → Option UUID
  | .inserted record => some (p.rowOrderId record)
  | _ => none

/-- `holder c` is the order consumer `c` has an uncommitted row for. -/
structure Exclusive (p : Projection ν δ ρ) (table : Table ρ) (holder : ConsumerId → Option UUID) :
    Prop where
  keyed : Rows.Keyed p.rowOrderId table.rows
  nodup : table.pending.Nodup
  held : ∀ c order, holder c = some order → order ∈ table.pending
  alone : ∀ c c' order, holder c = some order → holder c' = some order → c = c'
  free : ∀ order ∈ table.pending, ¬p.Holds table order

theorem Exclusive.empty : Exclusive p .empty fun _ => none :=
  ⟨List.nodup_nil, List.nodup_nil, nofun, nofun, nofun⟩

theorem Exclusive.leave (h : Exclusive p table holder)
    (hholder : ∀ c order, holder' c = some order → holder c = some order) :
    Exclusive p table holder' :=
  { h with
    held := fun c order hc => h.held c order (hholder c order hc)
    alone := fun c c' order hc hc' => h.alone c c' order (hholder c order hc) (hholder c' order hc') }

theorem Exclusive.insert (h : Exclusive p table holder) (hfree : ¬p.Holds table order)
    (hpending : order ∉ table.pending) :
    Exclusive p { table with pending := order :: table.pending }
      (Function.update holder c (some order)) where
  keyed := h.keyed
  nodup := List.nodup_cons.mpr ⟨hpending, h.nodup⟩
  held c' order' hc' := by
    rcases holder_of_acquire hc' with ⟨-, rfl⟩ | ⟨-, hc'⟩
    · exact List.mem_cons_self
    · exact List.mem_cons_of_mem _ (h.held c' order' hc')
  alone _ _ _ := alone_of_acquire h.alone fun c' hc' => hpending (h.held c' _ hc')
  free order' hmem := by
    rcases List.mem_cons.mp hmem with rfl | hmem
    · exact hfree
    · exact h.free order' hmem

/-- The uncommitted row is gone. -/
theorem Exclusive.release (h : Exclusive p table holder)
    (hc : holder c = some (p.rowOrderId record)) :
    Exclusive p (p.release table record) (Function.update holder c none) where
  keyed := h.keyed
  nodup := h.nodup.erase _
  held c' order hc' := by
    obtain ⟨hne, hc'⟩ := holder_of_leave hc'
    refine (List.mem_erase_of_ne ?_).mpr (h.held c' order hc')
    rintro rfl
    exact hne (h.alone c' c _ hc' hc)
  alone c' c'' order hc' hc'' :=
    h.alone c' c'' order (holder_of_leave hc').2 (holder_of_leave hc'').2
  free order hmem := h.free order (List.mem_of_mem_erase hmem)

/-- It is committed, and the only row of its order. -/
theorem Exclusive.commit (h : Exclusive p table holder) (hc : holder c = some (p.rowOrderId record)) :
    Exclusive p (p.commit table record) (Function.update holder c none) := by
  have hreleased := h.release hc
  have hfree := h.free _ (h.held c _ hc)
  refine ⟨h.keyed.append ?_, hreleased.nodup, hreleased.held, hreleased.alone, ?_⟩
  · exact fun old hold heq => hfree ⟨old, hold, heq⟩
  · rintro order hmem ⟨old, hold, rfl⟩
    rcases List.mem_append.mp hold with hold | hold
    · exact hreleased.free _ hmem ⟨old, hold, rfl⟩
    · obtain rfl := List.mem_singleton.mp hold
      exact (h.nodup.mem_erase_iff.mp hmem).1 rfl

section
variable {s s' : Site (Table ρ) (Insert ν ρ)} {q : Consumer (Insert ν ρ)}

theorem inserted?_open :
    (p.handler.open_ depth delivery rest).call?.bind p.inserted? = none := by
  refine Handler.open_cases rfl fun event call _ hcall => ?_
  cases hread : p.read event with
  | error exc => simp [handler, hread, Except.map] at hcall
  | ok values =>
    simp only [handler, hread, Except.map] at hcall
    cases hcall
    rfl

theorem Exclusive.put (h : Exclusive p table (s.holders p.inserted?))
    (hpc : q.pc.call?.bind p.inserted? = none ∨ q.pc.call?.bind p.inserted? = s.holders p.inserted? c) :
    Exclusive p table ((s.put c q).holders p.inserted?) := by
  rw [Site.holders_put]
  rcases hpc with hpc | hpc
  · rw [hpc]
    exact h.leave fun _ _ hc' => (holder_of_leave hc').2
  · rwa [hpc, Function.update_eq_self]

theorem Exclusive.answered (h : Exclusive p s.store (s.holders p.inserted?))
    (hpc : (s.consumers c).pc = .handling delivery event call rest)
    (hanswer : Answered p s.store call answer table progress) :
    Exclusive p table
      (({ s with store := table }.goto c (progress.pc delivery event rest)).holders p.inserted?) := by
  have hheld : s.holders p.inserted? c = p.inserted? call := by
    simp [Site.holders, hpc, ConsumerPc.call?]
  cases hanswer with
  | conflict | executeFails | ignored | ignoredFails => exact h.put (.inl rfl)
  | inserted hfree hpending =>
    rw [Site.goto, Site.holders_put]
    show Exclusive p _ (Function.update _ c (some (p.rowOrderId (p.row _ _))))
    rw [p.rowOrderId_row]
    exact h.insert hfree hpending
  | committed hout =>
    rw [Site.goto, Site.holders_put]
    rcases hout with ⟨-, rfl⟩ | ⟨_, -, rfl⟩ <;> exact h.commit hheld
  | refused =>
    rw [Site.goto, Site.holders_put]
    exact h.release hheld

theorem Exclusive.step (h : Exclusive p s.store (s.holders p.inserted?))
    (hs : SiteStep p.handler s action s') : Exclusive p s'.store (s'.holders p.inserted?) := by
  cases hs with
  | start | exit | drop | delete | keep | kill => exact h.put (.inl rfl)
  | stop => exact h.put (.inr rfl)
  | receive hpc hq hnext =>
    refine h.put (.inl ?_)
    rcases hnext with ⟨-, rfl⟩ | ⟨-, rfl⟩ <;> rfl
  | next => exact h.put (.inl inserted?_open)
  | handle hpc hcall => exact h.answered hpc (step_cases hcall)
  | @killCall c delivery event call rest hpc =>
    have hheld : s.holders p.inserted? c = p.inserted? call := by
      simp [Site.holders, hpc, ConsumerPc.call?]
    cases call with
    | ready | conflict => exact h.put (.inl rfl)
    | inserted record =>
      rw [Site.goto, Site.holders_put]
      exact h.release hheld
  | deliver | expire | redrive => exact h
  | @env event store hstore =>
    cases event
    cases hstore
    exact ⟨List.nodup_nil, h.nodup, h.held, h.alone, fun _ _ => by rintro ⟨_, hmem, -⟩; cases hmem⟩

end

end OutboxFanout.Projection
