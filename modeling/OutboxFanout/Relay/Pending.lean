import OutboxFanout.Order.Atomic
import OutboxFanout.Relay.Batch

/-!
# What is before a relay

The rows of its batch, and those its next poll may find: a poll finds none,
whatever happens before it, just when it is `Barren`.
-/

namespace OutboxFanout.Outbox

open Relay

variable {s s' : State}

-- ---------------------------------------------------------------------------
-- The batch
-- ---------------------------------------------------------------------------

def batchIds : RelayPc → List UUID
  | .down | .idle => []
  | .batch ids => ids
  | .skipped id ids | .failed id _ ids | .recording id _ ids => id :: ids
  | .locked event ids | .accepted event ids => event.id :: ids

/-- The rows of a batch are in the table, from which no row is ever removed. -/
def Known (s : State) : Prop :=
  ∀ r, ∀ id ∈ batchIds (s.relays r).pc, id ∈ s.outbox.map (·.id)

theorem known_relayStep (hs : RelayStep s r action s')
    (h : ∀ id ∈ batchIds (s.relays r).pc, id ∈ s.outbox.map (·.id)) :
    ∀ id ∈ batchIds (s'.relays r).pc, id ∈ s.outbox.map (·.id) := by
  have hkeep : ∀ {pc pc' : RelayPc}, (s.relays r).pc = pc → (∀ id ∈ batchIds pc', id ∈ batchIds pc) →
      ∀ id ∈ batchIds pc', id ∈ s.outbox.map (·.id) := fun hpc hsub key hkey =>
    h key (hpc ▸ hsub key hkey)
  cases hs with
  | start => simp [batchIds]
  | kill => simp [State.kill_pc, batchIds]
  | poll hpc hscan =>
    rw [State.goto_pc]
    intro key hkey
    obtain ⟨row, hrow, rfl, -⟩ := selectable_of_mem_pendingEventIds hkey
    obtain ⟨key, -, hfind⟩ := List.mem_filterMap.mp hrow
    exact List.mem_map_of_mem (List.mem_of_find?_eq_some hfind)
  | endPoll | recordMissing | recordFails | recordRefused =>
    rw [State.goto_pc]
    exact nofun
  | lock hpc | skip hpc | selectFails hpc | skipFails hpc | accepted hpc | refused hpc | lostAck hpc
  | markRefused hpc | markLost hpc | record hpc =>
    rw [State.goto_pc]
    exact hkeep hpc fun key hkey => hkey
  | skipDone hpc | mark hpc =>
    rw [State.goto_pc]
    exact hkeep hpc fun key hkey => List.mem_cons_of_mem _ hkey
  | recorded hpc hout =>
    rw [State.goto_pc]
    rcases recorded_pc hout with rfl | rfl
    · exact hkeep hpc fun key hkey => List.mem_cons_of_mem _ hkey
    · exact nofun

theorem Known.step (h : Known s) (hs : Step s action s') : Known s' := by
  intro r key hkey
  obtain ⟨new, hids⟩ := hs.write.ids
  rw [hids]
  refine List.mem_append_left _ ?_
  cases hs with
  | @relay r' _ _ hs =>
    by_cases hr : r = r'
    · subst hr
      exact known_relayStep hs (h r) key hkey
    · rw [hs.others hr] at hkey
      exact h r key hkey
  | _ => exact h r key hkey

-- ---------------------------------------------------------------------------
-- The others
-- ---------------------------------------------------------------------------

theorem kill_unlocks (h : (s.relays r).pc.holds = some eventId) :
    (s.kill r).locks eventId = none := by
  have hunlock : ∀ {id : UUID}, id = eventId → (s.unlock id).locks eventId = none := by
    rintro _ rfl
    simp [State.unlock]
  cases hpc : (s.relays r).pc with
  | locked event ids | accepted event ids | recording row exc ids =>
    have hid := hunlock (by simpa [hpc, RelayPc.holds] using h)
    simpa [State.kill, hpc] using hid
  | _ => simp [hpc, RelayPc.holds] at h

/-- The step is not one of the relay. -/
def Apart (r : RelayId) (action : Action) : Prop := ∀ r' action', action = .relay r' action' → r' ≠ r

theorem Apart.relay (h : r ≠ r') : Apart r (.relay r' action) := by
  intro _ _ heq
  cases heq
  exact h.symm

theorem apart_or (r : RelayId) (action : Action) :
    Apart r action ∨ ∃ action', action = .relay r action' := by
  cases action with
  | relay r' action =>
    by_cases hr : r = r'
    · exact .inr ⟨action, hr ▸ rfl⟩
    · exact .inl (.relay hr)
  | _ => exact .inl nofun

theorem Apart.relays (h : Apart r action) (hs : Step s action s') : s'.relays r = s.relays r := by
  cases hs with
  | relay hs => exact hs.others (h _ _ rfl).symm
  | _ => rfl

/-- Another relay is killed, or no relay moves. -/
def Outside (r : RelayId) (action : Action) : Prop :=
  ∀ r' action', action = .relay r' action' → r' ≠ r ∧ action' = .kill

theorem Outside.apart (h : Outside r action) : Apart r action :=
  fun r' action' heq => (h r' action' heq).1

theorem Outside.relays (h : machine.Reaches (fun _ => Outside r) s s') : s'.relays r = s.relays r :=
  h.invariant (I := fun t => t.relays r = s.relays r) rfl fun _ _ _ hi hc hs =>
    (hc.apart.relays (step_cases hs)).trans hi

-- ---------------------------------------------------------------------------
-- The next poll
-- ---------------------------------------------------------------------------

/-- No order can be committed any more: one of the two keys is used up. -/
def Full (s : State) : Prop :=
  (∀ id, id ∈ s.orders.map (·.id)) ∨ ∀ id, id ∈ s.outbox.map (·.id)

/-- The poll finds no row, whatever happens before it. -/
def Barren (config : Config) (s : State) : Prop :=
  config.batchSize = 0 ∨ config.maxAttempts = 0 ∨
    (∀ row ∈ s.outbox, row.published = true ∨ config.maxAttempts ≤ row.attempts) ∧ Full s

section
variable {config : Config}

theorem Barren.poll {rows : List OutboxEvent} (h : Barren config s)
    (hrows : ∀ row ∈ rows, row ∈ s.outbox) :
    pendingEventIds config.maxAttempts config.batchSize rows = [] := by
  rw [List.eq_nil_iff_forall_not_mem]
  intro eventId hmem
  obtain ⟨row, hrow, -, hunpub, -, hattempts⟩ := selectable_of_mem_pendingEventIds hmem
  rcases h with hsize | hlimit | ⟨hspent, -⟩
  · simp [pendingEventIds, hsize] at hmem
  · omega
  · rcases hspent row (hrows row hrow) with hpub | hle
    · simp [hunpub] at hpub
    · omega

theorem Full.not_commit (h : Full s) (hs : Step s action s') (q : RequestId) :
    action ≠ .commitOrder q := by
  rintro rfl
  cases hs with
  | commitOrder hq hfree =>
    rcases h with hall | hall
    · exact hfree.1 (hall _)
    · exact hfree.2 (hall _)

/-- Nothing brings back an attempt or an unpublished row. -/
theorem spent_rowWrite (h : row.published = true ∨ limit ≤ row.attempts)
    (hw : RowWrite s row action row') : row'.published = true ∨ limit ≤ row'.attempts := by
  cases hw with
  | same | clear => exact h
  | mark => exact .inl rfl
  | record =>
    rw [recordedFailure_published, recordedFailure_attempts]
    exact h.imp_right Nat.le_succ_of_le

theorem Barren.step (h : Barren config s) (hi : Inv s) (hs : Step s action s') : Barren config s' := by
  rcases h with hsize | hlimit | ⟨hspent, hfull⟩
  · exact .inl hsize
  · exact .inr (.inl hlimit)
  · have hcommit := hfull.not_commit hs
    have hids : s'.outbox.map (·.id) = s.outbox.map (·.id) := by
      have hfirst := congrArg (List.map Prod.fst) (hs.facts hcommit)
      simp only [List.map_map] at hfirst
      exact hfirst
    refine .inr (.inr ⟨fun row' hmem' => ?_, ?_⟩)
    · have hold : row'.id ∈ s.outbox.map (·.id) := hids ▸ List.mem_map_of_mem hmem'
      obtain ⟨row, hmem, hid⟩ := List.mem_map.mp hold
      exact spent_rowWrite (hspent row hmem) (hs.write.rowWrite hi.keyed hmem hmem' hid.symm)
    · rwa [Full, hs.orders hcommit, hids]

end

/-- Whoever holds the row may be killed, and `failed_at` may be cleared. -/
theorem exists_eligible (hi : Inv s) (hmem : row ∈ s.outbox) (hr : s.locks row.id ≠ some r) : ∃ s',
    machine.Reaches (fun _ => Outside r) s s' ∧ Inv s' ∧ { row with failedAt := none } ∈ s'.outbox ∧
      s'.locks row.id = none := by
  have hclear : ∀ t, machine.Reaches (fun _ => Outside r) s t → Inv t → row ∈ t.outbox →
      t.locks row.id = none → ∃ s', machine.Reaches (fun _ => Outside r) s s' ∧ Inv s' ∧
        { row with failedAt := none } ∈ s'.outbox ∧ s'.locks row.id = none := by
    intro t hreach hit hmem hfree
    have hstep : step t (.clearFailedAt row.id) =
        some (t.write row.id ({ · with failedAt := none })) := by
      simp [step, hfree]
    exact ⟨_, .next (.clearFailedAt row.id) hreach (by simp [Outside]) hstep,
      hit.step (step_cases hstep), Rows.mem_update_of_eq hmem rfl, hfree⟩
  cases hlock : s.locks row.id with
  | none => exact hclear s .refl hi hmem hlock
  | some r' =>
    have hother : Outside r (.relay r' .kill) := by
      intro _ _ heq
      cases heq
      exact ⟨fun heq => hr (heq ▸ hlock), rfl⟩
    have hkill : step s (.relay r' .kill) = some (s.kill r') := by simp [step, relayStep]
    exact hclear (s.kill r') (.next (.relay r' .kill) .refl hother hkill)
      (hi.step (step_cases hkill)) (by rwa [State.kill_outbox])
      (kill_unlocks ((hi.locks row.id r').mp hlock))

/-- While both keys have values left, an order can be committed. -/
theorem exists_committed (h : ¬Full s) : ∃ s' row, machine.Reaches (fun _ => Outside r) s s' ∧
    row ∈ s'.outbox ∧ row.published = false ∧ row.attempts = 0 := by
  obtain ⟨⟨orderId, horder⟩, eventId, hevent⟩ :
      (∃ id, id ∉ s.orders.map (·.id)) ∧ ∃ id, id ∉ s.outbox.map (·.id) := by
    simpa only [Full, not_or, not_forall] using h
  let order := (createOrder false orderId placedAt keyboardOrder).1
  let event := (createOrder false orderId placedAt keyboardOrder).2
  obtain ⟨row, hrow, rfl, hunpub, hattempts⟩ : ∃ row, event.row eventId placedAt = some row ∧
      row.id = eventId ∧ row.published = false ∧ row.attempts = 0 := ⟨_, rfl, rfl, rfl, rfl⟩
  let idle := s.request 0 .idle
  let staged := idle.request 0 (.staged order event)
  let flushed := staged.request 0 (.flushed order row)
  have hidle : machine.Reaches (fun _ => Outside r) s idle :=
    .next (.abort 0) .refl (by simp [Outside]) rfl
  have hpost : step idle (.post 0 false orderId placedAt keyboardOrder) = some staged := by
    have hpc : idle.requests 0 = .idle := by simp [idle, State.request]
    simp only [step, hpc]
    rfl
  have hflush : step staged (.flush 0 row.id placedAt) = some flushed := by
    have hpc : staged.requests 0 = .staged order event := by simp [staged, State.request]
    have hfree : staged.KeysFree order row := ⟨horder, hevent⟩
    simp only [step, hpc, hrow, if_pos hfree]
    rfl
  have hcommit : step flushed (.commitOrder 0) = some ({ flushed with
      orders := flushed.orders ++ [order], outbox := flushed.outbox ++ [row] }.request 0 .idle) := by
    have hpc : flushed.requests 0 = .flushed order row := by simp [flushed, State.request]
    have hfree : flushed.KeysFree order row := ⟨horder, hevent⟩
    simp only [step, hpc, if_pos hfree]
  have hflushed : machine.Reaches (fun _ => Outside r) s flushed :=
    .next (.flush 0 row.id placedAt) (.next (.post 0 false orderId placedAt keyboardOrder) hidle
      (by simp [Outside]) hpost) (by simp [Outside]) hflush
  exact ⟨_, row, .next (.commitOrder 0) hflushed (by simp [Outside]) hcommit,
    List.mem_append_right _ List.mem_cons_self, hunpub, hattempts⟩

/-- A poll that is not barren may find a row. -/
theorem exists_found (hi : Inv s) (hpc : (s.relays r).pc = .idle) (h : ¬Barren (s.relays r).config s) :
    ∃ s' s'' scan eventId ids, machine.Reaches (fun _ => Outside r) s s' ∧
      relayStep s' r (.poll scan) = some s'' ∧ (s''.relays r).pc = .batch (eventId :: ids) := by
  obtain ⟨hsize, hlimit, hleft⟩ : 0 < (s.relays r).config.batchSize ∧
      0 < (s.relays r).config.maxAttempts ∧ ((∃ row ∈ s.outbox, row.published = false ∧
        row.attempts < (s.relays r).config.maxAttempts) ∨ ¬Full s) := by
    rw [Barren, not_or, not_or, not_and_or] at h
    exact ⟨Nat.pos_of_ne_zero h.1, Nat.pos_of_ne_zero h.2.1,
      h.2.2.imp_left fun hspent => by simpa using hspent⟩
  obtain ⟨t, row, hreach, hmem, hunpub, hattempts⟩ : ∃ t row,
      machine.Reaches (fun _ => Outside r) s t ∧ row ∈ t.outbox ∧ row.published = false ∧
        row.attempts < (s.relays r).config.maxAttempts := by
    rcases hleft with ⟨row, hmem, hunpub, hattempts⟩ | hroom
    · exact ⟨s, row, .refl, hmem, hunpub, hattempts⟩
    · obtain ⟨t, row, hreach, hmem, hunpub, hnone⟩ := exists_committed (r := r) hroom
      exact ⟨t, row, hreach, hmem, hunpub, hnone ▸ hlimit⟩
  have hit : Inv t := hreach.invariant hi fun _ _ _ hi _ hs => hi.step (step_cases hs)
  have hrt := Outside.relays hreach
  have hlock : t.locks row.id ≠ some r := fun hlock => by
    have hholds := (hit.locks row.id r).mp hlock
    simp [hrt, hpc, RelayPc.holds] at hholds
  obtain ⟨u, hreach', hiu, hmem', -⟩ := exists_eligible hit hmem hlock
  have hru := (Outside.relays hreach').trans hrt
  let rows := (u.outbox.map (·.id)).filterMap fun id => u.outbox.find? (·.id = id)
  have hrows : { row with failedAt := none } ∈ rows := List.mem_filterMap.mpr
    ⟨row.id, List.mem_map.mpr ⟨_, hmem', rfl⟩, find?_eq_of_mem hiu.keyed hmem' (by simp) (by simp)⟩
  have hpoll : relayStep u r (.poll (u.outbox.map (·.id))) = some (u.goto r (.batch (pendingEventIds
      (s.relays r).config.maxAttempts (s.relays r).config.batchSize rows))) := by
    simp [relayStep, hru, hpc, rows]
  obtain ⟨eventId, ids, hids⟩ := List.exists_cons_of_ne_nil (pendingEventIds_ne_nil hrows
    ⟨hunpub, rfl, hattempts⟩ hsize)
  exact ⟨u, _, _, eventId, ids, hreach.trans hreach', hpoll, by rw [State.goto_pc, hids]⟩

end OutboxFanout.Outbox
