import OutboxFanout.Relay.Locking

/-!
# What happens to a row

`Write` lists what a step does to the outbox: nothing, the insert of a new
row, a mark, the bookkeeping of a failure, an operator's edit. From an empty
outbox, `attempts` then counts the committed runs of `record_failure`
(`attempts_eq_recorded`).
-/

namespace OutboxFanout.Outbox

open Relay

inductive Write (s : State) : Action → List OutboxEvent → Prop
  | same : Write s action s.outbox
  | create (hq : s.requests q = .flushed order row) (hfree : row.id ∉ s.outbox.map (·.id)) :
    Write s (.commitOrder q) (s.outbox ++ [row])
  | mark {outcome : Commit} (hpc : (s.relays r).pc = .accepted event ids)
      (hout : outcome = .done ∨ ∃ error, outcome = .lost error) :
    Write s (.relay r (.commit outcome now))
      (Rows.update OutboxEvent.id event.id (·.mark now) s.outbox)
  | record {outcome : Commit} (hpc : (s.relays r).pc = .recording eventId exc ids) :
    Write s (.relay r (.commit outcome now)) (Rows.update OutboxEvent.id eventId
      (recordedFailure (s.relays r).config.maxAttempts exc (isPermanent exc) now) s.outbox)
  | clear : Write s (.clearFailedAt key)
      (Rows.update OutboxEvent.id key ({ · with failedAt := none }) s.outbox)

theorem Step.write (h : Step s action s') : Write s action s'.outbox := by
  cases h with
  | relay hr =>
    cases hr with
    | kill => simpa only [State.kill_outbox] using Write.same
    | mark hpc => exact .mark hpc (.inl rfl)
    | markLost hpc => exact .mark hpc (.inr ⟨_, rfl⟩)
    | recorded hpc => exact .record hpc
    | _ => exact .same
  | commitOrder hq hfree => exact .create hq hfree.2
  | clearFailedAt => exact .clear
  | post | flush | flushFails | abort => exact .same

/-- No row is ever deleted, and what identifies it and its event stays. -/
theorem Write.facts (h : Write s action rows) : ∃ new : List OutboxEvent,
    rows.map OutboxEvent.facts = s.outbox.map OutboxEvent.facts ++ new.map OutboxEvent.facts ∧
      ∀ row ∈ new, ∃ q order, action = .commitOrder q ∧ s.requests q = .flushed order row := by
  have hupdate : ∀ {key} {f : OutboxEvent → OutboxEvent}, (∀ row, (f row).facts = row.facts) →
      (Rows.update OutboxEvent.id key f s.outbox).map OutboxEvent.facts =
        s.outbox.map OutboxEvent.facts ++ [].map OutboxEvent.facts := fun hf => by
    simpa using Rows.map_update hf
  cases h with
  | same => exact ⟨[], by simp, nofun⟩
  | @create q order row hq =>
    exact ⟨[row], List.map_append, fun _ hnew => List.mem_singleton.mp hnew ▸ ⟨_, _, rfl, hq⟩⟩
  | mark | clear => exact ⟨[], hupdate fun _ => rfl, nofun⟩
  | record => exact ⟨[], hupdate fun _ => recordedFailure_facts, nofun⟩

theorem Write.ids (h : Write s action rows) :
    ∃ new, rows.map (·.id) = s.outbox.map (·.id) ++ new := by
  obtain ⟨new, hfacts, -⟩ := h.facts
  have hids := congrArg (List.map Prod.fst) hfacts
  simp only [List.map_append, List.map_map] at hids
  exact ⟨new.map OutboxEvent.id, hids⟩

/-- What a step does to one row. -/
inductive RowWrite (s : State) (row : OutboxEvent) : Action → OutboxEvent → Prop
  | same : RowWrite s row action row
  | mark {outcome : Commit} (hpc : (s.relays r).pc = .accepted event ids) (hid : event.id = row.id)
      (hout : outcome = .done ∨ ∃ error, outcome = .lost error) :
    RowWrite s row (.relay r (.commit outcome now)) (row.mark now)
  | record {outcome : Commit} (hpc : (s.relays r).pc = .recording row.id exc ids) :
    RowWrite s row (.relay r (.commit outcome now))
      (recordedFailure (s.relays r).config.maxAttempts exc (isPermanent exc) now row)
  | clear : RowWrite s row (.clearFailedAt row.id) { row with failedAt := none }

theorem Write.rowWrite (h : Write s action rows) (hk : Rows.Keyed OutboxEvent.id s.outbox)
    (hmem : row ∈ s.outbox) (hmem' : row' ∈ rows) (hid : row'.id = row.id) :
    RowWrite s row action row' := by
  have hsame : row' ∈ s.outbox → RowWrite s row action row' := fun hold =>
    hk.eq_of_mem hold hmem hid ▸ .same
  cases h with
  | same => exact hsame hmem'
  | create hq hfree =>
    rcases List.mem_append.mp hmem' with hmem' | hmem'
    · exact hsame hmem'
    · obtain rfl := List.mem_singleton.mp hmem'
      exact absurd (hid ▸ List.mem_map_of_mem hmem) hfree
  | mark hpc hout =>
    rcases Rows.mem_update.mp hmem' with ⟨hmem', -⟩ | ⟨old, hold, hkey, rfl⟩
    · exact hsame hmem'
    · obtain rfl := hk.eq_of_mem hmem hold hid.symm
      exact .mark hpc hkey.symm hout
  | record hpc =>
    rcases Rows.mem_update.mp hmem' with ⟨hmem', -⟩ | ⟨old, hold, rfl, rfl⟩
    · exact hsame hmem'
    · obtain rfl := hk.eq_of_mem hmem hold (hid.symm.trans recordedFailure_id)
      exact .record hpc
  | clear =>
    rcases Rows.mem_update.mp hmem' with ⟨hmem', -⟩ | ⟨old, hold, rfl, rfl⟩
    · exact hsame hmem'
    · obtain rfl := hk.eq_of_mem hmem hold hid.symm
      exact .clear

-- ---------------------------------------------------------------------------
-- An accepted publish
-- ---------------------------------------------------------------------------

theorem RelayStep.accepted_pc (h : RelayStep s r action s')
    (hpc : (s'.relays r').pc = .accepted event ids) :
    (s.relays r').pc = .accepted event ids ∨
      accepted? s (.relay r action) = some event := by
  by_cases hr : r' = r
  · subst hr
    cases h with
    | kill =>
      rw [State.kill_pc] at hpc
      cases hpc
    | accepted hlocked =>
      obtain ⟨rfl, -⟩ : _ = event ∧ _ = ids := by simpa using hpc
      exact .inr (by simp [accepted?, hlocked])
    | recorded hrecording hout =>
      rcases recorded_pc hout with rfl | rfl <;> simp at hpc
    | _ => simp at hpc
  · exact .inl (by rw [← h.others hr]; exact hpc)

theorem Step.accepted_pc (h : Step s action s')
    (hpc : (s'.relays r).pc = .accepted event ids) :
    (s.relays r).pc = .accepted event ids ∨ accepted? s action = some event := by
  cases h with
  | relay hr => exact hr.accepted_pc hpc
  | _ => exact .inl hpc

-- ---------------------------------------------------------------------------
-- What a request inserts
-- ---------------------------------------------------------------------------

/-- A request carries what `create_order` staged for some body, and after the
flush the row inserted for it. -/
inductive RequestPc.Ok : RequestPc → Prop
  | idle : Ok .idle
  | staged : Ok (.staged (createOrder broken orderId now data).1
      (createOrder broken orderId now data).2)
  | flushed (hrow : (createOrder broken orderId now data).2.row eventId then_ = some row) :
    Ok (.flushed (createOrder broken orderId now data).1 row)

def RequestsOk (s : State) : Prop := ∀ q, (s.requests q).Ok

theorem RequestsOk.request {s : State} (h : RequestsOk s) (hpc : pc.Ok) :
    RequestsOk (s.request q pc) := by
  intro q'
  by_cases hq : q' = q
  · subst hq
    simpa [State.request] using hpc
  · simpa [State.request, hq] using h q'

theorem RelayStep.requests (h : RelayStep s r action s') : s'.requests = s.requests := by
  cases h with
  | kill => exact State.kill_requests
  | _ => rfl

theorem RequestsOk.step (h : RequestsOk s) (hs : Step s action s') : RequestsOk s' := by
  cases hs with
  | relay hr => exact fun q => hr.requests ▸ h q
  | post => exact h.request .staged
  | @flush q order event eventId now row hq hrow =>
    have hok := h q
    rw [hq] at hok
    cases hok
    exact h.request (.flushed hrow)
  | flushFails | abort => exact h.request .idle
  | commitOrder => exact RequestsOk.request h .idle
  | clearFailedAt => exact h

theorem State.Initial.requestsOk (h : State.Initial s) : RequestsOk s := by
  intro q
  rw [h.requests q]
  exact .idle

theorem RequestsOk.eventType (h : RequestsOk s) (hq : s.requests q = .flushed order row) :
    row.eventType = eventTypeOrderCreated := by
  have hok := h q
  rw [hq] at hok
  cases hok with
  | @flushed broken orderId now data eventId then_ _ hrow =>
    obtain ⟨eventType, htype, rfl⟩ := Option.map_eq_some_iff.mp hrow
    cases broken with
    | false => exact (Option.some.inj htype).symm
    | true => cases htype

/-- Only OrderCreated events exist. -/
theorem RequestsOk.eventTypes (h : RequestsOk s) (hs : Step s action s')
    (htypes : ∀ row ∈ s.outbox, row.eventType = eventTypeOrderCreated) :
    ∀ row ∈ s'.outbox, row.eventType = eventTypeOrderCreated := by
  obtain ⟨new, hfacts, hnew⟩ := hs.write.facts
  have heq := congrArg (List.map fun facts => facts.2.2.1) hfacts
  simp only [List.map_append, List.map_map] at heq
  intro row hmem
  have hmem : row.eventType ∈ s'.outbox.map OutboxEvent.eventType := List.mem_map_of_mem hmem
  replace heq : s'.outbox.map OutboxEvent.eventType =
    s.outbox.map OutboxEvent.eventType ++ new.map OutboxEvent.eventType := heq
  rw [heq, List.mem_append] at hmem
  rcases hmem with hmem | hmem
  · obtain ⟨old, hold, htype⟩ := List.mem_map.mp hmem
    exact htype ▸ htypes old hold
  · obtain ⟨event, hevent, htype⟩ := List.mem_map.mp hmem
    obtain ⟨q, order, -, hq⟩ := hnew event hevent
    exact htype ▸ h.eventType hq

/-- A new row: nothing has been tried yet. -/
structure OutboxEvent.Fresh (row : OutboxEvent) : Prop where
  published : row.published = false
  attempts : row.attempts = 0
  failedAt : row.failedAt = none

theorem StagedEvent.row_fresh (h : StagedEvent.row event eventId now = some row) :
    OutboxEvent.Fresh row := by
  obtain ⟨eventType, -, rfl⟩ := Option.map_eq_some_iff.mp h
  exact ⟨rfl, rfl, rfl⟩

theorem RequestsOk.fresh (h : RequestsOk s) (hq : s.requests q = .flushed order row) :
    OutboxEvent.Fresh row := by
  have hok := h q
  rw [hq] at hok
  cases hok with
  | flushed hrow => exact StagedEvent.row_fresh hrow

/-- Every row of the new table is a row of the old one or a new one. -/
theorem Write.origin (h : Write s action rows) (hk : Rows.Keyed OutboxEvent.id s.outbox)
    (hr : RequestsOk s) (hmem' : row' ∈ rows) :
    (∃ row ∈ s.outbox, RowWrite s row action row') ∨
      OutboxEvent.Fresh row' ∧ row'.id ∉ s.outbox.map (·.id) := by
  by_cases hold : row'.id ∈ s.outbox.map (·.id)
  · obtain ⟨row, hmem, hid⟩ := List.mem_map.mp hold
    exact .inl ⟨row, hmem, h.rowWrite hk hmem hmem' hid.symm⟩
  · refine .inr ⟨?_, hold⟩
    cases h with
    | create hq hfree =>
      rcases List.mem_append.mp hmem' with hmem' | hmem'
      · exact absurd (List.mem_map_of_mem hmem') hold
      · obtain rfl := List.mem_singleton.mp hmem'
        exact hr.fresh hq
    | same => exact absurd (List.mem_map_of_mem hmem') hold
    | mark | clear =>
      rcases Rows.mem_update.mp hmem' with ⟨hmem, -⟩ | ⟨old, hmem, -, rfl⟩
      · exact absurd (List.mem_map_of_mem hmem) hold
      · exact absurd (List.mem_map_of_mem hmem) hold
    | record =>
      rcases Rows.mem_update.mp hmem' with ⟨hmem, -⟩ | ⟨old, hmem, -, rfl⟩
      · exact absurd (List.mem_map_of_mem hmem) hold
      · rw [recordedFailure_id] at hold
        exact absurd (List.mem_map_of_mem hmem) hold

-- ---------------------------------------------------------------------------
-- The attempts of a row
-- ---------------------------------------------------------------------------

/-- The committed runs of `record_failure` on the row. -/
def State.recorded (s : State) (id : UUID) : Nat :=
  s.history.countP fun | .recorded id' _ => id' = id | _ => false

theorem RelayStep.holds (h : RelayStep s r action s')
    (hh : (s'.relays r').pc.holds = some key) :
    (s.relays r').pc.holds = some key ∨ key ∈ s.outbox.map (·.id) := by
  by_cases hr : r' = r
  · subst hr
    cases h with
    | kill =>
      rw [State.kill_pc] at hh
      cases hh
    | lock hpc hfree hmem =>
      obtain rfl : _ = key := by simpa [RelayPc.holds] using hh
      exact .inr (List.mem_map_of_mem hmem)
    | record hpc hfree hmem hid =>
      obtain rfl : _ = key := by simpa [RelayPc.holds] using hh
      exact .inr (hid ▸ List.mem_map_of_mem hmem)
    | accepted hpc => exact .inl (by rw [hpc]; simpa [RelayPc.holds] using hh)
    | recorded hpc hout =>
      rcases recorded_pc hout with rfl | rfl <;> simp [RelayPc.holds] at hh
    | _ => simp [RelayPc.holds] at hh
  · exact .inl (by rw [← h.others hr]; exact hh)

/-- `attempts` counts the failures on record, from the row's first day on. -/
structure Counted (s : State) : Prop where
  known : ∀ r key, (s.relays r).pc.holds = some key → key ∈ s.outbox.map (·.id)
  attempts : ∀ row ∈ s.outbox, row.attempts = s.recorded row.id
  unseen : ∀ key, key ∉ s.outbox.map (·.id) → s.recorded key = 0

theorem Counted.empty : Counted .empty :=
  ⟨by simp [State.empty, State.holding, RelayPc.holds], nofun, fun _ _ => rfl⟩

theorem Counted.known_step (h : Counted s) (hs : Step s action s') :
    ∀ r key, (s'.relays r).pc.holds = some key → key ∈ s'.outbox.map (·.id) := by
  intro r key hh
  obtain ⟨new, hids⟩ := hs.write.ids
  rw [hids]
  apply List.mem_append_left
  cases hs with
  | relay hr =>
    rcases hr.holds hh with hh | hmem
    · exact h.known r key hh
    · exact hmem
  | _ => exact h.known r key hh

/-- A step that records no failure and changes no `attempts`. -/
theorem Counted.keep (h : Counted s) (hs : Step s action s')
    (hrec : ∀ key, s'.recorded key = s.recorded key)
    (hrow : ∀ row ∈ s'.outbox, (∃ old ∈ s.outbox, old.id = row.id ∧ old.attempts = row.attempts) ∨
      row.attempts = 0 ∧ row.id ∉ s.outbox.map (·.id)) : Counted s' := by
  refine ⟨h.known_step hs, fun row hmem => ?_, fun key hkey => ?_⟩
  · rw [hrec]
    rcases hrow row hmem with ⟨old, hold, hid, hatt⟩ | ⟨hzero, hnew⟩
    · rw [← hid, ← hatt]
      exact h.attempts old hold
    · rw [hzero, h.unseen _ hnew]
  · rw [hrec]
    refine h.unseen key fun hmem => hkey ?_
    obtain ⟨new, hids⟩ := hs.write.ids
    exact hids ▸ List.mem_append_left _ hmem

theorem State.kill_recorded {s : State} : (s.kill r).recorded key = s.recorded key := by
  rcases s.kill_history r with heq | ⟨_, heq⟩ <;> simp [State.recorded, heq]

theorem Counted.update (h : Counted s) (hs : Step s action s')
    (hrec : ∀ key, s'.recorded key = s.recorded key)
    (hout : s'.outbox = Rows.update OutboxEvent.id eventId f s.outbox)
    (hid : ∀ row, (f row).id = row.id) (hatt : ∀ row, (f row).attempts = row.attempts) :
    Counted s' := by
  refine h.keep hs hrec fun row hmem => .inl ?_
  rw [hout] at hmem
  rcases Rows.mem_update.mp hmem with ⟨hmem, -⟩ | ⟨old, hold, -, rfl⟩
  · exact ⟨row, hmem, rfl, rfl⟩
  · exact ⟨old, hold, (hid old).symm, (hatt old).symm⟩

theorem Counted.record (h : Counted s) (hs : Step s action s')
    (hpc : (s.relays r).pc = .recording eventId exc ids)
    (hhist : s'.history = .recorded eventId permanent :: s.history)
    (hout : s'.outbox = Rows.update OutboxEvent.id eventId
      (recordedFailure limit exc permanent now) s.outbox) : Counted s' := by
  have hrec : ∀ key, s'.recorded key = s.recorded key + if eventId = key then 1 else 0 := by
    intro key
    simp [State.recorded, hhist, List.countP_cons]
  refine ⟨h.known_step hs, fun row hmem => ?_, fun key hkey => ?_⟩
  · rw [hout] at hmem
    rcases Rows.mem_update.mp hmem with ⟨hmem, hne⟩ | ⟨old, hold, rfl, rfl⟩
    · rw [hrec, if_neg (Ne.symm hne)]
      exact h.attempts row hmem
    · rw [recordedFailure_attempts, recordedFailure_id, hrec, if_pos rfl, h.attempts old hold]
  · rw [hout, Rows.map_update fun _ => recordedFailure_id] at hkey
    have hheld := h.known r eventId (by rw [hpc]; rfl)
    rw [hrec, if_neg (by rintro rfl; exact hkey hheld)]
    exact h.unseen key hkey

theorem Counted.step (h : Counted s) (hr : RequestsOk s) (hs : Step s action s') : Counted s' := by
  have hsame : s'.outbox = s.outbox → (∀ key, s'.recorded key = s.recorded key) → Counted s' :=
    fun hout hrec => h.keep hs hrec fun row hmem => .inl ⟨row, hout ▸ hmem, rfl, rfl⟩
  have hs₀ := hs
  cases hs with
  | relay hr =>
    cases hr with
    | kill => exact hsame State.kill_outbox fun _ => State.kill_recorded
    | mark => exact h.update hs₀ (fun _ => rfl) rfl (fun _ => rfl) fun _ => rfl
    | markLost => exact h.update hs₀ (by simp [State.recorded]) rfl (fun _ => rfl) fun _ => rfl
    | recorded hpc => exact h.record hs₀ hpc rfl rfl
    | accepted | lostAck | markRefused => exact hsame rfl (by simp [State.recorded])
    | _ => exact hsame rfl fun _ => rfl
  | commitOrder hq hfree =>
    refine h.keep hs₀ (fun _ => rfl) fun row hmem => ?_
    rcases List.mem_append.mp hmem with hmem | hmem
    · exact .inl ⟨row, hmem, rfl, rfl⟩
    · obtain rfl := List.mem_singleton.mp hmem
      exact .inr ⟨(hr.fresh hq).attempts, hfree.2⟩
  | clearFailedAt => exact h.update hs₀ (fun _ => rfl) rfl (fun _ => rfl) fun _ => rfl
  | post | flush | flushFails | abort => exact hsame rfl fun _ => rfl

/-- Everything a run from the empty deployment keeps. -/
structure Tracked (s : State) : Prop extends Inv s, Counted s where
  requests : RequestsOk s

theorem tracked_of_reaches (h : machine.Reaches C .empty s) : Tracked s := by
  refine h.invariant ?_ fun t action u ht _ hs => ?_
  · exact ⟨State.empty_initial.inv, .empty, State.empty_initial.requestsOk⟩
  · have hs := step_cases hs
    exact ⟨ht.toInv.step hs, ht.toCounted.step ht.requests hs, ht.requests.step hs⟩

theorem attempts_eq_recorded (h : machine.Reaches C .empty s) (hmem : row ∈ s.outbox) :
    row.attempts = s.recorded row.id :=
  (tracked_of_reaches h).attempts row hmem

end OutboxFanout.Outbox
