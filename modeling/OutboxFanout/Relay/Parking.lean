import OutboxFanout.Relay.Batch
import OutboxFanout.Relay.History

/-!
# Parking a row

`failed_at` takes a row out of the poll. The three sections follow it: what
clearing it brings back, whether it stops a relay that already holds the row's
id, and whether an unpublished row can be out of the poll without it.
-/

namespace OutboxFanout.Outbox

open Relay

-- ---------------------------------------------------------------------------
-- Clearing failed_at
-- ---------------------------------------------------------------------------

/-- The row is selected again: it is in the batch of every poll whose limit
reaches it, and a relay that comes to it there takes it up for publishing. -/
def BackInPoll (s : State) (maxAttempts : Nat) (eventId : UUID) : Prop :=
  ∃ row ∈ s.outbox, row.id = eventId ∧ Selectable maxAttempts row ∧
    (∀ (scan : List OutboxEvent) (limit : Nat), scan.Perm s.outbox →
      scan.countP (fun old => Selectable maxAttempts old ∧ old.createdAt ≤ row.createdAt) ≤ limit →
      eventId ∈ pendingEventIds maxAttempts limit scan) ∧
    ∀ r ids, (s.relays r).pc = .batch (eventId :: ids) → s.locks eventId = none →
      relayStep s r .select = some ((s.lock eventId r).goto r (.locked row ids))

theorem relayStep_select (hk : Rows.Keyed OutboxEvent.id s.outbox) (hmem : row ∈ s.outbox)
    (hunpub : row.published = false) (hpc : (s.relays r).pc = .batch (row.id :: ids))
    (hfree : s.locks row.id = none) :
    relayStep s r .select = some ((s.lock row.id r).goto r (.locked row ids)) := by
  have hfind : s.outbox.find? (fun old => old.id = row.id ∧ old.published = false) = some row := by
    cases hf : s.outbox.find? (fun old => old.id = row.id ∧ old.published = false) with
    | none => simpa [hunpub] using List.find?_eq_none.mp hf row hmem
    | some old =>
      have hold : old.id = row.id ∧ old.published = false := by simpa using List.find?_some hf
      rw [hk.eq_of_mem (List.mem_of_find?_eq_some hf) hmem hold.1]
  simp only [relayStep, hpc, hfree, hfind]

theorem backInPoll_iff (hk : Rows.Keyed OutboxEvent.id s.outbox) (hmem : row ∈ s.outbox) :
    BackInPoll s maxAttempts row.id ↔ Selectable maxAttempts row := by
  constructor
  · rintro ⟨row', hmem', hid, hsel, -⟩
    rwa [← hk.eq_of_mem hmem' hmem hid]
  · refine fun hsel => ⟨row, hmem, rfl, hsel, fun scan limit hscan hlimit => ?_, ?_⟩
    · exact mem_pendingEventIds (hscan.mem_iff.mpr hmem) hsel hlimit
    · exact fun r ids hpc hfree => relayStep_select hk hmem hsel.1 hpc hfree

theorem step_clearFailedAt (h : step s (.clearFailedAt key) = some s') :
    s' = s.write key ({ · with failedAt := none }) := by
  cases step_cases h
  rfl

theorem clearFailedAt_ok {s : State} (hfree : s.locks key = none) :
    machine.step s (.clearFailedAt key) = some (s.write key ({ · with failedAt := none })) := by
  simp [machine, step, hfree]

/-- Clearing `failed_at` brings a row back, parked or not, just when it is
unpublished with fewer failures on record than the limit. -/
theorem backInPoll_cleared_iff (h : machine.Reaches Machine.anyStep .empty s)
    (hmem : row ∈ s.outbox) (hs : machine.step s (.clearFailedAt row.id) = some s')
    (maxAttempts : Nat) :
    BackInPoll s' maxAttempts row.id ↔
      row.published = false ∧ s.recorded row.id < maxAttempts := by
  have ht := tracked_of_reaches h
  obtain rfl := step_clearFailedAt hs
  have hk : Rows.Keyed OutboxEvent.id (s.write row.id ({ · with failedAt := none })).outbox :=
    ht.keyed.update fun _ => rfl
  have hcleared : { row with failedAt := none } ∈
      (s.write row.id ({ · with failedAt := none })).outbox := Rows.mem_update_of_eq hmem rfl
  rw [← ht.attempts row hmem]
  exact (backInPoll_iff hk hcleared).trans ⟨fun hsel => ⟨hsel.1, hsel.2.2⟩, fun hsel => ⟨hsel.1, rfl, hsel.2⟩⟩

/-- One order, committed with outbox row 2. -/
def placeOrder : List Action :=
  [.post 0 false ⟨1⟩ placedAt keyboardOrder, .flush 0 ⟨2⟩ placedAt, .commitOrder 0]

/-- A poll of relay 0 that fails on row 2. -/
def failingPoll (exc : Exc) : List Action :=
  [.relay 0 (.poll [⟨2⟩]), .relay 0 .select, .relay 0 (.publish (.refused exc)), .relay 0 .record,
    .relay 0 (.commit .done placedAt)]

theorem backInPoll_cleared_iff_permanent :
    ∃ s s' row, machine.Reaches Machine.anyStep .empty s ∧ row ∈ s.outbox ∧ row.failedAt ≠ none ∧
      machine.step s (.clearFailedAt row.id) = some s' ∧ BackInPoll s' 2 row.id := by
  obtain ⟨s, hs, row, hrow, hparked, hunpub, htried, hfree⟩ :=
    machine.exists_reaches (C := Machine.anyStep) (s := .empty)
      (placeOrder ++ .relay 0 (.start ⟨10, 2, false⟩) :: failingPoll invalidParameter)
      (fun s => ∃ row ∈ s.outbox, row.failedAt ≠ none ∧ row.published = false ∧
        s.recorded row.id < 2 ∧ s.locks row.id = none) (by decide)
  have hclear := clearFailedAt_ok hfree
  exact ⟨s, _, row, hs, hrow, hparked, hclear,
    (backInPoll_cleared_iff hs hrow hclear 2).mpr ⟨hunpub, htried⟩⟩

/-- Parked when its second attempt failed under a limit of two, a row stays out
of the poll when `failed_at` is cleared. -/
theorem not_backInPoll_exhausted :
    ¬ ∀ s s' row r, machine.Reaches Machine.anyStep .empty s → row ∈ s.outbox →
      row.failedAt ≠ none → machine.step s (.clearFailedAt row.id) = some s' →
      (s.relays r).running = true → BackInPoll s' (s.relays r).config.maxAttempts row.id := by
  intro hclaim
  obtain ⟨s, hs, ⟨row, hrow, hparked, htried, hfree⟩, hrun, hlimit⟩ :=
    machine.exists_reaches (C := Machine.anyStep) (s := .empty)
      (placeOrder ++ .relay 0 (.start ⟨10, 2, false⟩) ::
        (failingPoll connectTimeout ++ failingPoll connectTimeout))
      (fun s => (∃ row ∈ s.outbox, row.failedAt ≠ none ∧ row.attempts = 2 ∧ s.locks row.id = none) ∧
        (s.relays 0).running = true ∧ (s.relays 0).config.maxAttempts = 2) (by decide)
  obtain ⟨row', hmem, hid, hsel, -⟩ :=
    hclaim s _ row 0 hs hrow hparked (clearFailedAt_ok hfree) hrun
  rcases Rows.mem_update.mp hmem with ⟨-, hne⟩ | ⟨old, hold, hk, rfl⟩
  · exact hne hid
  · obtain rfl := (tracked_of_reaches hs).keyed.eq_of_mem hold hrow hk
    have hlt := hsel.2.2
    rw [hlimit] at hlt
    exact absurd htried (Nat.ne_of_lt hlt)

-- ---------------------------------------------------------------------------
-- Parked rows and stale batches
-- ---------------------------------------------------------------------------

/-- The row a relay is about to hand to SNS. -/
def State.publishing (s : State) : Action → Option UUID
  | .relay r (.publish _) =>
    match (s.relays r).pc with
    | .locked event _ => some event.id
    | _ => none
  | _ => none

/-- The step neither publishes a parked row nor marks it. -/
def ParkingBinds (s : State) (action : Action) (s' : State) : Prop :=
  ∀ row ∈ s.outbox, row.failedAt ≠ none → s.publishing action ≠ some row.id ∧
    ∀ row' ∈ s'.outbox, row'.id = row.id → row'.published = row.published

instance : Decidable (ParkingBinds s action s') := by unfold ParkingBinds; infer_instance

/-- The id that the SELECT of `relay_one` is about to ask for. -/
def State.selecting (s : State) : Action → Option UUID
  | .relay r .select =>
    match (s.relays r).pc with
    | .batch (eventId :: _) => some eventId
    | _ => none
  | _ => none

/-- `relay_one` locks no row that a transaction has parked: the id its SELECT
asks for is not that of an unlocked, unpublished row with `failed_at` set. -/
def LocksUnparked (s : State) (action : Action) : Prop :=
  ∀ eventId ∈ s.selecting action, ∀ row ∈ s.outbox, row.id = eventId → s.locks eventId = none →
    row.published = false → row.failedAt = none

instance : DecidablePred (LocksUnparked s) := fun _ => by
  unfold LocksUnparked; infer_instance

/-- A row `relay_one` works on is not parked. -/
def HeldUnparked (s : State) : Prop :=
  ∀ r event, (s.relays r).pc.event? = some event → event.failedAt = none

theorem State.Initial.heldUnparked (h : State.Initial s) : HeldUnparked s := by
  intro r event he
  simp [h.relays, RelayPc.event?] at he

theorem RelayStep.heldUnparked (h : HeldUnparked s) (hc : LocksUnparked s (.relay r action))
    (hs : RelayStep s r action s') : HeldUnparked s' := by
  intro r' event he
  by_cases hr : r' = r
  · subst hr
    cases hs with
    | lock hpc hfree hmem hunpub =>
      obtain rfl : _ = event := by simpa [RelayPc.event?] using he
      exact hc _ (by simp [State.selecting, hpc]) _ hmem rfl hfree hunpub
    | accepted hpc =>
      obtain rfl : _ = event := by simpa [RelayPc.event?] using he
      exact h r' _ (by rw [hpc]; rfl)
    | kill =>
      simp [State.kill_pc, RelayPc.event?] at he
    | recorded hpc hout =>
      rcases recorded_pc hout with rfl | rfl <;> simp [RelayPc.event?] at he
    | _ => simp [RelayPc.event?] at he
  · rw [hs.others hr] at he
    exact h r' event he

theorem HeldUnparked.step (h : HeldUnparked s) (hc : LocksUnparked s action)
    (hs : Step s action s') : HeldUnparked s' := by
  cases hs with
  | relay hr => exact hr.heldUnparked h hc
  | _ => exact h

theorem HeldUnparked.binds (h : HeldUnparked s) (hi : Inv s) (hs : Step s action s') :
    ParkingBinds s action s' := by
  have hheld : ∀ r event row, (s.relays r).pc.event? = some event → row ∈ s.outbox →
      event.id = row.id → row.failedAt = none := by
    intro r event row he hmem hid
    rw [← hi.keyed.eq_of_mem (hi.held r event he).1 hmem hid]
    exact h r event he
  refine fun row hmem hparked => ⟨?_, fun row' hmem' hid => ?_⟩
  · intro hpub
    unfold State.publishing at hpub
    split at hpub
    next r answer =>
      split at hpub
      next event ids hpc =>
        exact hparked (hheld r event row (by rw [hpc]; rfl) hmem (Option.some.inj hpub))
      next => cases hpub
    next => cases hpub
  · cases hs.write.rowWrite hi.keyed hmem hmem' hid with
    | same | clear => rfl
    | mark hpc hkey => exact absurd (hheld _ _ row (by rw [hpc]; rfl) hmem hkey) hparked
    | record => exact recordedFailure_published

/-- Where no relay locks a parked row, parked rows are neither published nor
marked. -/
theorem parkingBinds_of_reaches (h₀ : s₀.Initial) (h : machine.Reaches LocksUnparked s₀ s)
    (hs : machine.step s action = some s') : ParkingBinds s action s' := by
  refine HeldUnparked.binds ?_ (inv_of_reaches h₀ h) (step_cases hs)
  exact h.invariant h₀.heldUnparked fun _ _ _ hh hc hs => hh.step hc (step_cases hs)

/-- A relay parks a row and ends its poll. -/
theorem parkingBinds_of_reaches_alone :
    ∃ s s', machine.Reaches LocksUnparked (.holding [keyboardRow]) s ∧
      (∃ row ∈ s.outbox, row.failedAt ≠ none) ∧
      machine.step s (.relay 0 .endPoll) = some s' ∧ ParkingBinds s (.relay 0 .endPoll) s' := by
  obtain ⟨s, hs, hparked, hstep⟩ :=
    machine.exists_reaches (C := LocksUnparked) (s := .holding [keyboardRow])
      (.relay 0 (.start ⟨10, 5, false⟩) :: failingPoll invalidParameter)
      (fun s => (∃ row ∈ s.outbox, row.failedAt ≠ none) ∧
        (machine.step s (.relay 0 .endPoll)).isSome = true) (by decide)
  obtain ⟨s', hs'⟩ := Option.isSome_iff_exists.mp hstep
  exact ⟨s, s', hs, hparked, hs',
    parkingBinds_of_reaches (State.holding_initial Rows.keyed_singleton) hs hs'⟩

/-- Two relays read the same batch; one parks the row, the other goes on to
publish it. -/
theorem not_parkingBinds_stale :
    ¬ ∀ s₀ s action s', s₀.Initial → machine.Reaches Machine.anyStep s₀ s →
      machine.step s action = some s' → ParkingBinds s action s' := by
  intro hclaim
  obtain ⟨s, hs, hstep⟩ :=
    machine.exists_reaches (C := Machine.anyStep) (s := .holding [keyboardRow])
      ([.relay 0 (.start ⟨10, 5, false⟩), .relay 1 (.start ⟨10, 5, false⟩), .relay 1 (.poll [⟨2⟩])] ++
        failingPoll invalidParameter ++ [.relay 1 .select])
      (fun s => (machine.step s (.relay 1 (.publish .accepted))).any fun s' =>
        ¬ ParkingBinds s (.relay 1 (.publish .accepted)) s') (by decide)
  obtain ⟨s', hs', hnot⟩ := (Option.any_eq_true ..).mp hstep
  exact of_decide_eq_true hnot (hclaim _ s _ s' (State.holding_initial Rows.keyed_singleton) hs hs')

-- ---------------------------------------------------------------------------
-- Retried or parked
-- ---------------------------------------------------------------------------

/-- Restarts under limits of at least one, and no operator's edits. -/
def Retuned (_ : State) : Action → Prop
  | .relay _ (.start config) => 1 ≤ config.maxAttempts
  | .clearFailedAt _ => False
  | _ => True

instance : DecidablePred (Retuned s) := fun _ => by unfold Retuned; split <;> infer_instance

/-- The failure whose bookkeeping a relay is about to commit. -/
def RelayPc.recording? : RelayPc → Option (UUID × Exc)
  | .recording id exc _ => some (id, exc)
  | _ => none

/-- What keeps a relay's limit ahead of the rows that are still retried: it
starts with a limit above their attempts, and while it runs no relay records a
failure that leaves a row unparked but at this limit. -/
def KeepsAhead (r : RelayId) (s : State) : Action → Prop
  | .relay r' (.start config) => r' = r → 1 ≤ config.maxAttempts ∧
    ∀ row ∈ s.outbox, row.published = false → row.failedAt = none → row.attempts < config.maxAttempts
  | .relay r' (.commit _ _) => (s.relays r).running = true → ∀ failure ∈ (s.relays r').pc.recording?,
    ∀ row ∈ s.outbox, row.id = failure.1 → row.published = false → row.failedAt = none →
      isPermanent failure.2 = false → row.attempts + 1 < (s.relays r').config.maxAttempts →
      row.attempts + 1 < (s.relays r).config.maxAttempts
  | .clearFailedAt _ => False
  | _ => True

instance : DecidablePred (KeepsAhead r s) := fun _ => by unfold KeepsAhead; split <;> infer_instance

theorem RelayStep.running (hs : RelayStep s r action s') (hrun : (s'.relays r).running = true) :
    (∃ config, action = .start config ∧ (s'.relays r).config = config) ∨
      (s.relays r).running = true ∧ (s'.relays r).config = (s.relays r).config := by
  cases hs with
  | start => exact .inl ⟨_, rfl, by simp⟩
  | kill =>
    simp [State.kill_pc, RelayProcess.running] at hrun
  | poll hpc | endPoll hpc | lock hpc | skip hpc | selectFails hpc | skipDone hpc | skipFails hpc
  | accepted hpc | refused hpc | lostAck hpc | mark hpc | markRefused hpc | markLost hpc
  | record hpc | recordMissing hpc | recordFails hpc | recorded hpc | recordRefused hpc =>
    exact .inr ⟨by simp [RelayProcess.running, hpc], by simp⟩

theorem Step.running (hs : Step s action s') (hrun : (s'.relays r).running = true) :
    (∃ config, action = .relay r (.start config) ∧ (s'.relays r).config = config) ∨
      (s.relays r).running = true ∧ (s'.relays r).config = (s.relays r).config := by
  cases hs with
  | @relay r' action s' hr =>
    by_cases hne : r = r'
    · subst hne
      rcases hr.running hrun with ⟨config, rfl, hconfig⟩ | hsame
      · exact .inl ⟨config, rfl, hconfig⟩
      · exact .inr hsame
    · rw [hr.others hne] at hrun ⊢
      exact .inr ⟨hrun, rfl⟩
  | _ => exact .inr ⟨hrun, rfl⟩

/-- What a running relay's limit is to be: above the attempts of every row that
is still retried. -/
def Ahead (r : RelayId) (s : State) : Prop :=
  (s.relays r).running = true → 1 ≤ (s.relays r).config.maxAttempts ∧
    ∀ row ∈ s.outbox, row.published = false → row.failedAt = none →
      row.attempts < (s.relays r).config.maxAttempts

theorem Ahead.step (h : Ahead r s) (hi : Inv s) (hr : RequestsOk s) (hc : KeepsAhead r s action)
    (hs : Step s action s') : Ahead r s' := by
  intro hrun
  rcases hs.running hrun with ⟨config, rfl, hconfig⟩ | ⟨hrun', hconfig⟩
  · have hout : s'.outbox = s.outbox := by
      cases hs with
      | relay hr => cases hr; rfl
    rw [hconfig, hout]
    exact hc rfl
  · obtain ⟨hpos, hrows⟩ := h hrun'
    rw [hconfig]
    refine ⟨hpos, fun row' hmem' hunpub hunparked => ?_⟩
    rcases hs.write.origin hi.keyed hr hmem' with ⟨row, hmem, hrow⟩ | ⟨hfresh, -⟩
    · cases hrow with
      | same => exact hrows row' hmem hunpub hunparked
      | mark => cases hunpub
      | record hpc =>
        obtain ⟨hold, hperm, hlt⟩ := recordedFailure_failedAt.mp hunparked
        rw [recordedFailure_attempts]
        rw [recordedFailure_published] at hunpub
        exact hc hrun' (row.id, _) (by rw [hpc]; rfl) row hmem rfl hunpub hold hperm hlt
      | clear => exact hc.elim
    · rw [hfresh.attempts]
      exact hpos

/-- Where a running relay's limit is kept ahead, every unpublished row is
selected by it or parked. -/
theorem selectable_or_parked (h₀ : s₀.Initial) (h : machine.Reaches (KeepsAhead r) s₀ s)
    (hrun : (s.relays r).running = true) :
    ∀ row ∈ s.outbox, row.published = false →
      Selectable (s.relays r).config.maxAttempts row ∨ row.failedAt ≠ none := by
  have hahead : Inv s ∧ RequestsOk s ∧ Ahead r s := by
    refine h.invariant (I := fun s => Inv s ∧ RequestsOk s ∧ Ahead r s)
      ⟨h₀.inv, h₀.requestsOk, fun hrun => ?_⟩ ?_
    · simp [RelayProcess.running, h₀.relays] at hrun
    · rintro t action u ⟨hi, hr, ha⟩ hc hs
      have hs := step_cases hs
      exact ⟨hi.step hs, hr.step hs, ha.step hi hr hc hs⟩
  intro row hmem hunpub
  cases hparked : row.failedAt with
  | none => exact .inl ⟨hunpub, hparked, (hahead.2.2 hrun).2 row hmem hunpub hparked⟩
  | some time => exact .inr nofun

/-- A relay restarts under a raised limit; the row it failed on once is still
selected. -/
theorem selectable_or_parked_raised :
    ∃ s, machine.Reaches (KeepsAhead 0) .empty s ∧ (∃ row ∈ s.outbox, row.attempts = 1) ∧
      ∀ row ∈ s.outbox, row.published = false → Selectable 3 row ∨ row.failedAt ≠ none := by
  obtain ⟨s, hs, hrow, hrun, hlimit⟩ :=
    machine.exists_reaches (C := KeepsAhead 0) (s := .empty)
      (placeOrder ++ .relay 0 (.start ⟨10, 2, false⟩) :: failingPoll connectTimeout ++
        [.relay 0 .kill, .relay 0 (.start ⟨10, 3, false⟩)])
      (fun s => (∃ row ∈ s.outbox, row.attempts = 1) ∧ (s.relays 0).running = true ∧
        (s.relays 0).config.maxAttempts = 3) (by decide)
  have hall := selectable_or_parked State.empty_initial hs hrun
  rw [hlimit] at hall
  exact ⟨s, hs, hrow, hall⟩

/-- A relay restarts under a lowered limit: the row it failed on once is
neither selected nor parked. -/
theorem not_selectable_or_parked_lowered :
    ¬ ∀ s r, machine.Reaches Retuned .empty s → (s.relays r).running = true →
      ∀ row ∈ s.outbox, row.published = false →
        Selectable (s.relays r).config.maxAttempts row ∨ row.failedAt ≠ none := by
  intro hclaim
  obtain ⟨s, hs, hrun, row, hmem, hunpub, hnot⟩ :=
    machine.exists_reaches (C := Retuned) (s := .empty)
      (placeOrder ++ .relay 0 (.start ⟨10, 2, false⟩) :: failingPoll connectTimeout ++
        [.relay 0 .kill, .relay 0 (.start ⟨10, 1, false⟩)])
      (fun s => (s.relays 0).running = true ∧ ∃ row ∈ s.outbox, row.published = false ∧
        ¬ (Selectable (s.relays 0).config.maxAttempts row ∨ row.failedAt ≠ none)) (by decide)
  exact hnot (hclaim s 0 hs hrun row hmem hunpub)

end OutboxFanout.Outbox
