import OutboxFanout.Relay.Pending

/-!
# A relay is asked to stop

`relay/main.py`: the signal handler sets `_shutdown`, which the loop of `main`
reads before it calls `relay_batch`, and `relay_batch` never does. So a relay
that is in a batch when the signal arrives stops after its row only if the
batch ends there of itself (`stops_iff`).
-/

namespace OutboxFanout.Shutdown

open Outbox Relay

/-- What a relay does for a row. -/
inductive Deed where
  -- relay_one is called
  | started (id : UUID)
  | published (id : UUID)
  | marked (id : UUID)
  deriving DecidableEq, Repr

/-- What a relay has done when it is answered. -/
def deed? : RelayPc → RelayAction → Option Deed
  | .locked event _, .publish .accepted => some (.published event.id)
  | .locked event _, .publish (.lost _) => some (.published event.id)
  | .accepted event _, .commit .done _ => some (.marked event.id)
  | .accepted event _, .commit (.lost _) _ => some (.marked event.id)
  | _, _ => none

/-- A relay that is `calling` has made the call it stands before, which has not
yet been answered: `relay_batch()` at `.idle`, `relay_one(id)` at
`.batch (id :: _)`. `deeds` are those of each relay since its flag was set; no
step reads them. -/
structure State where
  outbox : Outbox.State
  -- _shutdown of each relay
  shutdown : RelayId → Bool
  calling : RelayId → Bool
  deeds : RelayId → List Deed

inductive Action where
  | outbox (action : Outbox.Action)
  -- the loop of main finds the flag clear and calls relay_batch
  | enter (r : RelayId)
  -- the read of pending_event_ids raises, and the loop of main goes on
  | pollFails (r : RelayId)
  -- the loop of relay_batch calls relay_one
  | call (r : RelayId)
  -- SIGTERM or SIGINT
  | signal (r : RelayId)
  -- the loop of main ends
  | exit (r : RelayId)

def State.call (s : State) (r : RelayId) (calling : Bool) : State :=
  { s with calling := Function.update s.calling r calling }

def State.signal (s : State) (r : RelayId) : State :=
  { s with shutdown := Function.update s.shutdown r true }

def State.did (s : State) (r : RelayId) (deed : Option Deed) : State :=
  if s.shutdown r then
    { s with deeds := Function.update s.deeds r (deed.toList ++ s.deeds r) }
  else s

/-- A new process has a new event. -/
def State.renew (s : State) : Outbox.Action → State
  | .relay r (.start _) =>
    { s with
      shutdown := Function.update s.shutdown r false
      calling := Function.update s.calling r false
      deeds := Function.update s.deeds r [] }
  | .relay r action => (s.did r (deed? (s.outbox.relays r).pc action)).call r false
  | _ => s

/-- Only a call that was made is answered. -/
def Asked (calling : Bool) : RelayAction → Prop
  | .poll _ | .select | .selectFails _ => calling = true
  | _ => True

instance : DecidablePred (Asked calling)
  | .poll _ | .select | .selectFails _ => inferInstanceAs (Decidable (calling = true))
  | .start _ | .kill | .endPoll | .publish _ | .commit _ _ | .record | .recordFails _ => .isTrue trivial

def State.Asked (s : State) : Outbox.Action → Prop
  | .relay r action => Shutdown.Asked (s.calling r) action
  | _ => True

instance {s : State} : DecidablePred s.Asked
  | .relay r action => inferInstanceAs (Decidable (Shutdown.Asked (s.calling r) action))
  | .post _ _ _ _ _ | .flush _ _ _ | .commitOrder _ | .abort _ | .clearFailedAt _ => .isTrue trivial

def step (s : State) : Action → Option State
  | .outbox action =>
    if s.Asked action then
      (Outbox.step s.outbox action).map fun outbox => { s.renew action with outbox }
    else none
  | .enter r =>
    match (s.outbox.relays r).pc with
    -- while not _shutdown.is_set()
    | .idle => if s.shutdown r = false ∧ s.calling r = false then some (s.call r true) else none
    | _ => none
  | .pollFails r =>
    match (s.outbox.relays r).pc with
    | .idle => if s.calling r then some (s.call r false) else none
    | _ => none
  | .call r =>
    match (s.outbox.relays r).pc with
    | .batch (id :: _) =>
      if s.calling r then none else some ((s.did r (some (.started id))).call r true)
    | _ => none
  | .signal r => if (s.outbox.relays r).running then some (s.signal r) else none
  | .exit r =>
    match (s.outbox.relays r).pc with
    | .idle =>
      if s.shutdown r = true ∧ s.calling r = false then
        some { s with outbox := s.outbox.goto r .down }
      else none
    | _ => none

def machine : Machine State Action := ⟨step⟩

def State.of (outbox : Outbox.State) : State := ⟨outbox, fun _ => false, fun _ => false, fun _ => []⟩

-- ---------------------------------------------------------------------------
-- The row in work and what comes after it
-- ---------------------------------------------------------------------------

/-- The row a relay is working on. -/
def row? (calling : Bool) : RelayPc → Option UUID
  | .batch (id :: _) => if calling then some id else none
  | .skipped id _ | .failed id _ _ | .recording id _ _ => some id
  | .locked event _ | .accepted event _ => some event.id
  | .down | .idle | .batch [] => none

def State.row? (s : State) (r : RelayId) : Option UUID :=
  Shutdown.row? (s.calling r) (s.outbox.relays r).pc

/-- The relay comes to no further row: there is none, or the row in work has
failed transiently, or the process is about to crash. -/
def Last (s : Outbox.State) (r : RelayId) (calling : Bool) : Prop :=
  match (s.relays r).pc with
  | .down | .batch [] => True
  | .idle => calling = true → Barren (s.relays r).config s
  | .batch (_ :: ids) => calling = true ∧ ids = []
  | .skipped _ ids | .locked _ ids => ids = []
  | .accepted _ ids => ids = [] ∨ (s.relays r).config.crashAfterPublish = true
  | .failed _ exc ids | .recording _ exc ids => ids = [] ∨ isPermanent exc = false

/-- No row was started, and what was published or marked is this row. -/
def Deed.Of (row : Option UUID) : Deed → Prop
  | .started _ => False
  | .published id | .marked id => row = some id

def RelayAction.Continues : RelayAction → Prop
  | .start _ => False
  | _ => True

section
variable {s s' : Outbox.State} {config : Config}

/-- A relay that comes to no further row goes on that way. -/
theorem last_relayStep (hs : RelayStep s r action s') (hcont : RelayAction.Continues action)
    (hasked : Asked calling action) (h : Last s r calling) : Last s' r false := by
  unfold Last at h
  cases hs with
  | start => cases hcont
  | kill => simp [Last, State.kill_pc]
  | endPoll | recordMissing | recordFails | recordRefused => simp [Last]
  | @poll scan hpc hscan =>
    rw [hpc] at h
    have hrows : ∀ row ∈ scan.filterMap fun id => s.outbox.find? (·.id = id), row ∈ s.outbox := by
      intro row hrow
      obtain ⟨id, -, hfind⟩ := List.mem_filterMap.mp hrow
      exact List.mem_of_find?_eq_some hfind
    simp [Last, (h hasked).poll hrows]
  | lock hpc | skip hpc | selectFails hpc =>
    rw [hpc] at h
    simp [Last, h.2]
  | skipDone hpc =>
    obtain rfl : _ = [] := by simpa [hpc] using h
    simp [Last]
  | @skipFails _ ids _ _ _ hpc | @accepted _ ids hpc | @refused _ ids _ hpc | @lostAck _ ids _ hpc =>
    have hids : ids = [] := by simpa [hpc] using h
    simp [Last, hids]
  | record hpc => simpa [Last, hpc] using h
  | @mark _ ids _ hpc hcrash | @markRefused _ ids _ _ hpc hcrash | @markLost _ ids _ _ hpc hcrash =>
    have hids : ids = [] := by simpa [hpc, hcrash] using h
    simp [Last, hids]
  | @recorded _ _ ids _ _ _ hpc hout =>
    rw [hpc] at h
    rcases hout with ⟨-, rfl⟩ | ⟨-, rfl⟩
    · split
      next hpermanent =>
        obtain rfl : ids = [] := by simpa [hpermanent] using h
        simp [Last]
      next => simp [Last]
    · simp [Last]

/-- Between two rows no row is in work. -/
@[simp] theorem row?_batch {ids : List UUID} : row? false (.batch ids) = none := by
  cases ids <;> simp [row?]

theorem row_relayStep (hs : RelayStep s r action s') (hcont : RelayAction.Continues action)
    (hasked : Asked calling action) (hrow : row? false (s'.relays r).pc = some eventId) :
    row? calling (s.relays r).pc = some eventId := by
  cases hs with
  | start => cases hcont
  | kill => simp [State.kill_pc, row?] at hrow
  | lock hpc | skip hpc | selectFails hpc =>
    obtain rfl : calling = true := hasked
    simpa [row?, hpc] using hrow
  | recorded hpc hout =>
    rcases recorded_pc hout with rfl | rfl
    · simp at hrow
    · simp [row?] at hrow
  | poll | skipDone | mark => simp at hrow
  | endPoll | recordMissing | recordFails | recordRefused => simp [row?] at hrow
  | skipFails hpc | accepted hpc | refused hpc | lostAck hpc | markRefused hpc | markLost hpc
  | record hpc => simpa [row?, hpc] using hrow

theorem deed_of_row (hdeed : deed? pc action = some deed) : deed.Of (row? calling pc) := by
  unfold deed? at hdeed
  split at hdeed <;> cases hdeed <;> rfl

end

-- ---------------------------------------------------------------------------
-- Every step
-- ---------------------------------------------------------------------------

inductive Step (s : State) : Action → State → Prop
  | outbox (hs : Outbox.Step s.outbox action outbox) (hasked : s.Asked action) :
    Step s (.outbox action) { s.renew action with outbox }
  | enter (hpc : (s.outbox.relays r).pc = .idle) (hflag : s.shutdown r = false) :
    Step s (.enter r) (s.call r true)
  | pollFails (hpc : (s.outbox.relays r).pc = .idle) : Step s (.pollFails r) (s.call r false)
  | call (hpc : (s.outbox.relays r).pc = .batch (eventId :: ids)) (hcalling : s.calling r = false) :
    Step s (.call r) ((s.did r (some (.started eventId))).call r true)
  | signal : Step s (.signal r) (s.signal r)
  | exit (hpc : (s.outbox.relays r).pc = .idle) :
    Step s (.exit r) { s with outbox := s.outbox.goto r .down }

theorem step_cases {s s' : State} (h : step s action = some s') : Step s action s' := by
  unfold step at h
  split at h
  next =>
    split at h
    next hasked =>
      obtain ⟨outbox, hs, rfl⟩ := Option.map_eq_some_iff.mp h
      exact .outbox (Outbox.step_cases hs) hasked
    next => cases h
  next =>
    split at h
    next hpc =>
      split at h
      next hclear => cases h; exact .enter hpc hclear.1
      next => cases h
    next => cases h
  next =>
    split at h
    next hpc =>
      split at h
      · cases h; exact .pollFails hpc
      · cases h
    next => cases h
  next r =>
    split at h
    next hpc =>
      cases hcalling : s.calling r with
      | true => simp [hcalling] at h
      | false =>
        obtain rfl := Option.some.inj (by simpa [hcalling] using h)
        exact .call hpc hcalling
    next => cases h
  next =>
    split at h
    · cases h; exact .signal
    · cases h
  next =>
    split at h
    next hpc =>
      split at h
      · cases h; exact .exit hpc
      · cases h
    next => cases h

/-- The process of the relay is not replaced by a new one. -/
def SameProcess (r : RelayId) (_ : State) : Action → Prop
  | .outbox (.relay r' (.start _)) => r' ≠ r
  | _ => True

instance : ∀ s, DecidablePred (SameProcess r s) := fun _ action => by
  unfold SameProcess
  split <;> infer_instance

/-- The end of the loop is a kill that finds nothing to undo. -/
theorem exit_kill {s : Outbox.State} (h : (s.relays r).pc = .idle) :
    Outbox.Step s (.relay r .kill) (s.goto r .down) := by
  have heq : s.kill r = s.goto r .down := by simp [Outbox.State.kill, h]
  exact heq ▸ .relay .kill

section
variable {s s' : State}

@[simp] theorem call_outbox : (s.call r calling).outbox = s.outbox := rfl

@[simp] theorem call_shutdown : (s.call r calling).shutdown = s.shutdown := rfl

@[simp] theorem call_deeds : (s.call r calling).deeds = s.deeds := rfl

@[simp] theorem call_calling : (s.call r calling).calling r = calling := by simp [State.call]

theorem call_calling_of_ne (h : r' ≠ r) : (s.call r calling).calling r' = s.calling r' := by
  simp [State.call, h]

@[simp] theorem did_outbox : (s.did r deed).outbox = s.outbox := by
  unfold State.did
  split <;> rfl

@[simp] theorem did_shutdown : (s.did r deed).shutdown = s.shutdown := by
  unfold State.did
  split <;> rfl

@[simp] theorem did_calling : (s.did r deed).calling = s.calling := by
  unfold State.did
  split <;> rfl

theorem did_deeds (h : s.shutdown r = true) : (s.did r deed).deeds r = deed.toList ++ s.deeds r := by
  simp [State.did, h]

theorem did_deeds_of_clear (h : s.shutdown r = false) : (s.did r deed).deeds = s.deeds := by
  simp [State.did, h]

theorem did_deeds_of_ne (h : r' ≠ r) : (s.did r deed).deeds r' = s.deeds r' := by
  unfold State.did
  split
  · simp [h]
  · rfl

theorem renew_relay (hcont : RelayAction.Continues action) :
    s.renew (.relay r action) = (s.did r (deed? (s.outbox.relays r).pc action)).call r false := by
  cases action with
  | start => cases hcont
  | _ => rfl

/-- What a step not of the relay leaves. -/
theorem renew_apart (h : Apart r action) : (s.renew action).shutdown r = s.shutdown r ∧
    (s.renew action).calling r = s.calling r ∧ (s.renew action).deeds r = s.deeds r := by
  cases action with
  | relay r' action =>
    have hne : r ≠ r' := (h r' action rfl).symm
    cases action with
    | start => simp [State.renew, hne]
    | _ => simp [State.renew, call_calling_of_ne hne, did_deeds_of_ne hne]
  | _ => exact ⟨rfl, rfl, rfl⟩

end

structure Inv (s : State) : Prop where
  locking : Outbox.Inv s.outbox
  known : Known s.outbox
  deeds : ∀ r, s.shutdown r = false → s.deeds r = []

section
variable {s s' : State}

theorem deeds_renew (h : ∀ r, s.shutdown r = false → s.deeds r = []) (action : Outbox.Action)
    (r : RelayId) (hflag : (s.renew action).shutdown r = false) : (s.renew action).deeds r = [] := by
  rcases apart_or r action with hapart | ⟨action, rfl⟩
  · obtain ⟨hshutdown, -, hdeeds⟩ := renew_apart hapart
    rw [hdeeds]
    exact h r (hshutdown ▸ hflag)
  · cases action with
    | start => simp [State.renew]
    | _ =>
      simp only [State.renew, call_shutdown, did_shutdown] at hflag
      simpa [State.renew, did_deeds_of_clear hflag] using h r hflag

theorem Inv.step (h : Inv s) (hs : Step s action s') : Inv s' := by
  cases hs with
  | outbox hs => exact ⟨h.locking.step hs, h.known.step hs, deeds_renew h.deeds _⟩
  | enter | pollFails => exact ⟨h.locking, h.known, h.deeds⟩
  | @call r =>
    refine ⟨by simpa using h.locking, by simpa using h.known, fun r' hflag => ?_⟩
    rw [call_shutdown, did_shutdown] at hflag
    rw [call_deeds]
    by_cases hr : r' = r
    · subst hr
      rw [did_deeds_of_clear hflag]
      exact h.deeds r' hflag
    · rw [did_deeds_of_ne hr]
      exact h.deeds r' hflag
  | @signal r =>
    refine ⟨h.locking, h.known, fun r' hflag => h.deeds r' ?_⟩
    by_cases hr : r' = r
    · simp [State.signal, hr] at hflag
    · simpa [State.signal, hr] using hflag
  | exit hpc => exact ⟨h.locking.step (exit_kill hpc), h.known.step (exit_kill hpc), h.deeds⟩

theorem inv_of_reaches (h₀ : outbox.Initial) (h : machine.Reaches C (.of outbox) s) : Inv s :=
  h.invariant
    ⟨h₀.inv, fun r key hkey => by simp [State.of, h₀.relays, batchIds] at hkey, fun _ _ => rfl⟩
    fun _ _ _ hi _ hs => hi.step (step_cases hs)

end

-- ---------------------------------------------------------------------------
-- A relay at its last row stops
-- ---------------------------------------------------------------------------

/-- `row` is what the relay worked on when its flag was set. -/
structure Stopping (r : RelayId) (row : Option UUID) (s : State) : Prop where
  flag : s.shutdown r = true
  last : Last s.outbox r (s.calling r)
  working : ∀ id, s.row? r = some id → row = some id
  done : ∀ deed ∈ s.deeds r, deed.Of row

section
variable {s s' : State} {row : Option UUID}

theorem Deed.Of.trans {deed : Deed} (h : deed.Of row) (hrow : ∀ id, row = some id → row' = some id) :
    deed.Of row' := by
  cases deed with
  | started id => exact h
  | published id | marked id => exact hrow id h

theorem Last.keep (h : Last outbox r calling) (hi : Outbox.Inv outbox) (hapart : Apart r action)
    (hs : Outbox.Step outbox action outbox') : Last outbox' r calling := by
  have hrelay := hapart.relays hs
  cases hpc : (outbox.relays r).pc with
  | idle =>
    simp only [Last, hrelay, hpc] at h ⊢
    exact fun hcalling => (h hcalling).step hi hs
  | down => simp [Last, hrelay, hpc]
  | batch ids =>
    cases ids with
    | nil => simp [Last, hrelay, hpc]
    | cons => simpa [Last, hrelay, hpc] using h
  | _ => simpa [Last, hrelay, hpc] using h

/-- What is known of the relay has not changed. -/
theorem Stopping.keep (h : Stopping r row s) (hlast : Last s'.outbox r (s.calling r))
    (hrelay : s'.outbox.relays r = s.outbox.relays r) (hflag : s'.shutdown r = s.shutdown r)
    (hcalling : s'.calling r = s.calling r) (hdeeds : s'.deeds r = s.deeds r) : Stopping r row s' :=
  ⟨hflag ▸ h.flag, hcalling ▸ hlast,
    fun id hid => h.working id (by rwa [State.row?, hcalling, hrelay] at hid), hdeeds ▸ h.done⟩

theorem Stopping.relayStep (h : Stopping r row s) (hcont : RelayAction.Continues action)
    (hasked : Asked (s.calling r) action) (hs : RelayStep s.outbox r action outbox) :
    Stopping r row { s.renew (.relay r action) with outbox } := by
  rw [renew_relay hcont]
  have hcalling : ((s.did r (deed? (s.outbox.relays r).pc action)).call r false).calling r = false :=
    call_calling
  refine ⟨?_, ?_, fun key hkey => h.working key ?_, fun deed hdeed => ?_⟩
  · simpa using h.flag
  · rw [call_calling]
    exact last_relayStep hs hcont hasked h.last
  · refine row_relayStep hs hcont hasked ?_
    simpa only [State.row?, hcalling] using hkey
  · simp only [call_deeds] at hdeed
    rw [did_deeds h.flag] at hdeed
    rcases List.mem_append.mp hdeed with hnew | hold
    · exact (deed_of_row (Option.mem_toList.mp hnew)).trans h.working
    · exact h.done deed hold

theorem Stopping.step (h : Stopping r row s) (hi : Inv s) (hc : SameProcess r s action)
    (hs : Step s action s') : Stopping r row s' := by
  cases hs with
  | @outbox action outbox hs hasked =>
    rcases apart_or r action with hapart | ⟨action, rfl⟩
    · obtain ⟨hflag, hcalling, hdeeds⟩ := renew_apart hapart
      exact h.keep (h.last.keep hi.locking hapart hs) (hapart.relays hs) hflag hcalling hdeeds
    · cases hs with
      | relay hs =>
        refine h.relayStep ?_ hasked hs
        cases action with
        | start => exact hc rfl
        | _ => trivial
  | @enter r' hpc hclear =>
    have hr : r ≠ r' := by
      rintro rfl
      simp [h.flag] at hclear
    exact h.keep h.last rfl rfl (call_calling_of_ne hr) rfl
  | @pollFails r' hpc =>
    by_cases hr : r = r'
    · subst hr
      exact ⟨h.flag, by simp [Last, hpc], by simp [State.row?, row?, hpc], h.done⟩
    · exact h.keep h.last rfl rfl (call_calling_of_ne hr) rfl
  | @call r' eventId ids hpc hcalling =>
    have hr : r ≠ r' := by
      rintro rfl
      simpa [Last, hpc, hcalling] using h.last
    exact h.keep (by simpa using h.last) (by simp) (by simp) (by simp [call_calling_of_ne hr])
      (by simp [did_deeds_of_ne hr])
  | @signal r' =>
    refine ⟨?_, h.last, h.working, h.done⟩
    by_cases hr : r = r'
    · simp [State.signal, hr]
    · simpa [State.signal, hr] using h.flag
  | @exit r' hpc =>
    by_cases hr : r = r'
    · subst hr
      exact ⟨h.flag, by simp [Last], by simp [State.row?, row?], h.done⟩
    · have hlast := h.last.keep hi.locking (.relay hr) (exit_kill hpc)
      exact h.keep hlast (State.goto_of_ne hr) rfl rfl rfl

end

-- ---------------------------------------------------------------------------
-- A relay that has rows left goes on with them
-- ---------------------------------------------------------------------------

/-- From `s` the relay `r`, its flag set, can get to where the other relays and
the table are as in `outbox`. -/
def CanReach (r : RelayId) (s : State) (outbox : Outbox.State) (calling : Bool) : Prop :=
  ∃ t, machine.Reaches (SameProcess r) s t ∧ t.shutdown r = true ∧ t.outbox = outbox ∧
    t.calling r = calling

section
variable {s : State} {outbox outbox' : Outbox.State}

theorem CanReach.refl (h : s.shutdown r = true) : CanReach r s s.outbox (s.calling r) :=
  ⟨s, .refl, h, rfl, rfl⟩

theorem CanReach.relay (h : CanReach r s outbox calling) (action : RelayAction)
    (hcont : RelayAction.Continues action) (hasked : Asked calling action)
    (hs : Outbox.relayStep outbox r action = some outbox') : CanReach r s outbox' false := by
  obtain ⟨t, ht, hflag, rfl, rfl⟩ := h
  have hsame : SameProcess r t (.outbox (.relay r action)) := by
    cases action with
    | start => cases hcont
    | _ => trivial
  have hstep : machine.step t (.outbox (.relay r action)) =
      some { t.renew (.relay r action) with outbox := outbox' } := by
    simp [machine, step, State.Asked, hasked, Outbox.step, hs]
  refine ⟨_, .next _ ht hsame hstep, ?_, rfl, ?_⟩ <;> simp [renew_relay hcont, hflag]

/-- … and meanwhile the others. -/
theorem CanReach.others (h : CanReach r s outbox calling)
    (hrun : Outbox.machine.Reaches (fun _ => Outside r) outbox outbox') :
    CanReach r s outbox' calling := by
  induction hrun with
  | refl => exact h
  | @next outbox outbox' action _ hc hs ih =>
    obtain ⟨t, ht, hflag, rfl, rfl⟩ := ih
    have hasked : t.Asked action := by
      cases action with
      | relay r' action =>
        obtain rfl := (hc r' action rfl).2
        trivial
      | _ => trivial
    have hsame : SameProcess r t (.outbox action) := by
      cases action with
      | relay r' action =>
        obtain rfl := (hc r' action rfl).2
        trivial
      | _ => trivial
    have hstep : machine.step t (.outbox action) = some { t.renew action with outbox := outbox' } := by
      replace hs : Outbox.step t.outbox action = some outbox' := hs
      simp [machine, step, hasked, hs]
    obtain ⟨hshutdown, hcalling, -⟩ := renew_apart (s := t) hc.apart
    exact ⟨_, .next _ ht hsame hstep, hshutdown.trans hflag, rfl, hcalling⟩

variable {exc : Exc} {ids : List UUID}

theorem CanReach.of_recording (h : CanReach r s outbox calling)
    (hpc : (outbox.relays r).pc = .recording eventId exc ids) (hpermanent : isPermanent exc = true) :
    ∃ outbox', CanReach r s outbox' false ∧ (outbox'.relays r).pc = .batch ids := by
  have hs : Outbox.relayStep outbox r (.commit .done placedAt) =
      some ((((outbox.write eventId (recordedFailure (outbox.relays r).config.maxAttempts exc
        (isPermanent exc) placedAt)).unlock eventId).note
        (.recorded eventId (isPermanent exc))).goto r (.batch ids)) := by
    simp [Outbox.relayStep, hpc, hpermanent]
  exact ⟨_, h.relay (.commit .done placedAt) trivial trivial hs, State.goto_pc⟩

theorem CanReach.of_failed (h : CanReach r s outbox calling)
    (hpc : (outbox.relays r).pc = .failed eventId exc ids) (hpermanent : isPermanent exc = true)
    (hfree : outbox.locks eventId = none) (hmem : eventId ∈ outbox.outbox.map (·.id)) :
    ∃ outbox', CanReach r s outbox' false ∧ (outbox'.relays r).pc = .batch ids := by
  obtain ⟨row, hrow⟩ : ∃ row, outbox.outbox.find? (·.id = eventId) = some row := by
    obtain ⟨row, hrow, hid⟩ := List.mem_map.mp hmem
    exact Option.isSome_iff_exists.mp (List.find?_isSome.mpr ⟨row, hrow, by simpa using hid⟩)
  have hs : Outbox.relayStep outbox r .record =
      some ((outbox.lock eventId r).goto r (.recording eventId exc ids)) := by
    simp [Outbox.relayStep, hpc, hfree, hrow]
  exact (h.relay .record trivial trivial hs).of_recording State.goto_pc hpermanent

/-- Whoever holds the row's lock may be killed. -/
theorem CanReach.of_failed_locked (h : CanReach r s outbox calling) (hi : Outbox.Inv outbox)
    (hpc : (outbox.relays r).pc = .failed eventId exc ids) (hpermanent : isPermanent exc = true)
    (hmem : eventId ∈ outbox.outbox.map (·.id)) :
    ∃ outbox', CanReach r s outbox' false ∧ (outbox'.relays r).pc = .batch ids := by
  obtain ⟨row, hrow, rfl⟩ := List.mem_map.mp hmem
  have hlock : outbox.locks row.id ≠ some r := fun hlock => by
    have hholds := (hi.locks row.id r).mp hlock
    simp [hpc, RelayPc.holds] at hholds
  obtain ⟨t, hreach, -, hmem', hfree⟩ := exists_eligible hi hrow hlock
  exact (h.others hreach).of_failed (by rw [Outside.relays hreach, hpc]) hpermanent hfree
    (List.mem_map.mpr ⟨_, hmem', rfl⟩)

theorem CanReach.of_skipped (h : CanReach r s outbox calling)
    (hpc : (outbox.relays r).pc = .skipped eventId ids) :
    ∃ outbox', CanReach r s outbox' false ∧ (outbox'.relays r).pc = .batch ids := by
  have hs : Outbox.relayStep outbox r (.commit .done placedAt) = some (outbox.goto r (.batch ids)) := by
    simp [Outbox.relayStep, hpc]
  exact ⟨_, h.relay (.commit .done placedAt) trivial trivial hs, State.goto_pc⟩

/-- SNS may refuse the row for good. -/
theorem CanReach.of_locked (h : CanReach r s outbox calling) (hmem : event ∈ outbox.outbox)
    (hpc : (outbox.relays r).pc = .locked event ids) :
    ∃ outbox', CanReach r s outbox' false ∧ (outbox'.relays r).pc = .batch ids := by
  have hs : Outbox.relayStep outbox r (.publish (.refused invalidParameter)) =
      some ((outbox.unlock event.id).goto r (.failed event.id invalidParameter ids)) := by
    simp [Outbox.relayStep, hpc]
  exact (h.relay (.publish (.refused invalidParameter)) trivial trivial hs).of_failed State.goto_pc
    (by decide) (by simp [State.unlock]) (List.mem_map_of_mem hmem)

theorem CanReach.of_accepted (h : CanReach r s outbox calling)
    (hpc : (outbox.relays r).pc = .accepted event ids)
    (hcrash : (outbox.relays r).config.crashAfterPublish = false) :
    ∃ outbox', CanReach r s outbox' false ∧ (outbox'.relays r).pc = .batch ids := by
  have hs : Outbox.relayStep outbox r (.commit .done placedAt) =
      some (((outbox.write event.id (·.mark placedAt)).unlock event.id).goto r (.batch ids)) := by
    simp [Outbox.relayStep, hpc, hcrash]
  exact ⟨_, h.relay (.commit .done placedAt) trivial trivial hs, State.goto_pc⟩

theorem CanReach.of_called (h : CanReach r s outbox true)
    (hpc : (outbox.relays r).pc = .batch (eventId :: ids)) :
    ∃ outbox', CanReach r s outbox' false ∧ (outbox'.relays r).pc = .batch ids := by
  obtain ⟨outbox', hselect⟩ : ∃ outbox', Outbox.relayStep outbox r .select = some outbox' := by
    simp only [Outbox.relayStep, hpc]
    split <;> exact ⟨_, rfl⟩
  have hnext := h.relay .select trivial rfl hselect
  cases Outbox.relayStep_cases hselect with
  | lock hpc' hfree hmem =>
    obtain ⟨-, rfl⟩ := List.cons.inj (RelayPc.batch.inj (hpc.symm.trans hpc'))
    exact hnext.of_locked hmem State.goto_pc
  | skip hpc' =>
    obtain ⟨-, rfl⟩ := List.cons.inj (RelayPc.batch.inj (hpc.symm.trans hpc'))
    exact hnext.of_skipped State.goto_pc

/-- A relay that is not at its last row comes to the next one. -/
theorem CanReach.exists_batch (h : s.shutdown r = true) (hi : Inv s)
    (hlast : ¬Last s.outbox r (s.calling r)) :
    ∃ outbox eventId ids, CanReach r s outbox false ∧ (outbox.relays r).pc = .batch (eventId :: ids) := by
  have hstart := CanReach.refl h
  have hrest : ∀ {ids}, ids ≠ [] →
      (∃ outbox, CanReach r s outbox false ∧ (outbox.relays r).pc = .batch ids) →
      ∃ outbox eventId ids, CanReach r s outbox false ∧
        (outbox.relays r).pc = .batch (eventId :: ids) := by
    rintro ids hids ⟨outbox, hreach, hpc⟩
    obtain ⟨eventId, ids, rfl⟩ := List.exists_cons_of_ne_nil hids
    exact ⟨outbox, eventId, ids, hreach, hpc⟩
  unfold Last at hlast
  cases hpc : (s.outbox.relays r).pc with
  | down => simp [hpc] at hlast
  | idle =>
    obtain ⟨hcalling, hbarren⟩ : s.calling r = true ∧ ¬Barren (s.outbox.relays r).config s.outbox := by
      simpa [hpc] using hlast
    rw [hcalling] at hstart
    obtain ⟨t, u, scan, eventId, ids, hreach, hpoll, hbatch⟩ := exists_found hi.locking hpc hbarren
    exact ⟨u, eventId, ids, (hstart.others hreach).relay (.poll scan) trivial rfl hpoll, hbatch⟩
  | batch ids =>
    cases ids with
    | nil => simp [hpc] at hlast
    | cons eventId ids =>
      cases hcalling : s.calling r with
      | false => exact ⟨_, eventId, ids, hcalling ▸ hstart, hpc⟩
      | true => exact hrest (by simpa [hpc, hcalling] using hlast) ((hcalling ▸ hstart).of_called hpc)
  | skipped row ids => exact hrest (by simpa [hpc] using hlast) (hstart.of_skipped hpc)
  | locked event ids =>
    have hmem := (hi.locking.held r event (by rw [hpc]; rfl)).1
    exact hrest (by simpa [hpc] using hlast) (hstart.of_locked hmem hpc)
  | accepted event ids =>
    obtain ⟨hids, hcrash⟩ : ids ≠ [] ∧ (s.outbox.relays r).config.crashAfterPublish = false := by
      simpa [hpc] using hlast
    exact hrest hids (hstart.of_accepted hpc hcrash)
  | failed row exc ids =>
    obtain ⟨hids, hpermanent⟩ : ids ≠ [] ∧ isPermanent exc = true := by simpa [hpc] using hlast
    have hmem : row ∈ s.outbox.outbox.map (·.id) := hi.known r row (by simp [hpc, batchIds])
    exact hrest hids (hstart.of_failed_locked hi.locking hpc hpermanent hmem)
  | recording row exc ids =>
    obtain ⟨hids, hpermanent⟩ : ids ≠ [] ∧ isPermanent exc = true := by simpa [hpc] using hlast
    exact hrest hids (hstart.of_recording hpc hpermanent)

end

-- ---------------------------------------------------------------------------
-- When the relay stops after its row
-- ---------------------------------------------------------------------------

theorem reaches_started {s : State} (h : s.shutdown r = true) (hi : Inv s)
    (hlast : ¬Last s.outbox r (s.calling r)) :
    ∃ t eventId, machine.Reaches (SameProcess r) s t ∧ .started eventId ∈ t.deeds r := by
  obtain ⟨_, eventId, ids, ⟨t, ht, hflag, rfl, hcalling⟩, hpc⟩ := CanReach.exists_batch h hi hlast
  have hstep : machine.step t (.call r) = some ((t.did r (some (.started eventId))).call r true) := by
    simp [machine, step, hpc, hcalling]
  refine ⟨_, eventId, .next (.call r) ht trivial hstep, ?_⟩
  rw [call_deeds, did_deeds hflag]
  exact List.mem_cons_self

/-- The signal arrives in `s`. Whatever SNS and the database answer after it,
the relay starts no further row, and publishes and marks none but the row it is
working on, just when that is its last. -/
theorem stops_iff (h₀ : outbox.Initial) (h : machine.Reaches C (.of outbox) s)
    (hflag : s.shutdown r = false) (hs : machine.step s (.signal r) = some s') :
    (∀ t, machine.Reaches (SameProcess r) s' t → ∀ deed ∈ t.deeds r, deed.Of (s.row? r)) ↔
      Last s.outbox r (s.calling r) := by
  have hi := inv_of_reaches h₀ h
  have hstep : Step s (.signal r) s' := step_cases hs
  have hsignal := hi.step hstep
  obtain rfl : s' = s.signal r := by
    cases hstep
    rfl
  have hset : (s.signal r).shutdown r = true := by simp [State.signal]
  constructor
  · intro hstops
    by_contra hlast
    obtain ⟨t, eventId, ht, hdeed⟩ := reaches_started hset hsignal hlast
    exact hstops t ht _ hdeed
  · intro hlast t ht
    have hnone : (s.signal r).deeds r = [] := hi.deeds r hflag
    have hstopping : Stopping r (s.row? r) (s.signal r) :=
      ⟨hset, hlast, fun _ hrow => hrow, fun deed hdeed => by simp [hnone] at hdeed⟩
    have hrun := ht.invariant (I := fun t => Inv t ∧ Stopping r (s.row? r) t) ⟨hsignal, hstopping⟩
      fun _ _ _ hi hc hs => ⟨hi.1.step (step_cases hs), hi.2.step hi.1 hc (step_cases hs)⟩
    exact hrun.2.done

/-- The row in work is all that is left of the batch. -/
theorem last_of_batchIds {s : State} (hrow : s.row? r = some eventId)
    (hids : batchIds (s.outbox.relays r).pc = [eventId]) : Last s.outbox r (s.calling r) := by
  unfold State.row? at hrow
  unfold Last
  cases hpc : (s.outbox.relays r).pc with
  | down | idle => simp [hpc, batchIds] at hids
  | batch ids =>
    obtain rfl : ids = [eventId] := by simpa [hpc, batchIds] using hids
    simpa [row?, hpc] using hrow
  | skipped | locked =>
    obtain ⟨-, rfl⟩ : _ = eventId ∧ _ = [] := by simpa [hpc, batchIds] using hids
    rfl
  | accepted | failed | recording =>
    obtain ⟨-, rfl⟩ : _ = eventId ∧ _ = [] := by simpa [hpc, batchIds] using hids
    exact .inl rfl

/-- One order, committed with outbox row `row`. -/
def place (order row : UUID) : List Action :=
  [.outbox (.post 0 false order placedAt keyboardOrder), .outbox (.flush 0 row placedAt),
    .outbox (.commitOrder 0)]

/-- Relay 0 starts, polls these rows and locks the first. -/
def poll (scan : List UUID) : List Action :=
  [.outbox (.relay 0 (.start ⟨10, 5, false⟩)), .enter 0, .outbox (.relay 0 (.poll scan)), .call 0,
    .outbox (.relay 0 .select)]

/-- The relay has locked the only row when the signal arrives. -/
theorem stops_alone : ∃ s s', machine.Reaches Machine.anyStep (.of .empty) s ∧
    machine.step s (.signal 0) = some s' ∧ s.row? 0 = some ⟨2⟩ ∧
    ∀ t, machine.Reaches (SameProcess 0) s' t → ∀ deed ∈ t.deeds 0, deed.Of (some ⟨2⟩) := by
  obtain ⟨s, hs, hflag, hrunning, hrow, hids⟩ :=
    machine.exists_reaches (C := Machine.anyStep) (s := .of .empty) (place ⟨1⟩ ⟨2⟩ ++ poll [⟨2⟩])
      (fun s => s.shutdown 0 = false ∧ (s.outbox.relays 0).running = true ∧ s.row? 0 = some ⟨2⟩ ∧
        batchIds (s.outbox.relays 0).pc = [⟨2⟩]) (by decide)
  have hsignal : machine.step s (.signal 0) = some (s.signal 0) := if_pos hrunning
  exact ⟨s, _, hs, hsignal, hrow,
    hrow ▸ (stops_iff State.empty_initial hs hflag hsignal).mpr (last_of_batchIds hrow hids)⟩

/-- A second row waits in the batch, and SNS accepts both. -/
theorem not_stops_backlog : ∃ s s' t, machine.Reaches Machine.anyStep (.of .empty) s ∧
    s.row? 0 = some ⟨2⟩ ∧ machine.step s (.signal 0) = some s' ∧
    machine.Reaches (SameProcess 0) s' t ∧
    .started ⟨4⟩ ∈ t.deeds 0 ∧ .published ⟨4⟩ ∈ t.deeds 0 ∧ .marked ⟨4⟩ ∈ t.deeds 0 := by
  obtain ⟨s, hs, hrunning, hrow, hgoes⟩ :=
    machine.exists_reaches (C := Machine.anyStep) (s := .of .empty)
      (place ⟨1⟩ ⟨2⟩ ++ place ⟨3⟩ ⟨4⟩ ++ poll [⟨2⟩, ⟨4⟩])
      (fun s => (s.outbox.relays 0).running = true ∧ s.row? 0 = some ⟨2⟩ ∧
        (machine.exec (SameProcess 0) (s.signal 0) [.outbox (.relay 0 (.publish .accepted)),
          .outbox (.relay 0 (.commit .done placedAt)), .call 0, .outbox (.relay 0 .select),
          .outbox (.relay 0 (.publish .accepted)), .outbox (.relay 0 (.commit .done placedAt))]).any
          (fun t => .started ⟨4⟩ ∈ t.deeds 0 ∧ .published ⟨4⟩ ∈ t.deeds 0 ∧ .marked ⟨4⟩ ∈ t.deeds 0) = true)
      (by decide)
  obtain ⟨t, ht, hdeeds⟩ := machine.exists_reaches _ _ hgoes
  exact ⟨s, _, t, hs, hrow, if_pos hrunning, ht, hdeeds⟩

end OutboxFanout.Shutdown
