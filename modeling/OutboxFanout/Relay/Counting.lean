import Mathlib.Algebra.BigOperators.Group.List.Basic
import OutboxFanout.Relay.Locking

/-!
# How often a row reaches SNS

A relay publishes a row while it holds the row's lock, and lets go of the lock
by marking the row or by failing. So all accepted publishes of a row but one
are paid for by a failure, and the one left over belongs to the mark or to the
relay that still holds the lock: this is `Ledger`, which every step keeps.

A publish is one call of `publisher.publish`; what botocore repeats inside a
call is not told apart.
-/

namespace OutboxFanout.Outbox

open Relay

section
variable (s : State) (id : UUID)

/-- The publishes of the row that SNS accepted. -/
def State.accepts : Nat :=
  s.history.countP fun | .accepted row => row.id = id | _ => false

def State.lostAcks : Nat :=
  s.history.countP fun | .lostAck id' => id' = id | _ => false

def State.deaths : Nat :=
  s.history.countP fun | .died id' => id' = id | _ => false

def State.commitFailures : Nat :=
  s.history.countP fun | .commitFailed id' => id' = id | _ => false

def State.failures : Nat := s.deaths id + s.commitFailures id + s.lostAcks id

def State.Published : Prop := ∃ row ∈ s.outbox, row.id = id ∧ row.published = true

/-- A relay holds the row's lock between an accepted publish and its commit. -/
def State.InFlight : Prop :=
  ∃ r ∈ s.locks id, ∃ event ids, (s.relays r).pc = .accepted event ids

instance : Decidable (s.Published id) := by unfold State.Published; infer_instance

instance : Decidable (s.InFlight id) :=
  match hl : s.locks id with
  | none => .isFalse (by simp [State.InFlight, hl])
  | some r =>
    match hpc : (s.relays r).pc with
    | .accepted event ids => .isTrue ⟨r, hl, event, ids, hpc⟩
    | .down | .idle | .batch _ | .skipped .. | .locked .. | .failed .. | .recording .. =>
      .isFalse (by simp [State.InFlight, hl, hpc])

end

section
variable {s s' : State} {event : Event}

def Event.failure? : Event → Option UUID
  | .lostAck id | .died id | .commitFailed id => some id
  | _ => none

theorem failures_cons (h : s'.history = event :: s.history) (key : UUID) :
    s'.failures key = s.failures key + if event.failure? = some key then 1 else 0 := by
  cases event <;>
    simp [State.failures, State.deaths, State.commitFailures, State.lostAcks, Event.failure?, h,
      List.countP_cons] <;> omega

theorem accepts_cons (h : s'.history = event :: s.history) (he : ∀ row, event ≠ .accepted row)
    (key : UUID) : s'.accepts key = s.accepts key := by
  cases event <;> simp_all [State.accepts]

theorem accepts_cons_accepted (h : s'.history = .accepted row :: s.history) (key : UUID) :
    s'.accepts key = s.accepts key + if row.id = key then 1 else 0 := by
  simp [State.accepts, h, List.countP_cons]

end

-- ---------------------------------------------------------------------------
-- The ledger of one row
-- ---------------------------------------------------------------------------

/-- One accepted publish at most is not paid for by a failure, and it is the
one of the mark or of the relay about to mark. -/
def Ledger (s : State) (id : UUID) : Prop :=
  s.accepts id ≤ s.failures id ∨
    (s.Published id ∨ s.InFlight id) ∧ s.accepts id ≤ s.failures id + 1

theorem Ledger.accepts_le (h : Ledger s key) : s.accepts key ≤ s.failures key + 1 := by
  rcases h with h | ⟨-, h⟩
  · exact Nat.le_succ_of_le h
  · exact h

theorem Ledger.keep (h : Ledger s key) (hacc : s'.accepts key = s.accepts key)
    (hfail : s'.failures key = s.failures key) (hpub : s.Published key → s'.Published key)
    (hfly : s.InFlight key → s'.InFlight key) : Ledger s' key := by
  rcases h with h | ⟨hcov, h⟩
  · exact .inl (by rwa [hacc, hfail])
  · exact .inr ⟨hcov.imp hpub hfly, by rwa [hacc, hfail]⟩

/-- A failure pays. -/
theorem Ledger.paid (h : Ledger s key) (hacc : s'.accepts key = s.accepts key)
    (hfail : s'.failures key = s.failures key + 1) : Ledger s' key := by
  have hle := h.accepts_le
  exact .inl (by omega)

-- ---------------------------------------------------------------------------
-- Steps
-- ---------------------------------------------------------------------------

variable {s s' : State} {f : OutboxEvent → OutboxEvent} {failure : Event}

theorem inFlight_iff (h : Inv s) :
    s.InFlight key ↔ ∃ r event ids, (s.relays r).pc = .accepted event ids ∧ event.id = key := by
  constructor
  · rintro ⟨r, hl, event, ids, hpc⟩
    have hold := (h.locks key r).mp hl
    rw [hpc] at hold
    exact ⟨r, event, ids, hpc, Option.some.inj hold⟩
  · rintro ⟨r, event, ids, hpc, rfl⟩
    exact ⟨r, (h.locks event.id r).mpr (by rw [hpc]; rfl), event, ids, hpc⟩

theorem State.Published.write (h : s.Published key) (hid : ∀ row, (f row).id = row.id)
    (hpub : ∀ row : OutboxEvent, row.published = true → (f row).published = true) :
    (s.write k f).Published key := by
  obtain ⟨row, hmem, rfl, hp⟩ := h
  by_cases hk : row.id = k
  · exact ⟨f row, Rows.mem_update_of_eq hmem hk, hid row, hpub row hp⟩
  · exact ⟨row, Rows.mem_update_of_ne hmem hk, rfl, hp⟩

theorem RelayStep.published (hs : RelayStep s r action s') (key : UUID) (h : s.Published key) :
    s'.Published key := by
  cases hs with
  | kill => simpa only [State.Published, State.kill_outbox] using h
  | mark | markLost => exact h.write (fun row => row.mark_id _) fun _ _ => rfl
  | recorded => exact h.write (fun _ => recordedFailure_id) fun _ hp =>
      recordedFailure_published.trans hp
  | _ => exact h

/-- Another relay's flight goes on, and so does this one's unless it lands here. -/
theorem RelayStep.inFlight (hs : RelayStep s r action s') (hi : Inv s) (hi' : Inv s')
    (hr : ∀ event ids, (s.relays r).pc = .accepted event ids → event.id ≠ key)
    (h : s.InFlight key) : s'.InFlight key := by
  obtain ⟨r', event, ids, hpc, hk⟩ := (inFlight_iff hi).mp h
  by_cases hne : r' = r
  · subst hne
    exact absurd hk (hr event ids hpc)
  · exact (inFlight_iff hi').mpr ⟨r', event, ids, by rw [hs.others hne, hpc], hk⟩

theorem Inv.not_published (h : Inv s) (he : (s.relays r).pc.event? = some event) :
    ¬ s.Published event.id := by
  rintro ⟨row, hmem, hid, hp⟩
  obtain ⟨hmem', hunpub⟩ := h.held r event he
  rw [h.keyed.eq_of_mem hmem hmem' hid, hunpub] at hp
  cases hp

theorem Inv.not_inFlight (h : Inv s) (hpc : (s.relays r).pc = .locked event ids) :
    ¬ s.InFlight event.id := by
  rintro ⟨r', hl, event', ids', hpc'⟩
  have hown := (h.locks event.id r).mpr (by rw [hpc]; rfl)
  obtain rfl : r' = r := Option.some.inj (Option.mem_def.mp hl ▸ hown)
  rw [hpc] at hpc'
  cases hpc'

/-- The relay fails after an accepted publish, before its commit. -/
theorem Ledger.fail (h : ∀ key, Ledger s key) (hi : Inv s) (hs : RelayStep s r action s')
    (hpc : (s.relays r).pc = .accepted event ids) (hhist : s'.history = failure :: s.history)
    (hfail : failure.failure? = some event.id) (hacc : ∀ row, failure ≠ .accepted row)
    (key : UUID) : Ledger s' key := by
  have hcount := failures_cons hhist key
  by_cases hk : event.id = key
  · subst hk
    exact (h event.id).paid (accepts_cons hhist hacc _) (by rw [hcount, if_pos hfail])
  · refine (h key).keep (accepts_cons hhist hacc key) ?_ (hs.published key) ?_
    · rw [hcount, hfail, if_neg (by simpa using hk), Nat.add_zero]
    · refine hs.inFlight hi (hi.relayStep hs) fun event' ids' hpc' => ?_
      rw [hpc] at hpc'
      cases hpc'
      exact hk

theorem Ledger.kill (h : ∀ key, Ledger s key) (hi : Inv s) (key : UUID) :
    Ledger (s.kill r) key := by
  have hs : RelayStep s r .kill (s.kill r) := .kill
  cases hpc : (s.relays r).pc with
  | accepted event ids =>
    have hhist : (s.kill r).history = .died event.id :: s.history := by simp [State.kill, hpc]
    exact Ledger.fail h hi hs hpc hhist rfl (by rintro _ ⟨⟩) key
  | _ =>
    have hhist : (s.kill r).history = s.history := by simp [State.kill, hpc]
    refine (h key).keep (by simp only [State.accepts, hhist]) ?_ (hs.published key) ?_
    · simp only [State.failures, State.deaths, State.commitFailures, State.lostAcks, hhist]
    · exact hs.inFlight hi (hi.relayStep hs) (by rw [hpc]; nofun)

/-- Before its publish a locked row owes nothing. -/
theorem Ledger.accepts_le_of_locked (h : Ledger s event.id) (hi : Inv s)
    (hpc : (s.relays r).pc = .locked event ids) : s.accepts event.id ≤ s.failures event.id := by
  rcases h with hle | ⟨hp | hf, -⟩
  · exact hle
  · exact absurd hp (hi.not_published (by rw [hpc]; rfl))
  · exact absurd hf (hi.not_inFlight hpc)

theorem Ledger.accepted (h : Ledger s key) (hi : Inv s) (hpc : (s.relays r).pc = .locked event ids)
    (hs : RelayStep s r action s') (hhist : s'.history = .accepted event :: s.history)
    (hpc' : (s'.relays r).pc = .accepted event ids) : Ledger s' key := by
  have hi' := hi.relayStep hs
  have hacc := accepts_cons_accepted hhist key
  have hfail : s'.failures key = s.failures key := failures_cons hhist key
  by_cases hk : event.id = key
  · subst hk
    have hle := h.accepts_le_of_locked hi hpc
    refine .inr ⟨.inr ((inFlight_iff hi').mpr ⟨r, event, ids, hpc', rfl⟩), ?_⟩
    rw [hacc, hfail, if_pos rfl]
    exact Nat.succ_le_succ hle
  · refine h.keep (by rw [hacc, if_neg hk, Nat.add_zero]) hfail (hs.published key) ?_
    exact hs.inFlight hi hi' (by rw [hpc]; nofun)

/-- The failed call pays for its own publish. -/
theorem Ledger.lostAck (h : Ledger s key) (hi : Inv s) (hpc : (s.relays r).pc = .locked event ids)
    (hs : RelayStep s r action s')
    (hhist : s'.history = .lostAck event.id :: .accepted event :: s.history) : Ledger s' key := by
  have hacc : s'.accepts key = s.accepts key + if event.id = key then 1 else 0 := by
    simp [State.accepts, hhist, List.countP_cons]
  have hfail : s'.failures key = s.failures key + if event.id = key then 1 else 0 := by
    simp [State.failures, State.deaths, State.commitFailures, State.lostAcks, hhist, List.countP_cons]
    omega
  by_cases hk : event.id = key
  · subst hk
    have hle := h.accepts_le_of_locked hi hpc
    left
    rw [hacc, hfail]
    exact Nat.add_le_add_right hle _
  · rw [if_neg hk, Nat.add_zero] at hacc hfail
    exact h.keep hacc hfail (hs.published key) (hs.inFlight hi (hi.relayStep hs) (by rw [hpc]; nofun))

theorem Ledger.mark (h : Ledger s key) (hi : Inv s) (hpc : (s.relays r).pc = .accepted event ids)
    (hs : RelayStep s r action s') (hhist : s'.history = s.history)
    (hout : s'.outbox = Rows.update OutboxEvent.id event.id (·.mark now) s.outbox) :
    Ledger s' key := by
  have hacc : s'.accepts key = s.accepts key := by simp only [State.accepts, hhist]
  have hfail : s'.failures key = s.failures key := by
    simp only [State.failures, State.deaths, State.commitFailures, State.lostAcks, hhist]
  by_cases hk : event.id = key
  · subst hk
    obtain ⟨hmem, -⟩ := hi.held r event (by rw [hpc]; rfl)
    refine .inr ⟨.inl ⟨event.mark now, ?_, rfl, rfl⟩, by rw [hacc, hfail]; exact h.accepts_le⟩
    rw [hout]
    exact Rows.mem_update_of_eq hmem rfl
  · refine h.keep hacc hfail (hs.published key) (hs.inFlight hi (hi.relayStep hs) ?_)
    rw [hpc]
    rintro _ _ ⟨⟩
    exact hk

theorem Ledger.relayStep (h : ∀ key, Ledger s key) (hi : Inv s) (hs : RelayStep s r action s')
    (key : UUID) : Ledger s' key := by
  have hpub := hs.published key
  have hfly := @RelayStep.inFlight s s' r action key hs hi (hi.relayStep hs)
  have hs₀ := hs
  cases hs with
  | kill => exact Ledger.kill h hi key
  | accepted hpc => exact (h key).accepted hi hpc hs₀ rfl (by simp)
  | lostAck hpc => exact (h key).lostAck hi hpc hs₀ rfl
  | mark hpc => exact (h key).mark hi hpc hs₀ rfl rfl
  | markRefused hpc => exact Ledger.fail h hi hs₀ hpc rfl rfl (by rintro _ ⟨⟩) key
  | markLost hpc => exact Ledger.fail h hi hs₀ hpc rfl rfl (by rintro _ ⟨⟩) key
  | recorded hpc =>
    refine (h key).keep ?_ ?_ hpub (hfly (by rw [hpc]; nofun))
    · simp [State.accepts]
    · simp [State.failures, State.deaths, State.commitFailures, State.lostAcks]
  | start hpc | poll hpc | endPoll hpc | lock hpc | skip hpc | selectFails hpc | skipDone hpc
  | skipFails hpc | refused hpc | record hpc | recordMissing hpc | recordFails hpc
  | recordRefused hpc => exact (h key).keep rfl rfl hpub (hfly (by rw [hpc]; nofun))

theorem Ledger.step (h : ∀ key, Ledger s key) (hi : Inv s) (hs : Step s action s')
    (key : UUID) : Ledger s' key := by
  cases hs with
  | relay hr => exact Ledger.relayStep h hi hr key
  | post | flush | flushFails | abort => exact (h key).keep rfl rfl (fun h => h) fun h => h
  | commitOrder =>
    refine (h key).keep rfl rfl ?_ fun h => h
    rintro ⟨row, hmem, hk, hp⟩
    exact ⟨row, List.mem_append_left _ hmem, hk, hp⟩
  | clearFailedAt => exact (h key).keep rfl rfl (·.write (fun _ => rfl) fun _ hp => hp) fun h => h

theorem ledger_of_reaches (h₀ : s₀.Initial) (h : machine.Reaches C s₀ s) : ∀ key, Ledger s key := by
  refine (h.invariant (I := fun s => Inv s ∧ ∀ key, Ledger s key) ⟨h₀.inv, fun key => .inl ?_⟩ ?_).2
  · simp [State.accepts, h₀.history]
  · rintro t action u ⟨hi, hl⟩ - hs
    exact ⟨hi.step (step_cases hs), Ledger.step hl hi (step_cases hs)⟩

-- ---------------------------------------------------------------------------
-- The blast radius of a failure
-- ---------------------------------------------------------------------------

/-- A death is charged to one row. -/
theorem sum_deaths_kill (h : Inv s) (r : RelayId) :
    ((s.kill r).outbox.map fun row => (s.kill r).deaths row.id).sum ≤
      (s.outbox.map fun row => s.deaths row.id).sum + 1 := by
  rw [State.kill_outbox]
  cases hpc : (s.relays r).pc with
  | accepted event ids =>
    have hhist : (s.kill r).history = .died event.id :: s.history := by simp [State.kill, hpc]
    have hdeaths : ∀ key, (s.kill r).deaths key =
        s.deaths key + if event.id = key then 1 else 0 := by
      intro key
      simp [State.deaths, hhist, List.countP_cons]
    refine h.keyed.sum_le_succ (k := event.id) (fun row _ hk => ?_) fun row _ hk => ?_
    · rw [hdeaths, if_pos hk.symm]
    · rw [hdeaths, if_neg (Ne.symm hk), Nat.add_zero]
  | _ =>
    have hhist : (s.kill r).history = s.history := by simp [State.kill, hpc]
    simp only [State.deaths, hhist]
    exact Nat.le_succ _

theorem kill_counts (key : UUID) : (s.kill r).accepts key = s.accepts key ∧
    (s.kill r).commitFailures key = s.commitFailures key ∧
    (s.kill r).lostAcks key = s.lostAcks key := by
  cases hpc : (s.relays r).pc <;>
    simp [State.kill, hpc, State.accepts, State.commitFailures, State.lostAcks]

theorem Ledger.accepts_le_covered (h : Ledger s key) : s.accepts key ≤
    (if s.Published key then 1 else 0) + (if s.InFlight key then 1 else 0) + s.failures key := by
  rcases h with h | ⟨hp | hf, h⟩
  · omega
  · rw [if_pos hp]
    omega
  · rw [if_pos hf]
    omega

/-- However relays interleave, die and fail: every publish of a row that SNS
accepted is the one its mark stands for, the one its lock still covers, or one
that a death, a failed commit or a failed call accounts for; and a death
accounts for one publish of one row. -/
theorem accepts_le_of_reaches (h₀ : s₀.Initial) (h : machine.Reaches Machine.anyStep s₀ s) :
    (∀ id, s.accepts id ≤ (if s.Published id then 1 else 0) + (if s.InFlight id then 1 else 0) +
      (s.deaths id + s.commitFailures id) + s.lostAcks id) ∧
    (∀ r t, machine.step s (.relay r .kill) = some t →
      (t.outbox.map fun row => t.deaths row.id).sum ≤
        (s.outbox.map fun row => s.deaths row.id).sum + 1 ∧
      ∀ id, t.accepts id = s.accepts id ∧ t.commitFailures id = s.commitFailures id ∧
        t.lostAcks id = s.lostAcks id) ∧
    ∀ id, s.deaths id = 0 → s.commitFailures id = 0 → s.lostAcks id = 0 → s.accepts id ≤ 1 := by
  have hi := inv_of_reaches h₀ h
  have hl := ledger_of_reaches h₀ h
  refine ⟨fun key => ?_, ?_, fun key hd hc ha => ?_⟩
  · have hle := (hl key).accepts_le_covered
    simp only [State.failures] at hle
    omega
  · rintro r t ht
    obtain rfl : s.kill r = t := by simpa [machine, step, relayStep] using ht
    exact ⟨sum_deaths_kill hi r, kill_counts⟩
  · have hle := (hl key).accepts_le
    simp only [State.failures] at hle
    omega

/-- A relay dies before its mark; the one that follows publishes the row again. -/
theorem accepts_le_of_reaches_death :
    ∃ s, machine.Reaches Machine.anyStep (.holding [keyboardRow]) s ∧
      (s.accepts ⟨2⟩ = 2 ∧ s.deaths ⟨2⟩ = 1 ∧ s.Published ⟨2⟩) ∧
      (∀ id, s.accepts id ≤ (if s.Published id then 1 else 0) + (if s.InFlight id then 1 else 0) +
        (s.deaths id + s.commitFailures id) + s.lostAcks id) := by
  obtain ⟨s, hs, hcounts⟩ :=
    machine.exists_reaches (C := Machine.anyStep) (s := .holding [keyboardRow])
      [.relay 0 (.start ⟨10, 5, false⟩), .relay 0 (.poll [⟨2⟩]), .relay 0 .select,
        .relay 0 (.publish .accepted), .relay 0 .kill, .relay 1 (.start ⟨10, 5, false⟩),
        .relay 1 (.poll [⟨2⟩]), .relay 1 .select, .relay 1 (.publish .accepted),
        .relay 1 (.commit .done placedAt)]
      (fun s => s.accepts ⟨2⟩ = 2 ∧ s.deaths ⟨2⟩ = 1 ∧ s.Published ⟨2⟩) (by decide)
  exact ⟨s, hs, hcounts, (accepts_le_of_reaches (State.holding_initial Rows.keyed_singleton) hs).1⟩

end OutboxFanout.Outbox
