import OutboxFanout.Lib.Machine
import OutboxFanout.Relay.Effect

/-!
# What repeated polls achieve

One relay polls again and again while new orders arrive. `remaining` is what
the rows not newer than a given time may still be tried; every poll lowers it
(`remaining_afterPoll_lt`), which bounds how long a row can wait. In an outage a
poll charges one attempt to one oldest row, which bounds how long an outage a
row survives.
-/

namespace OutboxFanout.Relay

/-- The table, and the polls made so far. -/
structure Backlog where
  rows : List OutboxEvent
  polls : Nat

inductive PollAction
  | poll (poll : Poll)
  | arrive (row : OutboxEvent)

def pollMachine (config : Config) : Machine Backlog PollAction where
  step s
    | .poll poll => some ⟨afterPoll config poll s.rows, s.polls + 1⟩
    | .arrive row =>
      if row.id ∈ s.rows.map (·.id) then none else some ⟨s.rows ++ [row], s.polls⟩

/-- New orders are later than `time`; SNS may answer anything. -/
def ArrivesAfter (time : Datetime) (_ : Backlog) : PollAction → Prop
  | .poll _ => True
  | .arrive row => time < row.createdAt

/-- What a row may still be tried. -/
def credit (maxAttempts : Nat) (row : OutboxEvent) : Nat :=
  if Selectable maxAttempts row then maxAttempts - row.attempts else 0

/-- What the rows that satisfy `p` may still be tried. -/
def remaining (maxAttempts : Nat) (p : OutboxEvent → Bool) (rows : List OutboxEvent) : Nat :=
  ((rows.filter p).map (credit maxAttempts)).sum

variable {config : Config} {poll : Poll}

-- ---------------------------------------------------------------------------
-- One poll
-- ---------------------------------------------------------------------------

/-- While a row is selectable the batch is not empty, and its head is no newer. -/
theorem batch_head (hbatch : 1 ≤ config.batchSize) (hmem : row ∈ rows)
    (hsel : Selectable config.maxAttempts row) :
    ∃ head rest, batch config poll rows = head :: rest ∧ head.createdAt ≤ row.createdAt := by
  have hpending : row ∈ pendingRows config.maxAttempts (poll.scan rows) :=
    mem_pendingRows.mpr ⟨(poll.scan_perm rows).mem_iff.mpr hmem, hsel⟩
  obtain ⟨n, hn⟩ := Nat.exists_eq_add_of_le' hbatch
  have hsorted := @pendingRows_pairwise config.maxAttempts (poll.scan rows)
  cases hp : pendingRows config.maxAttempts (poll.scan rows) with
  | nil => simp [hp] at hpending
  | cons head rest =>
    refine ⟨head, rest.take n, by simp [batch, hp, hn], ?_⟩
    rw [hp] at hpending hsorted
    rcases List.mem_cons.mp hpending with rfl | hrest
    · exact Nat.le_refl _
    · exact (List.pairwise_cons.mp hsorted).1 row hrest

theorem credit_pos : 0 < credit maxAttempts row ↔ Selectable maxAttempts row := by
  unfold credit
  split
  next hsel => simpa [hsel] using Nat.sub_pos_of_lt hsel.2.2
  next hsel => simpa using hsel

/-- A failure costs one attempt, also the one that parks. -/
theorem credit_recordedFailure_le (hsel : Selectable maxAttempts row) :
    credit maxAttempts (recordedFailure maxAttempts exc permanent now row) + 1 ≤
      credit maxAttempts row := by
  have hlt := hsel.2.2
  rw [show credit maxAttempts row = maxAttempts - row.attempts from if_pos hsel]
  unfold credit
  split
  · rw [recordedFailure_attempts]
    omega
  · omega

theorem credit_outcome_lt (hsel : Selectable config.maxAttempts row) :
    credit config.maxAttempts (outcome config poll row) < credit config.maxAttempts row := by
  unfold outcome
  split
  · have hzero : credit config.maxAttempts (row.mark (poll.now row.id)) = 0 :=
      if_neg fun h => nomatch h.1
    rw [hzero]
    exact credit_pos.mpr hsel
  · exact credit_recordedFailure_le hsel

/-- A row that is tried was selectable, and is worse off by an attempt. -/
theorem credit_settle_le {events : List OutboxEvent} (hk : Rows.Keyed OutboxEvent.id rows)
    (hsel : ∀ event ∈ events, event ∈ rows ∧ Selectable config.maxAttempts event)
    (hmem : row ∈ rows) :
    credit config.maxAttempts (settle config poll events row) ≤ credit config.maxAttempts row := by
  unfold settle
  split
  next htried =>
    obtain ⟨event, he, hid⟩ := List.mem_map.mp htried
    obtain ⟨hold, hsel⟩ := hsel event he
    rw [← hk.eq_of_mem hold hmem hid]
    exact Nat.le_of_lt (credit_outcome_lt hsel)
  next => exact Nat.le_refl _

theorem remaining_settled {p : OutboxEvent → Bool}
    (hp : ∀ row, p (settle config poll events row) = p row) :
    remaining maxAttempts p (settled config poll events rows) = ((rows.filter p).map fun row =>
      credit maxAttempts (settle config poll events row)).sum := by
  rw [remaining, settled, List.filter_map, List.map_map]
  congr 2
  exact List.filter_congr fun row _ => hp row

theorem tried_selectable (h : event ∈ tried poll (batch config poll rows)) :
    event ∈ rows ∧ Selectable config.maxAttempts event :=
  mem_batch (tried_sublist.subset h)

/-- Every poll uses up part of what the rows up to a selectable one have left. -/
theorem remaining_afterPoll_lt (hk : Rows.Keyed OutboxEvent.id rows) (hbatch : 1 ≤ config.batchSize)
    (hmem : row ∈ rows) (hsel : Selectable config.maxAttempts row) :
    remaining config.maxAttempts (·.createdAt ≤ row.createdAt) (afterPoll config poll rows) <
      remaining config.maxAttempts (·.createdAt ≤ row.createdAt) rows := by
  obtain ⟨head, rest, hb, hle⟩ := batch_head hbatch hmem hsel
  have hhead : head ∈ tried poll (batch config poll rows) := by
    rw [hb, tried]
    exact List.mem_cons_self
  obtain ⟨hheadMem, hheadSel⟩ := tried_selectable hhead
  rw [afterPoll_eq hk, remaining_settled fun row => by rw [settle_createdAt]]
  refine List.sum_lt_sum _ _ (fun old hold => ?_) ⟨head, ?_, ?_⟩
  · exact credit_settle_le hk (fun _ => tried_selectable) (List.mem_of_mem_filter hold)
  · exact List.mem_filter.mpr ⟨hheadMem, by simpa using hle⟩
  · rw [settle, if_pos (List.mem_map_of_mem hhead)]
    exact credit_outcome_lt hheadSel

-- ---------------------------------------------------------------------------
-- One row among them
-- ---------------------------------------------------------------------------

/-- Published or parked: nothing more happens to the row. -/
def Resolved (row : OutboxEvent) : Prop := row.published = true ∨ row.failedAt ≠ none

instance : DecidablePred Resolved := fun _ => by unfold Resolved; infer_instance

theorem Resolved.not_selectable (h : Resolved row) : ¬ Selectable maxAttempts row := by
  rintro ⟨hunpub, hunparked, -⟩
  rcases h with h | h
  · rw [hunpub] at h
    cases h
  · exact h hunparked

theorem recordedFailure_cases (hsel : Selectable maxAttempts row) :
    (recordedFailure maxAttempts exc permanent now row).failedAt ≠ none ∨
      Selectable maxAttempts (recordedFailure maxAttempts exc permanent now row) := by
  cases hparked : (recordedFailure maxAttempts exc permanent now row).failedAt with
  | some time => exact .inl nofun
  | none =>
    obtain ⟨-, -, hlt⟩ := recordedFailure_failedAt.mp hparked
    exact .inr ⟨recordedFailure_published.trans hsel.1, hparked, by rwa [recordedFailure_attempts]⟩

theorem outcome_resolved_or (hsel : Selectable config.maxAttempts row) :
    Resolved (outcome config poll row) ∨ Selectable config.maxAttempts (outcome config poll row) := by
  unfold outcome
  split
  · exact .inl (.inl rfl)
  · exact (recordedFailure_cases hsel).imp_left .inr

/-- A poll leaves a row alone or, if it may be tried, tries it. -/
theorem settle_cases (hk : Rows.Keyed OutboxEvent.id rows) (hmem : row ∈ rows) :
    let row' := settle config poll (tried poll (batch config poll rows)) row
    row' = row ∨ Selectable config.maxAttempts row ∧ row' = outcome config poll row := by
  unfold settle
  split
  next htried =>
    obtain ⟨event, he, hid⟩ := List.mem_map.mp htried
    obtain ⟨hold, hsel⟩ := tried_selectable he
    exact .inr ⟨hk.eq_of_mem hold hmem hid ▸ hsel, rfl⟩
  next => exact .inl rfl

theorem keyed_afterPoll (hk : Rows.Keyed OutboxEvent.id rows) :
    Rows.Keyed OutboxEvent.id (afterPoll config poll rows) := by
  rw [afterPoll_eq hk, settled, Rows.Keyed, List.map_map]
  refine (List.map_congr_left fun row _ => ?_) ▸ hk
  exact settle_id.symm

theorem mem_afterPoll (hk : Rows.Keyed OutboxEvent.id rows) (hmem : row ∈ rows) :
    settle config poll (tried poll (batch config poll rows)) row ∈ afterPoll config poll rows := by
  rw [afterPoll_eq hk]
  exact List.mem_map_of_mem hmem

theorem Resolved.settle (h : Resolved row) (hk : Rows.Keyed OutboxEvent.id rows) (hmem : row ∈ rows) :
    settle config poll (tried poll (batch config poll rows)) row = row := by
  rcases settle_cases hk hmem with heq | ⟨hsel, -⟩
  · exact heq
  · exact absurd hsel h.not_selectable

theorem arrive_cases (h : (pollMachine config).step s (.arrive new) = some s') :
    new.id ∉ s.rows.map (·.id) ∧ s' = ⟨s.rows ++ [new], s.polls⟩ := by
  simp only [pollMachine] at h
  split at h
  next => cases h
  next hnew => exact ⟨hnew, (Option.some.inj h).symm⟩

/-- `r` under its id: resolved, or selectable with `total` covering what the
rows up to it have left and the polls made. -/
structure Waits (config : Config) (r : OutboxEvent) (total : Nat) (s : Backlog) : Prop where
  keyed : Rows.Keyed OutboxEvent.id s.rows
  row : ∃ row ∈ s.rows, row.id = r.id ∧ row.createdAt = r.createdAt ∧
    (Resolved row ∨ Selectable config.maxAttempts row ∧
      remaining config.maxAttempts (·.createdAt ≤ r.createdAt) s.rows + s.polls ≤ total)

theorem Waits.polled (h : Waits config r total s) (hbatch : 1 ≤ config.batchSize) :
    Waits config r total ⟨afterPoll config poll s.rows, s.polls + 1⟩ := by
  obtain ⟨row, hmem, hid, htime, hrow⟩ := h.row
  refine ⟨keyed_afterPoll h.keyed, _, mem_afterPoll h.keyed hmem, settle_id.trans hid,
    settle_createdAt.trans htime, ?_⟩
  rcases hrow with hres | ⟨hsel, htotal⟩
  · rw [hres.settle h.keyed hmem]
    exact .inl hres
  · have hlt := @remaining_afterPoll_lt config poll _ _ h.keyed hbatch hmem hsel
    rw [htime] at hlt
    rcases @settle_cases config poll _ _ h.keyed hmem with heq | ⟨-, heq⟩
    · rw [heq]
      exact .inr ⟨hsel, by simp only; omega⟩
    · rw [heq]
      exact (outcome_resolved_or hsel).imp_right fun hsel' => ⟨hsel', by simp only; omega⟩

theorem remaining_append (hp : p row = false) :
    remaining maxAttempts p (rows ++ [row]) = remaining maxAttempts p rows := by
  simp [remaining, hp]

theorem Waits.arrive (h : Waits config r total s) (hnew : new.id ∉ s.rows.map (·.id))
    (hlater : r.createdAt < new.createdAt) : Waits config r total ⟨s.rows ++ [new], s.polls⟩ := by
  obtain ⟨row, hmem, hid, htime, hrow⟩ := h.row
  refine ⟨h.keyed.append fun old hold hk => hnew (hk ▸ List.mem_map_of_mem hold), row,
    List.mem_append_left _ hmem, hid, htime, ?_⟩
  rw [remaining_append (by simpa [Datetime.le_def, Datetime.lt_def] using hlater)]
  exact hrow

theorem credit_le : credit maxAttempts row ≤ if Selectable maxAttempts row then maxAttempts else 0 := by
  unfold credit
  split
  · exact Nat.sub_le ..
  · exact Nat.le_refl _

theorem remaining_le : remaining maxAttempts p rows ≤
    rows.countP (fun row => Selectable maxAttempts row ∧ p row) * maxAttempts := by
  induction rows with
  | nil => simp [remaining]
  | cons row rows ih =>
    cases hp : p row with
    | false => simpa [remaining, hp] using ih
    | true =>
      have hrow := @credit_le maxAttempts row
      by_cases hsel : Selectable maxAttempts row
      · simp only [remaining] at ih
        simp only [remaining, hp, List.filter_cons_of_pos, List.map_cons, List.sum_cons, List.countP_cons,
          hsel, and_self, decide_true, ↓reduceIte, Nat.add_mul] at hrow ⊢
        omega
      · simpa [remaining, hp, hsel, credit] using ih

theorem remaining_pos (hmem : row ∈ rows) (hp : p row = true) (hsel : Selectable maxAttempts row) :
    0 < remaining maxAttempts p rows := by
  refine Nat.lt_of_lt_of_le (credit_pos.mpr hsel) (List.le_sum_of_mem ?_)
  exact List.mem_map_of_mem (List.mem_filter.mpr ⟨hmem, hp⟩)

theorem Waits.resolved (h : Waits config r total s) (htotal : total ≤ s.polls) :
    ∃ row ∈ s.rows, row.id = r.id ∧ Resolved row := by
  obtain ⟨row, hmem, hid, htime, hres | ⟨hsel, hle⟩⟩ := h.row
  · exact ⟨row, hmem, hid, hres⟩
  · have hpos := remaining_pos (p := (·.createdAt ≤ r.createdAt)) hmem (by simp [htime, Datetime.le_def]) hsel
    omega

theorem waits_of_reaches (hk : Rows.Keyed OutboxEvent.id s₀.rows) (hmem : r ∈ s₀.rows)
    (hsel : Selectable config.maxAttempts r) (hbatch : 1 ≤ config.batchSize)
    (h : (pollMachine config).Reaches (ArrivesAfter r.createdAt) s₀ s) : Waits config r
      (remaining config.maxAttempts (·.createdAt ≤ r.createdAt) s₀.rows + s₀.polls) s := by
  refine h.invariant ⟨hk, r, hmem, rfl, rfl, .inr ⟨hsel, Nat.le_refl _⟩⟩ fun t action u hw hc hs => ?_
  cases action with
  | poll poll =>
    cases hs
    exact hw.polled hbatch
  | arrive new =>
    obtain ⟨hnew, rfl⟩ := arrive_cases hs
    exact hw.arrive hnew hc

/-- A selectable row with `k` selectable rows up to it is published or parked
after `k * maxAttempts` polls, whatever SNS answers, because every poll before
that uses up part of what those rows have left. -/
theorem resolved_of_polls (hk : Rows.Keyed OutboxEvent.id rows) (hmem : r ∈ rows)
    (hsel : Selectable config.maxAttempts r) (hbatch : 1 ≤ config.batchSize)
    (h : (pollMachine config).Reaches (ArrivesAfter r.createdAt) ⟨rows, 0⟩ s) :
    (rows.countP (fun row => Selectable config.maxAttempts row ∧ row.createdAt ≤ r.createdAt) *
        config.maxAttempts ≤ s.polls → ∃ row ∈ s.rows, row.id = r.id ∧ Resolved row) ∧
      ∀ poll, (∃ row ∈ s.rows, row.id = r.id ∧ ¬ Resolved row) →
        remaining config.maxAttempts (·.createdAt ≤ r.createdAt) (afterPoll config poll s.rows) <
          remaining config.maxAttempts (·.createdAt ≤ r.createdAt) s.rows := by
  have hw := waits_of_reaches hk hmem hsel hbatch h
  refine ⟨fun hpolls => hw.resolved (remaining_le.trans (by simpa using hpolls)), ?_⟩
  rintro poll ⟨row, hrow, hid, hnot⟩
  obtain ⟨row', hrow', hid', htime, hres | ⟨hsel', -⟩⟩ := hw.row
  · obtain rfl := hw.keyed.eq_of_mem hrow hrow' (hid.trans hid'.symm)
    exact absurd hres hnot
  · rw [← htime]
    exact remaining_afterPoll_lt hw.keyed hbatch hrow' hsel'

instance : DecidablePred (ArrivesAfter time s) := fun _ => by
  unfold ArrivesAfter; split <;> infer_instance

/-- A poll on fixed inputs: every publish ends the same way. -/
def uniformPoll (answer : Except Exc String) : Poll where
  scan rows := rows
  scan_perm rows := .refl rows
  publish _ := answer
  now _ := placedAt

/-- Two rows under a limit of two, one tried at a time: both are parked after
four polls that fail. -/
theorem resolved_of_polls_pair :
    ∃ s, (pollMachine ⟨1, 2, false⟩).Reaches (ArrivesAfter keyboardRow.createdAt)
        ⟨[keyboardRow, { keyboardRow with id := ⟨3⟩ }], 0⟩ s ∧
      s.polls = 4 ∧ ∃ row ∈ s.rows, row.id = ⟨2⟩ ∧ Resolved row := by
  obtain ⟨s, hs, hpolls⟩ := (pollMachine ⟨1, 2, false⟩).exists_reaches
    (C := ArrivesAfter keyboardRow.createdAt)
    (s := ⟨[keyboardRow, { keyboardRow with id := ⟨3⟩ }], 0⟩)
    (List.replicate 4 (.poll (uniformPoll (.error connectTimeout)))) (fun s => s.polls = 4) (by decide)
  exact ⟨s, hs, hpolls, (resolved_of_polls (by decide) (by simp) (by decide) (by decide) hs).1 (by
    rw [hpolls]; decide)⟩

-- ---------------------------------------------------------------------------
-- An outage
-- ---------------------------------------------------------------------------

/-- Every publish raises a transient error. -/
def Outage (time : Datetime) (_ : Backlog) : PollAction → Prop
  | .poll poll => ∀ event, ∃ exc, poll.publish event = .error exc ∧ isPermanent exc = false
  | .arrive row => time < row.createdAt

/-- SNS accepts every publish. -/
def Accepting (time : Datetime) (_ : Backlog) : PollAction → Prop
  | .poll poll => ∀ event, ∃ messageId, poll.publish event = .ok messageId
  | .arrive row => time < row.createdAt

theorem Outage.arrivesAfter (h : Outage time s action) : ArrivesAfter time s action := by
  cases action with
  | poll => trivial
  | arrive => exact h

theorem Accepting.arrivesAfter (h : Accepting time s action) : ArrivesAfter time s action := by
  cases action with
  | poll => trivial
  | arrive => exact h

theorem credit_le_recordedFailure (hsel : Selectable maxAttempts row) : credit maxAttempts row ≤
    credit maxAttempts (recordedFailure maxAttempts exc false now row) + 1 := by
  rw [show credit maxAttempts row = maxAttempts - row.attempts from if_pos hsel]
  by_cases hlt : row.attempts + 1 < maxAttempts
  · have hsel' : Selectable maxAttempts (recordedFailure maxAttempts exc false now row) :=
      ⟨recordedFailure_published.trans hsel.1, recordedFailure_failedAt.mpr ⟨hsel.2.1, rfl, hlt⟩,
        by rwa [recordedFailure_attempts]⟩
    rw [credit, if_pos hsel', recordedFailure_attempts]
    omega
  · omega

/-- In an outage a poll tries the head of its batch and nothing else. -/
theorem tried_outage (h : ∀ event, ∃ exc, poll.publish event = .error exc ∧ isPermanent exc = false) :
    tried poll (head :: rest) = [head] := by
  obtain ⟨exc, hp, hperm⟩ := h head
  simp [tried, hp, hperm]

/-- In an outage a poll takes at most one attempt from any set of rows. -/
theorem remaining_le_afterPoll {p : OutboxEvent → Bool} (hk : Rows.Keyed OutboxEvent.id rows)
    (hout : ∀ event, ∃ exc, poll.publish event = .error exc ∧ isPermanent exc = false)
    (hp : ∀ events row, p (settle config poll events row) = p row) :
    remaining config.maxAttempts p rows ≤
      remaining config.maxAttempts p (afterPoll config poll rows) + 1 := by
  rw [afterPoll_eq hk, remaining_settled (hp _)]
  cases hb : batch config poll rows with
  | nil =>
    simp only [tried, settle, List.map_nil, List.not_mem_nil, ↓reduceIte]
    exact Nat.le_succ _
  | cons head rest =>
    rw [tried_outage hout]
    have hkp : Rows.Keyed OutboxEvent.id (rows.filter p) :=
      List.Nodup.sublist (List.filter_sublist.map _) hk
    obtain ⟨hhead, hsel⟩ := mem_batch (hb ▸ List.mem_cons_self)
    obtain ⟨exc, hpub, hperm⟩ := hout head
    refine hkp.sum_le_succ (k := head.id) (fun row hmem hid => ?_) fun row _ hid => ?_
    · obtain rfl := hk.eq_of_mem hhead (List.mem_of_mem_filter hmem) hid.symm
      simpa [settle, outcome, hpub, hperm] using credit_le_recordedFailure hsel
    · simp [settle, hid]

/-- `r` under its id in an outage: selectable with what it and the older rows
had left not yet used up, or parked once it is. -/
structure Endures (config : Config) (r : OutboxEvent) (total : Nat) (s : Backlog) : Prop where
  keyed : Rows.Keyed OutboxEvent.id s.rows
  row : ∃ row ∈ s.rows, row.id = r.id ∧ row.createdAt = r.createdAt ∧ row.published = false ∧
    (Selectable config.maxAttempts row ∧ total ≤
        remaining config.maxAttempts (·.createdAt < r.createdAt) s.rows +
          credit config.maxAttempts row + s.polls ∨
      row.failedAt ≠ none ∧ total ≤ s.polls)

/-- What a poll in an outage does to a selectable row: nothing, or it is the
head of the batch, with no older row selectable, and is charged an attempt. -/
theorem settle_outage (hk : Rows.Keyed OutboxEvent.id rows)
    (hout : ∀ event, ∃ exc, poll.publish event = .error exc ∧ isPermanent exc = false)
    (hbatch : 1 ≤ config.batchSize) (hmem : row ∈ rows) (hsel : Selectable config.maxAttempts row) :
    let row' := settle config poll (tried poll (batch config poll rows)) row
    row' = row ∨ remaining config.maxAttempts (·.createdAt < row.createdAt) rows = 0 ∧
      ∃ exc, row' = recordedFailure config.maxAttempts exc false (poll.now row.id) row := by
  obtain ⟨head, rest, hb, -⟩ := @batch_head config poll _ _ hbatch hmem hsel
  rw [hb, tried_outage hout]
  by_cases hid : row.id = head.id
  · obtain rfl := hk.eq_of_mem hmem (mem_batch (hb ▸ List.mem_cons_self)).1 hid
    obtain ⟨exc, hpub, hperm⟩ := hout row
    refine .inr ⟨List.sum_eq_zero fun n hn => ?_, exc, by simp [settle, outcome, hpub, hperm]⟩
    obtain ⟨old, hold, rfl⟩ := List.mem_map.mp hn
    obtain ⟨hold, holder⟩ := List.mem_filter.mp hold
    refine Nat.eq_zero_of_not_pos fun hpos => ?_
    obtain ⟨head, rest', hb', hle⟩ := @batch_head config poll _ _ hbatch hold (credit_pos.mp hpos)
    rw [hb] at hb'
    obtain ⟨rfl, -⟩ := List.cons.inj hb'
    exact Nat.not_lt.mpr hle (of_decide_eq_true holder)
  · exact .inl (by simp [settle, hid])

theorem Endures.polled (h : Endures config r total s)
    (hout : ∀ event, ∃ exc, poll.publish event = .error exc ∧ isPermanent exc = false)
    (hbatch : 1 ≤ config.batchSize) :
    Endures config r total ⟨afterPoll config poll s.rows, s.polls + 1⟩ := by
  obtain ⟨row, hmem, hid, htime, hunpub, hrow⟩ := h.row
  have hkeep : remaining config.maxAttempts (·.createdAt < r.createdAt) s.rows ≤
      remaining config.maxAttempts (·.createdAt < r.createdAt) (afterPoll config poll s.rows) + 1 :=
    remaining_le_afterPoll h.keyed hout fun _ _ => by rw [settle_createdAt]
  refine ⟨keyed_afterPoll h.keyed, _, mem_afterPoll h.keyed hmem, settle_id.trans hid,
    settle_createdAt.trans htime, ?_⟩
  rcases hrow with ⟨hsel, htotal⟩ | ⟨hparked, htotal⟩
  · rcases settle_outage h.keyed hout hbatch hmem hsel with heq | ⟨hzero, exc, heq⟩
    · rw [heq]
      exact ⟨hunpub, .inl ⟨hsel, by simp only; omega⟩⟩
    · rw [heq]
      rw [htime] at hzero
      have hcredit := @credit_le_recordedFailure _ _ exc (poll.now row.id) hsel
      refine ⟨recordedFailure_published.trans hunpub, ?_⟩
      rcases @recordedFailure_cases _ _ exc false (poll.now row.id) hsel with hparked | hsel'
      · have hgone : credit config.maxAttempts (recordedFailure config.maxAttempts exc false
            (poll.now row.id) row) = 0 := if_neg fun hsel' => hparked hsel'.2.1
        exact .inr ⟨hparked, by simp only; omega⟩
      · exact .inl ⟨hsel', by simp only; omega⟩
  · rw [Resolved.settle (.inr hparked) h.keyed hmem]
    exact ⟨hunpub, .inr ⟨hparked, Nat.le_succ_of_le htotal⟩⟩

theorem Endures.arrive (h : Endures config r total s) (hnew : new.id ∉ s.rows.map (·.id))
    (hlater : r.createdAt < new.createdAt) : Endures config r total ⟨s.rows ++ [new], s.polls⟩ := by
  obtain ⟨row, hmem, hid, htime, hunpub, hrow⟩ := h.row
  refine ⟨h.keyed.append fun old hold hk => hnew (hk ▸ List.mem_map_of_mem hold), row,
    List.mem_append_left _ hmem, hid, htime, hunpub, ?_⟩
  rw [remaining_append (by simpa [Datetime.lt_def] using Nat.le_of_lt hlater)]
  exact hrow

theorem endures_of_reaches (hk : Rows.Keyed OutboxEvent.id rows) (hmem : r ∈ rows)
    (hsel : Selectable config.maxAttempts r) (hbatch : 1 ≤ config.batchSize)
    (h : (pollMachine config).Reaches (Outage r.createdAt) ⟨rows, 0⟩ s) : Endures config r
      (remaining config.maxAttempts (·.createdAt < r.createdAt) rows +
        credit config.maxAttempts r) s := by
  refine h.invariant ⟨hk, r, hmem, rfl, rfl, hsel.1, .inl ⟨hsel, Nat.le_refl _⟩⟩ fun t action u he hc hs => ?_
  cases action with
  | poll poll =>
    cases hs
    exact he.polled hc hbatch
  | arrive new =>
    obtain ⟨hnew, rfl⟩ := arrive_cases hs
    exact he.arrive hnew hc

/-- A row that polls only ever publish. -/
theorem unparked_of_reaches (hk : Rows.Keyed OutboxEvent.id s₀.rows) (hmem : r ∈ s₀.rows)
    (hunparked : r.failedAt = none) (h : (pollMachine config).Reaches (Accepting time) s₀ s) :
    Rows.Keyed OutboxEvent.id s.rows ∧ ∃ row ∈ s.rows, row.id = r.id ∧ row.failedAt = none := by
  refine h.invariant (I := fun s => Rows.Keyed OutboxEvent.id s.rows ∧
    ∃ row ∈ s.rows, row.id = r.id ∧ row.failedAt = none) ⟨hk, r, hmem, rfl, hunparked⟩ ?_
  rintro t action u ⟨hk, row, hmem, hid, hunparked⟩ hc hs
  cases action with
  | poll poll =>
    cases hs
    refine ⟨keyed_afterPoll hk, _, mem_afterPoll hk hmem, settle_id.trans hid, ?_⟩
    obtain ⟨messageId, hpub⟩ := hc row
    unfold settle
    split
    · simpa [outcome, hpub] using hunparked
    · exact hunparked
  | arrive new =>
    obtain ⟨hnew, rfl⟩ := arrive_cases hs
    exact ⟨hk.append fun old hold hk => hnew (hk ▸ List.mem_map_of_mem hold), row,
      List.mem_append_left _ hmem, hid, hunparked⟩

/-- A row survives an outage that is shorter than what it and the older rows may
still be tried, and is published once SNS accepts again; an outage that lasts
for all that the rows up to it may still be tried parks it. -/
theorem heals_of_outage (hk : Rows.Keyed OutboxEvent.id rows) (hmem : r ∈ rows)
    (hsel : Selectable config.maxAttempts r) (hbatch : 1 ≤ config.batchSize)
    (h : (pollMachine config).Reaches (Outage r.createdAt) ⟨rows, 0⟩ s) :
    (s.polls < remaining config.maxAttempts (·.createdAt < r.createdAt) rows +
        (config.maxAttempts - r.attempts) →
      (∃ row ∈ s.rows, row.id = r.id ∧ Selectable config.maxAttempts row) ∧
      ∀ t, (pollMachine config).Reaches (Accepting r.createdAt) s t →
        remaining config.maxAttempts (·.createdAt ≤ r.createdAt) s.rows + s.polls ≤ t.polls →
        ∃ row ∈ t.rows, row.id = r.id ∧ row.published = true) ∧
    (remaining config.maxAttempts (·.createdAt ≤ r.createdAt) rows ≤ s.polls →
      ∃ row ∈ s.rows, row.id = r.id ∧ row.published = false ∧ row.failedAt ≠ none) := by
  obtain ⟨hks, row, hrow, hid, htime, hunpub, hcase⟩ := endures_of_reaches hk hmem hsel hbatch h
  rw [show credit config.maxAttempts r = config.maxAttempts - r.attempts from if_pos hsel] at hcase
  constructor
  · intro hshort
    have hsel' : Selectable config.maxAttempts row := by
      rcases hcase with ⟨hsel', -⟩ | ⟨-, hlong⟩
      · exact hsel'
      · omega
    refine ⟨⟨row, hrow, hid, hsel'⟩, fun t ht hpolls => ?_⟩
    obtain ⟨hkt, row₁, hrow₁, hid₁, hunparked⟩ := unparked_of_reaches hks hrow hsel'.2.1 ht
    have hwaits := waits_of_reaches hks hrow hsel' hbatch
      (ht.mono fun _ _ hc => htime ▸ hc.arrivesAfter)
    rw [htime] at hwaits
    obtain ⟨row₂, hrow₂, hid₂, hres⟩ := hwaits.resolved hpolls
    obtain rfl := hkt.eq_of_mem hrow₁ hrow₂ (hid₁.trans hid₂.symm)
    rcases hres with hpub | hparked
    · exact ⟨row₁, hrow₁, hid₁.trans hid, hpub⟩
    · exact absurd hunparked hparked
  · intro hlong
    have hwaits : Waits config r (remaining config.maxAttempts (·.createdAt ≤ r.createdAt) rows) s :=
      waits_of_reaches hk hmem hsel hbatch (h.mono fun _ _ hc => hc.arrivesAfter)
    obtain ⟨row', hrow', hid', hres⟩ := hwaits.resolved hlong
    obtain rfl := hks.eq_of_mem hrow hrow' (hid.trans hid'.symm)
    rcases hres with hpub | hparked
    · rw [hunpub] at hpub
      cases hpub
    · exact ⟨row, hrow, hid, hunpub, hparked⟩

theorem reaches_outage (n : Nat) : (pollMachine config).Reaches (Outage time) ⟨rows, 0⟩
    ⟨(afterPoll config (uniformPoll (.error connectTimeout)))^[n] rows, n⟩ := by
  induction n with
  | zero => exact .refl
  | succ n ih =>
    rw [Function.iterate_succ_apply']
    exact .next (.poll (uniformPoll (.error connectTimeout))) ih (fun _ => ⟨_, rfl, rfl⟩) rfl

theorem reaches_accepting : (pollMachine config).Reaches (Accepting time) s
    ⟨afterPoll config (uniformPoll (.ok "message")) s.rows, s.polls + 1⟩ :=
  .next (.poll (uniformPoll (.ok "message"))) .refl (fun _ => ⟨_, rfl⟩) rfl

/-- An outage of one poll under a limit of two, and the poll after it. -/
theorem heals_of_outage_short :
    ∃ s t, (pollMachine ⟨10, 2, false⟩).Reaches (Outage keyboardRow.createdAt) ⟨[keyboardRow], 0⟩ s ∧
      (pollMachine ⟨10, 2, false⟩).Reaches (Accepting keyboardRow.createdAt) s t ∧
      ∃ row ∈ t.rows, row.id = keyboardRow.id ∧ row.published = true := by
  have hout := @reaches_outage ⟨10, 2, false⟩ keyboardRow.createdAt [keyboardRow] 1
  refine ⟨_, _, hout, reaches_accepting, ?_⟩
  exact ((heals_of_outage Rows.keyed_singleton (List.mem_singleton.mpr rfl) (by decide) (by decide)
    hout).1 (by decide)).2 _ reaches_accepting (by decide)

/-- Five polls without SNS park the only row there is. -/
theorem not_selectable_after_outage :
    ¬ ∀ config rows r s, Rows.Keyed OutboxEvent.id rows → r ∈ rows →
      Selectable config.maxAttempts r → 1 ≤ config.batchSize →
      (pollMachine config).Reaches (Outage r.createdAt) ⟨rows, 0⟩ s →
      ∃ row ∈ s.rows, row.id = r.id ∧ Selectable config.maxAttempts row := by
  intro hclaim
  obtain ⟨row, hmem, -, hsel⟩ := hclaim ⟨10, 5, false⟩ [keyboardRow] keyboardRow _
    Rows.keyed_singleton (List.mem_singleton.mpr rfl) (by decide) (by decide) (reaches_outage 5)
  have hnone : ∀ row ∈ (afterPoll ⟨10, 5, false⟩ (uniformPoll (.error connectTimeout)))^[5] [keyboardRow],
      ¬ Selectable 5 row := by decide
  exact hnone row hmem hsel

end OutboxFanout.Relay
