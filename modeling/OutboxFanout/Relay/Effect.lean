import OutboxFanout.Relay.Batch

/-!
# The effect of one poll

A poll of a relay that has the database to itself tries the rows of its batch
in order, up to the first transient failure, and changes nothing else
(`relayBatch_run`).
-/

namespace OutboxFanout.Relay

variable {config : Config} {poll : Poll}

theorem relayOne_run (hk : Rows.Keyed OutboxEvent.id rows) (hmem : event ∈ rows)
    (hunpub : event.published = false) :
    (relayOne poll event.id).run rows = match poll.publish event with
      | .ok _ => (.ok true, Rows.update OutboxEvent.id event.id (·.mark (poll.now event.id)) rows)
      | .error exc => (.error exc, rows) := by
  have hfind : rows.find? (fun row => row.id = event.id ∧ row.published = false) = some event :=
    find?_eq_of_mem hk hmem (by simp [hunpub]) (by simp +contextual)
  rw [relayOne, sessionScope_run]
  simp only [StateT.run_bind, StateT.run_get, pure_bind, hfind]
  cases hp : poll.publish event with
  | ok messageId => rfl
  | error exc => rfl

theorem recordFailure_run (hk : Rows.Keyed OutboxEvent.id rows) (hmem : event ∈ rows) :
    (recordFailure config poll event.id exc permanent).run rows = (.ok (event.attempts + 1),
      Rows.update OutboxEvent.id event.id
        (recordedFailure config.maxAttempts exc permanent (poll.now event.id)) rows) := by
  have hcounted : event.countFailure (failureReason exc) ∈
      Rows.update OutboxEvent.id event.id (·.countFailure (failureReason exc)) rows :=
    Rows.mem_update_of_eq hmem rfl
  have hk' : Rows.Keyed OutboxEvent.id
      (Rows.update OutboxEvent.id event.id (·.countFailure (failureReason exc)) rows) :=
    hk.update fun _ => rfl
  have hfind := find?_eq_of_mem hk' hcounted (p := fun row => row.id = event.id) (by simp) (by simp)
  have hrecorded : ∀ row ∈ rows, row.id = event.id →
      recordedFailure config.maxAttempts exc permanent (poll.now event.id) row =
        if permanent || config.maxAttempts ≤ (event.countFailure (failureReason exc)).attempts then
          (row.countFailure (failureReason exc)).park (poll.now event.id)
        else row.countFailure (failureReason exc) := by
    intro row hrow hid
    rw [hk.eq_of_mem hrow hmem hid]
    rfl
  rw [recordFailure, sessionScope_run, Rows.update_congr hrecorded]
  simp only [StateT.run_bind, StateT.run_get, StateT.run_modify, pure_bind, hfind]
  by_cases hpark : (permanent ||
      decide (config.maxAttempts ≤ (event.countFailure (failureReason exc)).attempts)) = true
  · simp only [hpark, ↓reduceIte, StateT.run_bind, StateT.run_modify, pure_bind, StateT.run_pure]
    rw [Rows.update_update fun row => row.countFailure_id (failureReason exc)]
    rfl
  · simp only [hpark, Bool.false_eq_true, ↓reduceIte]
    rfl

-- ---------------------------------------------------------------------------
-- What is tried, and what becomes of it
-- ---------------------------------------------------------------------------

/-- The rows of a batch that are tried: up to the first transient failure. -/
def tried (poll : Poll) : List OutboxEvent → List OutboxEvent
  | [] => []
  | event :: events => event :: match poll.publish event with
    | .ok _ => tried poll events
    | .error exc => if isPermanent exc then tried poll events else []

theorem tried_sublist : (tried poll events).Sublist events := by
  induction events with
  | nil => exact .slnil
  | cons event events ih =>
    rw [tried]
    refine .cons_cons event ?_
    split
    · exact ih
    · split
      · exact ih
      · exact List.nil_sublist _

def outcome (config : Config) (poll : Poll) (event : OutboxEvent) : OutboxEvent :=
  match poll.publish event with
  | .ok _ => event.mark (poll.now event.id)
  | .error exc =>
    recordedFailure config.maxAttempts exc (isPermanent exc) (poll.now event.id) event

def Poll.accepts (poll : Poll) (event : OutboxEvent) : Bool := (poll.publish event).isOk

/-- A row once `events` have been tried. -/
def settle (config : Config) (poll : Poll) (events : List OutboxEvent) (row : OutboxEvent) :
    OutboxEvent :=
  if row.id ∈ events.map (·.id) then outcome config poll row else row

/-- The table once `events` have been tried. -/
def settled (config : Config) (poll : Poll) (events rows : List OutboxEvent) : List OutboxEvent :=
  rows.map (settle config poll events)

theorem outcome_id : (outcome config poll row).id = row.id := by
  unfold outcome
  split
  · rfl
  · exact recordedFailure_id

theorem outcome_createdAt : (outcome config poll row).createdAt = row.createdAt := by
  unfold outcome
  split
  · rfl
  · exact recordedFailure_createdAt

theorem settle_id : (settle config poll events row).id = row.id := by
  unfold settle
  split
  · exact outcome_id
  · rfl

theorem settle_createdAt : (settle config poll events row).createdAt = row.createdAt := by
  unfold settle
  split
  · exact outcome_createdAt
  · rfl

theorem settled_nil : settled config poll [] rows = rows :=
  (List.map_congr_left fun _ _ => if_neg List.not_mem_nil).trans rows.map_id

theorem settled_cons (hnew : event.id ∉ events.map (·.id)) :
    settled config poll (event :: events) rows =
      settled config poll events (Rows.update OutboxEvent.id event.id (outcome config poll) rows) := by
  simp only [settled, Rows.update, List.map_map]
  refine List.map_congr_left fun row _ => ?_
  by_cases hid : row.id = event.id
  · simp [settle, hid, outcome_id, hnew]
  · simp [settle, hid]

-- ---------------------------------------------------------------------------
-- The loop
-- ---------------------------------------------------------------------------

theorem loop_cons : (relayBatch.loop config poll (eventId :: eventIds) n).run rows =
    match (relayOne poll eventId).run rows with
    | (.ok true, rows') => (relayBatch.loop config poll eventIds (n + 1)).run rows'
    | (.ok false, rows') => (relayBatch.loop config poll eventIds n).run rows'
    | (.error exc, rows') =>
      match (recordFailure config poll eventId exc (isPermanent exc)).run rows' with
      | (.ok _, rows') =>
        if isPermanent exc then (relayBatch.loop config poll eventIds n).run rows' else (.ok n, rows')
      | (.error exc, rows') => (.error exc, rows') := by
  rw [relayBatch.loop, caught_bind]
  cases hone : (relayOne poll eventId).run rows with
  | mk result rows' =>
    cases result with
    | ok done => cases done <;> rfl
    | error exc =>
      simp only [bind_run]
      cases hrec : (recordFailure config poll eventId exc (isPermanent exc)).run rows' with
      | mk result rows' =>
        cases result with
        | ok _ => cases isPermanent exc <;> rfl
        | error _ => rfl

/-- The first event of a batch is tried, and the loop goes on unless the answer
was a transient error. -/
theorem loop_cons_of_mem (hk : Rows.Keyed OutboxEvent.id rows) (hmem : event ∈ rows)
    (hunpub : event.published = false) :
    (relayBatch.loop config poll (event.id :: eventIds) n).run rows =
      let rows' := Rows.update OutboxEvent.id event.id (outcome config poll) rows
      match poll.publish event with
      | .ok _ => (relayBatch.loop config poll eventIds (n + 1)).run rows'
      | .error exc =>
        if isPermanent exc then (relayBatch.loop config poll eventIds n).run rows'
        else (.ok n, rows') := by
  have houtcome : ∀ f : OutboxEvent → OutboxEvent, outcome config poll event = f event →
      Rows.update OutboxEvent.id event.id f rows =
        Rows.update OutboxEvent.id event.id (outcome config poll) rows := by
    intro f hf
    refine Rows.update_congr fun row hrow hid => ?_
    rw [hk.eq_of_mem hrow hmem hid, hf]
  rw [loop_cons, relayOne_run hk hmem hunpub]
  cases hp : poll.publish event with
  | ok messageId => 
    simp only
    rw [houtcome _ (by simp [outcome, hp])]
  | error exc =>
    simp only
    rw [recordFailure_run hk hmem, houtcome _ (by simp [outcome, hp])]

theorem loop_run (hk : Rows.Keyed OutboxEvent.id rows) (hids : (events.map (·.id)).Nodup)
    (hmem : ∀ event ∈ events, event ∈ rows ∧ event.published = false) :
    (relayBatch.loop config poll (events.map (·.id)) n).run rows =
      (.ok (n + (tried poll events).countP poll.accepts),
        settled config poll (tried poll events) rows) := by
  induction events generalizing rows n with
  | nil => simp [relayBatch.loop, tried, settled_nil]; rfl
  | cons event events ih =>
    simp only [List.map_cons, List.nodup_cons] at hids
    obtain ⟨hrow, hunpub⟩ := hmem event List.mem_cons_self
    have hk' : Rows.Keyed OutboxEvent.id
        (Rows.update OutboxEvent.id event.id (outcome config poll) rows) :=
      hk.update fun _ => outcome_id
    have hmem' : ∀ later ∈ events, later ∈
        Rows.update OutboxEvent.id event.id (outcome config poll) rows ∧ later.published = false := by
      intro later hlater
      obtain ⟨hold, hlaterUnpub⟩ := hmem later (List.mem_cons_of_mem _ hlater)
      refine ⟨Rows.mem_update_of_ne hold fun hid => hids.1 ?_, hlaterUnpub⟩
      exact hid ▸ List.mem_map_of_mem hlater
    have hnew : event.id ∉ (tried poll events).map (·.id) := fun h =>
      hids.1 ((tried_sublist.map _).subset h)
    rw [List.map_cons, loop_cons_of_mem hk hrow hunpub, tried]
    cases hp : poll.publish event with
    | ok messageId =>
      have hacc : poll.accepts event = true := by simp [Poll.accepts, hp, Except.isOk, Except.toBool]
      simp only [ih hk' hids.2 hmem', List.countP_cons, hacc, ↓reduceIte, settled_cons hnew]
      rw [Nat.add_assoc, Nat.add_comm 1]
    | error exc =>
      have hacc : poll.accepts event = false := by simp [Poll.accepts, hp, Except.isOk, Except.toBool]
      cases hperm : isPermanent exc with
      | true => simp [hperm, ih hk' hids.2 hmem', hacc, settled_cons hnew]
      | false => simp [hperm, hacc, settled_cons, settled_nil]

-- ---------------------------------------------------------------------------
-- The batch
-- ---------------------------------------------------------------------------

def batch (config : Config) (poll : Poll) (rows : List OutboxEvent) : List OutboxEvent :=
  (pendingRows config.maxAttempts (poll.scan rows)).take config.batchSize

theorem mem_batch (h : row ∈ batch config poll rows) :
    row ∈ rows ∧ Selectable config.maxAttempts row := by
  obtain ⟨hscan, hsel⟩ := mem_pendingRows.mp (List.mem_of_mem_take h)
  exact ⟨(poll.scan_perm rows).mem_iff.mp hscan, hsel⟩

theorem batch_keyed (hk : Rows.Keyed OutboxEvent.id rows) :
    Rows.Keyed OutboxEvent.id (batch config poll rows) := by
  refine List.Nodup.sublist ((List.take_sublist ..).map _) ?_
  have hperm := List.perm_insertionSort (fun s t : OutboxEvent => s.createdAt ≤ t.createdAt)
    ((poll.scan rows).filter (Selectable config.maxAttempts))
  refine (hperm.map _).nodup_iff.mpr (List.Nodup.sublist (List.filter_sublist.map _) ?_)
  exact ((poll.scan_perm rows).map _).nodup_iff.mpr hk

/-- One poll tries the oldest selectable rows up to the batch size, stopping at
the first transient failure, and leaves every other row as it was. -/
theorem relayBatch_run (hk : Rows.Keyed OutboxEvent.id rows) :
    (relayBatch config poll).run rows =
      (.ok ((tried poll (batch config poll rows)).countP poll.accepts, (batch config poll rows).length),
        settled config poll (tried poll (batch config poll rows)) rows) := by
  have hloop : (relayBatch.loop config poll ((batch config poll rows).map (·.id)) 0).run rows = _ :=
    loop_run hk (batch_keyed hk) fun event hevent =>
      (mem_batch hevent).imp_right fun hsel : Selectable _ event => hsel.1
  have hread : (relayBatch config poll).run rows =
      (if ((batch config poll rows).map (·.id)).isEmpty then pure (0, 0) else do
        let published ← relayBatch.loop config poll ((batch config poll rows).map (·.id)) 0
        return (published, ((batch config poll rows).map (·.id)).length) : Db (Nat × Nat)).run rows := rfl
  rw [hread]
  cases hb : batch config poll rows with
  | nil => simp [tried, settled_nil]; rfl
  | cons event events =>
    rw [if_neg (by simp), bind_run, ← hb, hloop, List.length_map, Nat.zero_add]
    rfl

theorem afterPoll_eq (hk : Rows.Keyed OutboxEvent.id rows) :
    afterPoll config poll rows = settled config poll (tried poll (batch config poll rows)) rows := by
  rw [afterPoll, relayBatch_run hk]

-- ---------------------------------------------------------------------------
-- Row by row
-- ---------------------------------------------------------------------------

/-- The first `limit` selectable rows in `created_at` order. -/
structure FirstSelectable (maxAttempts limit : Nat) (rows batch : List OutboxEvent) : Prop where
  selectable : ∀ row ∈ batch, row ∈ rows ∧ Selectable maxAttempts row
  nodup : batch.Nodup
  length : batch.length = min limit (rows.countP (Selectable maxAttempts))
  ordered : batch.Pairwise (·.createdAt ≤ ·.createdAt)
  oldest : ∀ row ∈ rows, Selectable maxAttempts row → row ∉ batch →
    ∀ first ∈ batch, first.createdAt ≤ row.createdAt

def Poll.transient (poll : Poll) (event : OutboxEvent) : Bool :=
  match poll.publish event with
  | .ok _ => false
  | .error exc => !isPermanent exc

/-- What a poll makes of a row when position `p` of its batch is the first
transient failure. -/
structure Effect (maxAttempts : Nat) (poll : Poll) (batch : List OutboxEvent) (p : Nat)
    (row row' : OutboxEvent) : Prop where
  published : ∀ messageId, row ∈ batch.take p → poll.publish row = .ok messageId →
    row' = { row with published := true, publishedAt := some (poll.now row.id) }
  parked : ∀ exc, row ∈ batch.take p → poll.publish row = .error exc →
    row' = { row with
      attempts := row.attempts + 1
      lastError := some (failureReason exc)
      failedAt := some (poll.now row.id) }
  charged : ∀ exc, batch[p]? = some row → poll.publish row = .error exc →
    row' = { row with
      attempts := row.attempts + 1
      lastError := some (failureReason exc)
      failedAt := if maxAttempts ≤ row.attempts + 1 then some (poll.now row.id) else none }
  untouched : row ∉ batch.take (p + 1) → row' = row

theorem batch_firstSelectable (hk : Rows.Keyed OutboxEvent.id rows) :
    FirstSelectable config.maxAttempts config.batchSize rows (batch config poll rows) where
  selectable := fun row hmem => mem_batch hmem
  nodup := (batch_keyed hk).of_map _
  length := by
    rw [batch, List.length_take, pendingRows, List.length_insertionSort,
      ← List.countP_eq_length_filter, (poll.scan_perm rows).countP_eq]
  ordered := pendingRows_pairwise.sublist (List.take_sublist ..)
  oldest := by
    intro row hmem hsel hnot first hfirst
    have hpending : row ∈ pendingRows config.maxAttempts (poll.scan rows) :=
      mem_pendingRows.mpr ⟨(poll.scan_perm rows).mem_iff.mpr hmem, hsel⟩
    have hsorted := @pendingRows_pairwise config.maxAttempts (poll.scan rows)
    rw [← List.take_append_drop config.batchSize (pendingRows _ _)] at hpending hsorted
    exact (List.pairwise_append.mp hsorted).2.2 first hfirst row
      ((List.mem_append.mp hpending).resolve_left hnot)

theorem tried_eq_take : tried poll events = events.take (events.findIdx poll.transient + 1) := by
  induction events with
  | nil => rfl
  | cons event events ih =>
    rw [tried, List.findIdx_cons, List.take_succ_cons]
    cases hp : poll.publish event with
    | ok messageId => simp [Poll.transient, hp, ih]
    | error exc => cases hperm : isPermanent exc <;> simp [Poll.transient, hp, hperm, ih]

theorem countP_tried :
    (tried poll events).countP poll.accepts =
      (events.take (events.findIdx poll.transient)).countP poll.accepts := by
  induction events with
  | nil => rfl
  | cons event events ih =>
    rw [tried, List.findIdx_cons, List.countP_cons]
    cases hp : poll.publish event with
    | ok messageId => simp [Poll.transient, hp, ih, List.countP_cons]
    | error exc =>
      cases hperm : isPermanent exc <;>
        simp [Poll.transient, Poll.accepts, Except.isOk, Except.toBool, hp, hperm, ih]

theorem settle_of_tried (h : row ∈ events) : settle config poll events row = outcome config poll row :=
  if_pos (List.mem_map_of_mem h)

theorem settle_of_not_tried (hk : Rows.Keyed OutboxEvent.id rows) (hsub : ∀ event ∈ events, event ∈ rows)
    (hmem : row ∈ rows) (h : row ∉ events) : settle config poll events row = row := by
  refine if_neg fun hid => h ?_
  obtain ⟨event, hevent, heq⟩ := List.mem_map.mp hid
  rwa [← hk.eq_of_mem (hsub event hevent) hmem heq]

theorem mem_before (h : event ∈ events.take (events.findIdx poll.transient)) :
    event ∈ tried poll events ∧ poll.transient event = false := by
  rw [tried_eq_take]
  refine ⟨(List.take_subset_take_left _ (Nat.le_succ _)) h, ?_⟩
  obtain ⟨i, hi, rfl⟩ := List.mem_take_iff_getElem.mp h
  exact List.not_of_lt_findIdx (Nat.lt_of_lt_of_le hi (Nat.min_le_left ..))

theorem getElem_findIdx (h : events[events.findIdx poll.transient]? = some event) :
    event ∈ tried poll events ∧ poll.transient event = true := by
  obtain ⟨hlt, rfl⟩ := List.getElem?_eq_some_iff.mp h
  rw [tried_eq_take, List.take_succ_eq_append_getElem hlt]
  exact ⟨List.mem_append_right _ (List.mem_singleton_self _), List.findIdx_getElem⟩

theorem settle_effect (hk : Rows.Keyed OutboxEvent.id rows) (hmem : row ∈ rows) :
    Effect config.maxAttempts poll (batch config poll rows)
      ((batch config poll rows).findIdx poll.transient) row
      (settle config poll (tried poll (batch config poll rows)) row) := by
  constructor
  case published =>
    intro messageId hbefore hpublish
    rw [settle_of_tried (mem_before hbefore).1, outcome, hpublish]
    rfl
  case parked =>
    intro exc hbefore hpublish
    obtain ⟨htried, hperm⟩ := mem_before hbefore
    replace hperm : isPermanent exc = true := by simpa [Poll.transient, hpublish] using hperm
    rw [settle_of_tried htried, outcome, hpublish]
    simp [recordedFailure, hperm, OutboxEvent.park, OutboxEvent.countFailure]
  case charged =>
    intro exc hget hpublish
    obtain ⟨htried, hperm⟩ := getElem_findIdx hget
    replace hperm : isPermanent exc = false := by simpa [Poll.transient, hpublish] using hperm
    have hfailed : row.failedAt = none := (mem_batch (List.mem_of_getElem? hget)).2.2.1
    rw [settle_of_tried htried, outcome, hpublish]
    by_cases hlimit : config.maxAttempts ≤ row.attempts + 1
    · simp [recordedFailure, hperm, hlimit, OutboxEvent.park, OutboxEvent.countFailure]
    · simp [recordedFailure, hperm, hlimit, hfailed, OutboxEvent.countFailure]
  case untouched =>
    intro hnot
    rw [← tried_eq_take] at hnot
    exact settle_of_not_tried hk (fun event h => (mem_batch (tried_sublist.subset h)).1) hmem hnot

/-- One poll of a sole relay, row by row. -/
theorem relayBatch_effect (hk : Rows.Keyed OutboxEvent.id rows) :
    ∃ batch rows', FirstSelectable config.maxAttempts config.batchSize rows batch ∧
      (relayBatch config poll).run rows =
        (.ok ((batch.take (batch.findIdx poll.transient)).countP poll.accepts, batch.length), rows') ∧
      List.Forall₂ (Effect config.maxAttempts poll batch (batch.findIdx poll.transient)) rows rows' := by
  refine ⟨batch config poll rows, settled config poll (tried poll (batch config poll rows)) rows,
    batch_firstSelectable hk, ?_, ?_⟩
  · rw [relayBatch_run hk, countP_tried]
  · rw [settled, List.forall₂_map_right_iff, List.forall₂_same]
    exact fun row hmem => settle_effect hk hmem

/-- SNS accepts row 2, refuses row 4 for good and does not answer for the others. -/
def mixedPoll : Poll where
  scan := id
  scan_perm := fun _ => .refl _
  publish := fun row =>
    if row.id = ⟨2⟩ then .ok "message"
    else .error (if row.id = ⟨4⟩ then invalidParameter else connectTimeout)
  now := fun _ => placedAt

def mixedRows : List OutboxEvent :=
  [keyboardRow, { keyboardRow with id := ⟨4⟩ }, { keyboardRow with id := ⟨6⟩, attempts := 4 },
    { keyboardRow with id := ⟨8⟩ }]

theorem relayBatch_effect_mixed : ∃ batch rows', FirstSelectable 5 10 mixedRows batch ∧
    (relayBatch ⟨10, 5, false⟩ mixedPoll).run mixedRows = (.ok (1, 4), rows') ∧
    List.Forall₂ (Effect 5 mixedPoll batch (batch.findIdx mixedPoll.transient)) mixedRows rows' := by
  obtain ⟨batch, rows', hbatch, hrun, heffect⟩ :=
    @relayBatch_effect ⟨10, 5, false⟩ mixedPoll mixedRows (by decide)
  have hresult : ((relayBatch ⟨10, 5, false⟩ mixedPoll).run mixedRows).1 = .ok (1, 4) := rfl
  rw [hrun] at hresult
  exact ⟨batch, rows', hbatch, hresult ▸ hrun, heffect⟩

end OutboxFanout.Relay
