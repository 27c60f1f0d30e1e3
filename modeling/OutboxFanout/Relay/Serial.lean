import OutboxFanout.Lib.Path
import OutboxFanout.Relay.Progress
import OutboxFanout.Relay.Pending

/-!
# The polls of a lone relay are atomic

Step by step, `Relay/Interleaving.lean` runs the relay beside the order
requests; `relayBatch` runs a poll at once. While one relay is running and the
database answers it, every run of the first is one of the second: an order that
commits in the midst of a poll might as well have committed after it. What is
true of repeated polls is therefore true of the interleaved relay.
-/

namespace OutboxFanout.Relay

variable {config : Config} {poll : Poll}

-- ---------------------------------------------------------------------------
-- The answer for one row
-- ---------------------------------------------------------------------------

/-- The poll in which the publish of the row is answered so, and it is `now` then. -/
def Poll.answering (poll : Poll) (id : UUID) (answer : Except Exc String) (now : Datetime) : Poll where
  scan := poll.scan
  scan_perm := poll.scan_perm
  publish row := if row.id = id then answer else poll.publish row
  now other := if other = id then now else poll.now other

/-- What the answer makes of the row. -/
def answered (config : Config) (answer : Except Exc String) (now : Datetime) (row : OutboxEvent) :
    OutboxEvent :=
  match answer with
  | .ok _ => row.mark now
  | .error exc => recordedFailure config.maxAttempts exc (isPermanent exc) now row

/-- The loop goes on after this answer. -/
def goesOn : Except Exc String → Bool
  | .ok _ => true
  | .error exc => isPermanent exc

theorem outcome_eq : outcome config poll row =
    answered config (poll.publish row) (poll.now row.id) row := by
  unfold outcome answered
  cases poll.publish row <;> rfl

theorem outcome_answering_of_ne (hid : row.id ≠ eventId) :
    outcome config (poll.answering eventId answer now) row = outcome config poll row := by
  simp [outcome, Poll.answering, hid]

theorem tried_cons : tried poll (event :: events) =
    event :: if goesOn (poll.publish event) then tried poll events else [] := by
  rw [tried]
  cases poll.publish event <;> rfl

theorem tried_congr {poll' : Poll} (h : ∀ event ∈ events, poll'.publish event = poll.publish event) :
    tried poll' events = tried poll events := by
  induction events with
  | nil => rfl
  | cons event events ih =>
    rw [tried_cons, tried_cons, h event List.mem_cons_self,
      ih fun later hlater => h later (List.mem_cons_of_mem _ hlater)]

theorem settled_congr {poll' : Poll} (h : ∀ row, row.id ∈ events.map OutboxEvent.id →
    outcome config poll' row = outcome config poll row) :
    settled config poll' events rows = settled config poll events rows := by
  refine List.map_congr_left fun row _ => ?_
  unfold settle
  split
  · exact h row ‹_›
  · rfl

theorem settled_tried_congr {poll' : Poll} (hpublish : poll'.publish = poll.publish)
    (hnow : poll'.now = poll.now) :
    settled config poll' (tried poll' events) rows = settled config poll (tried poll events) rows := by
  rw [tried_congr fun event _ => congrFun hpublish event]
  exact settled_congr fun row _ => by simp only [outcome, hpublish, hnow]

theorem tried_answering (hid : eventId ∉ events.map OutboxEvent.id) :
    tried (poll.answering eventId answer now) events = tried poll events :=
  tried_congr fun event hmem => if_neg fun heq => hid (List.mem_map.mpr ⟨event, hmem, heq⟩)

theorem settled_answering (hid : eventId ∉ events.map OutboxEvent.id) :
    settled config (poll.answering eventId answer now) events rows = settled config poll events rows :=
  settled_congr fun _ hmem => outcome_answering_of_ne fun heq => hid (heq ▸ hmem)

/-- The first row is dealt with, and the rest unless the loop ends there. -/
theorem settled_tried_cons (hk : Rows.Keyed OutboxEvent.id rows) (hmem : event ∈ rows)
    (hid : event.id ∉ events.map OutboxEvent.id) :
    settled config poll (tried poll (event :: events)) rows =
      let rows' := Rows.update OutboxEvent.id event.id
        (answered config (poll.publish event) (poll.now event.id)) rows
      if goesOn (poll.publish event) then settled config poll (tried poll events) rows' else rows' := by
  have hrows : Rows.update OutboxEvent.id event.id (outcome config poll) rows =
      Rows.update OutboxEvent.id event.id
        (answered config (poll.publish event) (poll.now event.id)) rows :=
    Rows.update_congr fun row hrow heq => by rw [hk.eq_of_mem hrow hmem heq, outcome_eq]
  rw [tried_cons]
  cases goesOn (poll.publish event) with
  | true =>
    have htried : event.id ∉ (tried poll events).map OutboxEvent.id := fun hmem =>
      hid ((tried_sublist.map _).subset hmem)
    simp only [↓reduceIte, settled_cons htried, hrows]
  | false => simp [settled_cons, settled_nil, hrows]

/-- A poll of which the first row is answered so, and the rest like `poll`. -/
theorem settled_tried_answering (hk : Rows.Keyed OutboxEvent.id rows) (hmem : event ∈ rows)
    (hid : event.id ∉ events.map OutboxEvent.id) :
    settled config (poll.answering event.id answer now)
        (tried (poll.answering event.id answer now) (event :: events)) rows =
      let rows' := Rows.update OutboxEvent.id event.id (answered config answer now) rows
      if goesOn answer then settled config poll (tried poll events) rows' else rows' := by
  have hpublish : (poll.answering event.id answer now).publish event = answer := if_pos rfl
  have hnow : (poll.answering event.id answer now).now event.id = now := if_pos rfl
  have htried : event.id ∉ (tried poll events).map OutboxEvent.id := fun hmem =>
    hid ((tried_sublist.map _).subset hmem)
  simp only [settled_tried_cons hk hmem hid, hpublish, hnow, tried_answering hid, settled_answering htried]

/-- A row that is not of the batch may be there or not. -/
theorem settled_append (hid : row.id ∉ events.map OutboxEvent.id) :
    settled config poll events (rows ++ [row]) = settled config poll events rows ++ [row] := by
  simp [settled, settle, hid]

theorem map_id_settled : (settled config poll events rows).map (·.id) = rows.map (·.id) := by
  rw [settled, List.map_map]
  exact List.map_congr_left fun _ _ => settle_id

-- ---------------------------------------------------------------------------
-- The scan
-- ---------------------------------------------------------------------------

theorem perm_scanned {scan : List UUID} (hk : Rows.Keyed OutboxEvent.id rows)
    (hscan : scan.Perm (rows.map (·.id))) :
    (scan.filterMap fun key => rows.find? (·.id = key)).Perm rows := by
  refine (hscan.filterMap _).trans (.of_eq ?_)
  rw [List.filterMap_map]
  refine (List.filterMap_congr fun row hrow => ?_).trans List.filterMap_some
  exact find?_eq_of_mem hk hrow (by simp) (by simp)

/-- The same answers after another scan of these rows. -/
theorem exists_scanning {scanned : List OutboxEvent} (poll : Poll) (h : scanned.Perm rows) :
    ∃ poll' : Poll, poll'.scan rows = scanned ∧ poll'.publish = poll.publish ∧ poll'.now = poll.now := by
  classical
  refine ⟨{ poll with
    scan := fun other => if other = rows then scanned else other
    scan_perm := fun other => ?_ }, if_pos rfl, rfl, rfl⟩
  split
  next heq => exact heq ▸ h
  next => exact .refl other

-- ---------------------------------------------------------------------------
-- Polls and arrivals
-- ---------------------------------------------------------------------------

/-- The rows that arrive satisfy `E`. -/
def Arriving (E : OutboxEvent → Prop) (_ : Backlog) : PollAction → Prop
  | .poll _ => True
  | .arrive row => E row

theorem reaches_polled {b : Backlog} {scanned : List OutboxEvent}
    (h : (pollMachine config).Reaches (Arriving E) b₀ b) (hk : Rows.Keyed OutboxEvent.id b.rows)
    (hscan : scanned.Perm b.rows) (poll : Poll) : (pollMachine config).Reaches (Arriving E) b₀
      ⟨settled config poll (tried poll ((pendingRows config.maxAttempts scanned).take config.batchSize))
        b.rows, b.polls + 1⟩ := by
  obtain ⟨poll', rfl, hpublish, hnow⟩ := exists_scanning poll hscan
  refine .next (.poll poll') h trivial ?_
  have hrows := (@afterPoll_eq config poll' b.rows hk).trans (settled_tried_congr hpublish hnow)
  exact congrArg (fun rows => some (Backlog.mk rows (b.polls + 1))) hrows

theorem reaches_arrived {b : Backlog} (h : (pollMachine config).Reaches (Arriving E) b₀ b) (hrow : E row)
    (hnew : row.id ∉ b.rows.map (·.id)) :
    (pollMachine config).Reaches (Arriving E) b₀ ⟨b.rows ++ [row], b.polls⟩ :=
  .next (.arrive row) h hrow (if_neg hnew)

end OutboxFanout.Relay

namespace OutboxFanout.Outbox

open Relay

-- ---------------------------------------------------------------------------
-- One relay beside the order requests
-- ---------------------------------------------------------------------------

/-- The database answers; SNS may answer anything. -/
def RelayAction.Answered : RelayAction → Prop
  | .poll _ | .endPoll | .select | .publish _ | .commit .done _ | .record => True
  | .start _ | .kill | .selectFails _ | .commit _ _ | .recordFails _ => False

/-- No other relay moves, and the rows that are committed satisfy `E`. -/
def Lone (r : RelayId) (E : OutboxEvent → Prop) (s : State) : Action → Prop
  | .relay r' action => r' = r ∧ action.Answered
  | .commitOrder q =>
    match s.requests q with
    | .flushed _ row => E row
    | _ => True
  | .post _ _ _ _ _ | .flush _ _ _ | .abort _ => True
  | .clearFailedAt _ => False

instance : DecidablePred RelayAction.Answered
  | .poll _ | .endPoll | .select | .publish _ | .commit .done _ | .record => .isTrue trivial
  | .start _ | .kill | .selectFails _ | .commit (.refused _) _ | .commit (.lost _) _ | .recordFails _ =>
    .isFalse id

instance [DecidablePred E] : DecidablePred (Lone r E s)
  | .relay r' action => inferInstanceAs (Decidable (r' = r ∧ action.Answered))
  | .commitOrder q => by
    simp only [Lone]
    split <;> infer_instance
  | .post _ _ _ _ _ | .flush _ _ _ | .abort _ => .isTrue trivial
  | .clearFailedAt _ => .isFalse id

/-- `relay_batch` begins. -/
def isPoll : Action → Bool
  | .relay _ (.poll _) => true
  | _ => false

def RelayPc.isIdle : RelayPc → Bool
  | .idle => true
  | _ => false

theorem RelayPc.isIdle_iff : RelayPc.isIdle pc = true ↔ pc = .idle := by
  cases pc <;> simp [RelayPc.isIdle]

/-- Every relay is running and between two polls. -/
def State.idling (config : Config) (rows : List OutboxEvent) : State :=
  { State.holding rows with relays := fun _ => ⟨config, .idle⟩ }

theorem State.idling_inv (h : Rows.Keyed OutboxEvent.id rows) : Inv (.idling config rows) where
  keyed := h
  locks key r := by simp [State.idling, State.holding, RelayPc.holds]
  held r event h := by simp [State.idling, RelayPc.event?] at h

/-- However the rest of the batch is answered, the table is then one that atomic
polls and arrivals lead to. -/
structure Serial (config : Config) (E : OutboxEvent → Prop) (b₀ : Backlog) (n : Nat) (r : RelayId)
    (events : List OutboxEvent) (s : State) : Prop where
  inv : Inv s
  config_eq : (s.relays r).config = config
  others : ∀ r', r' ≠ r → (s.relays r').pc.holds = none
  running : (s.relays r).running = true
  steady : ∀ eventId ids, (s.relays r).pc ≠ .skipped eventId ids
  batch_eq : batchIds (s.relays r).pc = events.map (·.id)
  nodup : (events.map (·.id)).Nodup
  fresh : ∀ event ∈ events, event ∈ s.outbox ∧ event.published = false
  serial : ∀ poll, (pollMachine config).Reaches (Arriving E) b₀
    ⟨settled config poll (tried poll events) s.outbox, n⟩

variable {config : Config} {E : OutboxEvent → Prop} {b₀ : Backlog} {events rest : List OutboxEvent}
  {s s' : State}

theorem select_eq (hpc : (s.relays r).pc = .batch (event.id :: ids)) (hfree : s.locks event.id = none)
    (hfind : s.outbox.find? (fun row => row.id = event.id ∧ row.published = false) = some event) :
    relayStep s r .select = some ((s.lock event.id r).goto r (.locked event ids)) := by
  simp only [relayStep, hpc, hfree, hfind]

theorem free_of_lone (hi : Inv s) (hothers : ∀ r', r' ≠ r → (s.relays r').pc.holds = none)
    (hpc : (s.relays r).pc.holds = none) (key : UUID) : s.locks key = none := by
  cases hlock : s.locks key with
  | none => rfl
  | some r' =>
    have hholds := (hi.locks key r').mp hlock
    by_cases hr : r' = r
    · rw [← hr, hholds] at hpc
      cases hpc
    · rw [hothers r' hr] at hholds
      cases hholds

/-- The relay goes on with the same row. -/
theorem Serial.keep (h : Serial config E b₀ n r events s) (hinv : Inv s') (houtbox : s'.outbox = s.outbox)
    (hothers : ∀ r', r' ≠ r → s'.relays r' = s.relays r')
    (hrelay : s'.relays r = ⟨(s.relays r).config, pc⟩) (hids : batchIds pc = batchIds (s.relays r).pc)
    (hpc : pc ≠ .down) (hsteady : ∀ eventId ids, pc ≠ .skipped eventId ids) :
    Serial config E b₀ n r events s' where
  inv := hinv
  config_eq := by rw [hrelay]; exact h.config_eq
  others r' hr := by rw [hothers r' hr]; exact h.others r' hr
  running := by
    rw [hrelay]
    cases pc <;> first | rfl | exact absurd rfl hpc
  steady := by rw [hrelay]; exact hsteady
  batch_eq := by rw [hrelay]; exact hids.trans h.batch_eq
  nodup := h.nodup
  fresh := houtbox ▸ h.fresh
  serial := houtbox ▸ h.serial

/-- The row is dealt with: the relay goes on with the rest, or gives up the batch. -/
theorem Serial.next (h : Serial config E b₀ n r (event :: rest) s) (answer : Except Exc String)
    (now : Datetime) (hinv : Inv s')
    (houtbox : s'.outbox = Rows.update OutboxEvent.id event.id (answered config answer now) s.outbox)
    (hothers : ∀ r', r' ≠ r → s'.relays r' = s.relays r')
    (hrelay : s'.relays r = ⟨(s.relays r).config,
      if goesOn answer then .batch (rest.map (·.id)) else .idle⟩) :
    Serial config E b₀ n r (if goesOn answer then rest else []) s' := by
  obtain ⟨hid, hnodup⟩ := List.nodup_cons.mp h.nodup
  have hserial := fun poll : Poll => h.serial (poll.answering event.id answer now)
  simp only [settled_tried_answering h.inv.keyed (h.fresh event List.mem_cons_self).1 hid,
    ← houtbox] at hserial
  have hfresh : ∀ later ∈ rest, later ∈ s'.outbox ∧ later.published = false := by
    intro later hlater
    obtain ⟨hmem, hunpub⟩ := h.fresh later (List.mem_cons_of_mem _ hlater)
    exact ⟨houtbox ▸ Rows.mem_update_of_ne hmem fun heq => hid (List.mem_map.mpr ⟨later, hlater, heq⟩),
      hunpub⟩
  have hgo : ∀ pc, s'.relays r = ⟨(s.relays r).config, pc⟩ → pc = .batch (rest.map (·.id)) ∨ pc = .idle →
      (s'.relays r).config = config ∧ (s'.relays r).running = true ∧
        ∀ eventId ids, (s'.relays r).pc ≠ .skipped eventId ids := by
    intro pc heq hpc
    rw [heq]
    rcases hpc with rfl | rfl <;> exact ⟨h.config_eq, rfl, nofun⟩
  have hothers' : ∀ r', r' ≠ r → (s'.relays r').pc.holds = none := fun r' hr => by
    rw [hothers r' hr]
    exact h.others r' hr
  cases hgoes : goesOn answer with
  | true =>
    simp only [hgoes, ↓reduceIte] at hrelay hserial ⊢
    obtain ⟨hconfig, hrun, hsteady⟩ := hgo _ hrelay (.inl rfl)
    exact ⟨hinv, hconfig, hothers', hrun, hsteady, by rw [hrelay]; rfl, hnodup, hfresh, hserial⟩
  | false =>
    simp only [hgoes, Bool.false_eq_true, ↓reduceIte] at hrelay hserial ⊢
    obtain ⟨hconfig, hrun, hsteady⟩ := hgo _ hrelay (.inr rfl)
    refine ⟨hinv, hconfig, hothers', hrun, hsteady, by rw [hrelay]; rfl, List.nodup_nil, nofun,
      fun poll => ?_⟩
    rw [show tried poll [] = [] from rfl, settled_nil]
    exact hserial poll

theorem Serial.head (h : Serial config E b₀ n r events s)
    (hids : batchIds (s.relays r).pc = eventId :: ids) :
    ∃ event rest, events = event :: rest ∧ event.id = eventId ∧ ids = rest.map (·.id) := by
  obtain ⟨event, rest, hevents, hid, hrest⟩ := List.map_eq_cons_iff.mp (h.batch_eq.symm.trans hids)
  exact ⟨event, rest, hevents, hid, hrest.symm⟩

theorem Serial.settled (h : Serial config E b₀ n r events s) (hids : batchIds (s.relays r).pc = []) :
    (pollMachine config).Reaches (Arriving E) b₀ ⟨s.outbox, n⟩ := by
  obtain rfl := List.map_eq_nil_iff.mp (h.batch_eq.symm.trans hids)
  have hserial := h.serial (uniformPoll (.ok ""))
  rwa [show tried _ [] = [] from rfl, settled_nil] at hserial

theorem Serial.polled (h : Serial config E b₀ n r events s) (hpc : (s.relays r).pc = .idle)
    {scan : List UUID} (hscan : scan.Perm (s.outbox.map (·.id))) : ∃ events',
      Serial config E b₀ (n + 1) r events' (s.goto r (.batch (pendingEventIds
        (s.relays r).config.maxAttempts (s.relays r).config.batchSize
        (scan.filterMap fun id => s.outbox.find? (·.id = id))))) := by
  have hperm := perm_scanned h.inv.keyed hscan
  have hreach := h.settled (by rw [hpc]; rfl)
  have hbatch : ∀ event ∈ (pendingRows config.maxAttempts _).take config.batchSize,
      event ∈ s.outbox ∧ event.published = false := fun event hmem => by
    obtain ⟨hscanned, hsel⟩ := mem_pendingRows.mp (List.mem_of_mem_take hmem)
    exact ⟨hperm.mem_iff.mp hscanned, hsel.1⟩
  refine ⟨_, h.inv.move (by rw [hpc]; rfl) rfl, ?_, fun r' hr => ?_, ?_, ?_, ?_, ?_, hbatch, fun poll =>
    reaches_polled hreach h.inv.keyed hperm poll⟩
  · rw [State.goto_self]
    exact h.config_eq
  · rw [State.goto_of_ne hr]
    exact h.others r' hr
  · rw [State.goto_self]
    rfl
  · rw [State.goto_self]
    nofun
  · rw [State.goto_self, h.config_eq]
    exact pendingEventIds_eq
  · obtain ⟨poll, hscanned, -⟩ := exists_scanning (uniformPoll (.ok "")) hperm
    have hkeyed := @batch_keyed config poll _ h.inv.keyed
    rwa [batch, hscanned] at hkeyed

theorem Serial.relayStep (h : Serial config E b₀ n r events s) (hans : action.Answered)
    (hs : relayStep s r action = some s') : ∃ events',
      Serial config E b₀ (n + if isPoll (.relay r action) then 1 else 0) r events' s' := by
  have hstep := relayStep_cases hs
  have hinv := h.inv.relayStep hstep
  have hothers : ∀ r', r' ≠ r → s'.relays r' = s.relays r' := fun r' hr => hstep.others hr
  cases hstep with
  | start | kill | selectFails | markRefused | markLost | recordFails | recordRefused => exact hans.elim
  | poll hpc hscan => exact h.polled hpc hscan
  | endPoll hpc =>
    exact ⟨events, h.keep hinv rfl hothers (State.goto_self ..) (by rw [hpc]; rfl) nofun nofun⟩
  | lock hpc =>
    exact ⟨events, h.keep hinv rfl hothers (State.goto_self ..) (by rw [hpc]; rfl) nofun nofun⟩
  | skip hpc =>
    -- nobody else holds the row, and it is still unpublished
    obtain ⟨event, rest, rfl, rfl, -⟩ := h.head (by rw [hpc]; rfl)
    obtain ⟨hmem, hunpub⟩ := h.fresh event List.mem_cons_self
    have hfree := free_of_lone h.inv h.others (by rw [hpc]; rfl) event.id
    have hfind := find?_eq_of_mem (p := fun row => row.id = event.id ∧ row.published = false)
      h.inv.keyed hmem (by simp [hunpub]) (by simp +contextual)
    have hpcs := congrArg (fun t : State => (t.relays r).pc)
      (Option.some.inj ((select_eq hpc hfree hfind).symm.trans hs))
    simp at hpcs
  | skipDone hpc => exact absurd hpc (h.steady _ _)
  | skipFails hpc => exact absurd hpc (h.steady _ _)
  | accepted hpc =>
    exact ⟨events, h.keep hinv rfl hothers (State.goto_self ..) (by rw [hpc]; rfl) nofun nofun⟩
  | refused hpc =>
    exact ⟨events, h.keep hinv rfl hothers (State.goto_self ..) (by rw [hpc]; rfl) nofun nofun⟩
  | lostAck hpc =>
    exact ⟨events, h.keep hinv rfl hothers (State.goto_self ..) (by rw [hpc]; rfl) nofun nofun⟩
  | mark hpc =>
    obtain ⟨event, rest, rfl, hid, rfl⟩ := h.head (by rw [hpc]; rfl)
    exact ⟨_, h.next (.ok "") _ hinv (by rw [hid]; rfl) hothers (State.goto_self ..)⟩
  | record hpc =>
    exact ⟨events, h.keep hinv rfl hothers (State.goto_self ..) (by rw [hpc]; rfl) nofun nofun⟩
  | recordMissing hpc hmissing =>
    obtain ⟨event, rest, rfl, rfl, -⟩ := h.head (by rw [hpc]; rfl)
    exact absurd (List.mem_map_of_mem (h.fresh event List.mem_cons_self).1) hmissing
  | @recorded _ exc _ _ now outcome hpc hout =>
    obtain ⟨rfl, rfl⟩ | ⟨⟨error, rfl⟩, -⟩ := hout
    · obtain ⟨event, rest, rfl, rfl, rfl⟩ := h.head (by rw [hpc]; rfl)
      exact ⟨_, h.next (.error exc) now hinv (by rw [← h.config_eq]; rfl) hothers (State.goto_self ..)⟩
    · exact hans.elim

/-- An order commits: whatever the rest of the batch does, it might as well have come after. -/
theorem Serial.committed (h : Serial config E b₀ n r events s) (hrow : E row)
    (hnew : row.id ∉ s.outbox.map (·.id)) (hinv : Inv s') (houtbox : s'.outbox = s.outbox ++ [row])
    (hrelays : s'.relays = s.relays) : Serial config E b₀ n r events s' := by
  have hfree : ∀ poll, row.id ∉ (tried poll events).map (·.id) := fun poll hmem => by
    obtain ⟨event, hevent, heq⟩ := List.mem_map.mp ((tried_sublist.map _).subset hmem)
    exact hnew (heq ▸ List.mem_map_of_mem (h.fresh event hevent).1)
  refine ⟨hinv, hrelays ▸ h.config_eq, hrelays ▸ h.others, hrelays ▸ h.running, hrelays ▸ h.steady,
    hrelays ▸ h.batch_eq, h.nodup, fun event hevent => ?_, fun poll => ?_⟩
  · obtain ⟨hmem, hunpub⟩ := h.fresh event hevent
    exact ⟨houtbox ▸ List.mem_append_left _ hmem, hunpub⟩
  · rw [houtbox, settled_append (hfree poll)]
    exact reaches_arrived (h.serial poll) hrow (by rwa [map_id_settled])

theorem Serial.step (h : Serial config E b₀ n r events s) (hlone : Lone r E s action)
    (hs : step s action = some s') : ∃ events',
      Serial config E b₀ (n + if isPoll action then 1 else 0) r events' s' := by
  have hinv := h.inv.step (step_cases hs)
  cases step_cases hs with
  | relay =>
    obtain ⟨rfl, hans⟩ := hlone
    exact h.relayStep hans hs
  | post | flush | flushFails | abort => exact ⟨events, { h with inv := hinv }⟩
  | commitOrder hq hfree => exact ⟨events, h.committed (by simpa [Lone, hq] using hlone) hfree.2 hinv rfl rfl⟩
  | clearFailedAt => exact hlone.elim

theorem exists_serial (hi : Inv s) (hothers : ∀ r', r' ≠ r → (s.relays r').pc.holds = none)
    (hpc : (s.relays r).pc = .idle) (hpath : machine.Path s steps s')
    (hlone : Machine.Along (Lone r E) steps) : ∃ events,
      Serial (s.relays r).config E ⟨s.outbox, 0⟩ (steps.countP (isPoll ·.2)) r events s' := by
  induction hpath with
  | refl =>
    refine ⟨[], hi, rfl, hothers, by simp [RelayProcess.running, hpc], by simp [hpc], by simp [hpc, batchIds],
      List.nodup_nil, nofun, fun poll => ?_⟩
    rw [show tried poll [] = [] from rfl, settled_nil]
    exact .refl
  | next a _ hs ih =>
    obtain ⟨hstep, hrest⟩ := Machine.along_cons.mp hlone
    obtain ⟨events, hserial⟩ := ih hrest
    rw [List.countP_cons]
    exact hserial.step hstep hs

/-- A run of a lone relay beside the order requests, seen where no poll is
under way, is a run of atomic polls and arrivals. -/
theorem serial_of_path (hi : Inv s) (hothers : ∀ r', r' ≠ r → (s.relays r').pc.holds = none)
    (hpc : (s.relays r).pc = .idle) (hpath : machine.Path s steps s')
    (hlone : Machine.Along (Lone r E) steps) (hpc' : (s'.relays r).pc = .idle) :
    (pollMachine (s.relays r).config).Reaches (Arriving E) ⟨s.outbox, 0⟩
      ⟨s'.outbox, steps.countP (isPoll ·.2)⟩ := by
  obtain ⟨events, hserial⟩ := exists_serial hi hothers hpc hpath hlone
  exact hserial.settled (by rw [hpc']; rfl)

/-- A second order commits while the relay has the first one's row in hand. -/
theorem serial_of_path_second : ∃ s s' : State, s.outbox.length = 1 ∧ s'.outbox.length = 2 ∧
    ∃ n, (pollMachine ⟨10, 5, false⟩).Reaches (Arriving fun _ => True) ⟨s.outbox, 0⟩ ⟨s'.outbox, n⟩ := by
  obtain ⟨steps, s', hpath, hlone, -, hlength, hidle⟩ := machine.exists_path (C := Lone 0 fun _ => True)
    (s := .idling ⟨10, 5, false⟩ [keyboardRow])
    [.relay 0 (.poll [⟨2⟩]), .relay 0 .select, .post 0 false ⟨3⟩ placedAt keyboardOrder,
      .flush 0 ⟨4⟩ placedAt, .commitOrder 0, .relay 0 (.publish .accepted),
      .relay 0 (.commit .done placedAt), .relay 0 .endPoll]
    (fun s => s.outbox.length = 2 ∧ (s.relays 0).pc.isIdle = true) (by decide)
  exact ⟨_, s', rfl, hlength, _, serial_of_path (State.idling_inv (by decide)) (fun _ _ => rfl) rfl hpath
    hlone (RelayPc.isIdle_iff.mp hidle)⟩

-- ---------------------------------------------------------------------------
-- Every poll is a run
-- ---------------------------------------------------------------------------

/-- Steps of the relay alone, up to `pc`. -/
structure Goes (r : RelayId) (s s' : State) (pc : RelayPc) : Prop where
  reaches : machine.Reaches (Lone r fun _ => False) s s'
  relay : s'.relays r = { s.relays r with pc }
  others : ∀ r', r' ≠ r → s'.relays r' = s.relays r'

theorem Goes.trans (h : Goes r s t pc) (h' : Goes r t u pc') : Goes r s u pc' where
  reaches := h.reaches.trans h'.reaches
  relay := by rw [h'.relay, h.relay]
  others r' hr := (h'.others r' hr).trans (h.others r' hr)

theorem Goes.pc_eq (h : Goes r s s' pc) : (s'.relays r).pc = pc := by
  rw [h.relay]

theorem goes_step (action : RelayAction) (hs : Outbox.relayStep s r action = some s')
    (hans : action.Answered) (hrelay : s'.relays r = { s.relays r with pc }) : Goes r s s' pc :=
  ⟨.next (.relay r action) .refl ⟨rfl, hans⟩ hs, hrelay, fun _ hr => (relayStep_cases hs).others hr⟩

section
variable {s : State} {r : RelayId}

theorem exists_poll (hpc : (s.relays r).pc = .idle) {scan : List UUID}
    (hscan : scan.Perm (s.outbox.map (·.id))) : ∃ t, Goes r s t (.batch (pendingEventIds
        (s.relays r).config.maxAttempts (s.relays r).config.batchSize
        (scan.filterMap fun key => s.outbox.find? (·.id = key)))) ∧
      t.outbox = s.outbox ∧ t.locks = s.locks :=
  ⟨_, goes_step (.poll scan) (by simp [Outbox.relayStep, hpc, hscan]) trivial
    (State.goto_self ..), rfl, rfl⟩

theorem goes_endPoll (hpc : (s.relays r).pc = .batch []) : Goes r s (s.goto r .idle) .idle :=
  goes_step .endPoll (by simp [Outbox.relayStep, hpc]) trivial (State.goto_self ..)

theorem goes_lock (hpc : (s.relays r).pc = .batch (event.id :: ids)) (hfree : s.locks event.id = none)
    (hfind : s.outbox.find? (fun row => row.id = event.id ∧ row.published = false) = some event) :
    Goes r s ((s.lock event.id r).goto r (.locked event ids)) (.locked event ids) :=
  goes_step .select (select_eq hpc hfree hfind) trivial (State.goto_self ..)

theorem goes_accept (hpc : (s.relays r).pc = .locked event ids) :
    Goes r s ((s.note (.accepted event)).goto r (.accepted event ids)) (.accepted event ids) :=
  goes_step (.publish .accepted) (by simp [Outbox.relayStep, hpc]) trivial (State.goto_self ..)

theorem goes_mark (hpc : (s.relays r).pc = .accepted event ids)
    (hcrash : (s.relays r).config.crashAfterPublish = false) (now : Datetime) :
    Goes r s (((s.write event.id (·.mark now)).unlock event.id).goto r (.batch ids)) (.batch ids) :=
  goes_step (.commit .done now) (by simp [Outbox.relayStep, hpc, hcrash]) trivial
    (State.goto_self ..)

theorem goes_refuse (hpc : (s.relays r).pc = .locked event ids) (exc : Exc) :
    Goes r s ((s.unlock event.id).goto r (.failed event.id exc ids)) (.failed event.id exc ids) :=
  goes_step (.publish (.refused exc)) (by simp [Outbox.relayStep, hpc]) trivial (State.goto_self ..)

theorem goes_record (hpc : (s.relays r).pc = .failed eventId exc ids) (hfree : s.locks eventId = none)
    (hfind : s.outbox.find? (fun row => row.id = eventId) = some row) :
    Goes r s ((s.lock eventId r).goto r (.recording eventId exc ids)) (.recording eventId exc ids) :=
  goes_step .record (by simp only [Outbox.relayStep, hpc, hfree, hfind]) trivial
    (State.goto_self ..)

theorem goes_recorded (hpc : (s.relays r).pc = .recording eventId exc ids) (now : Datetime) :
    Goes r s ((((s.write eventId (recordedFailure (s.relays r).config.maxAttempts exc (isPermanent exc)
      now)).unlock eventId).note (.recorded eventId (isPermanent exc))).goto r
        (if isPermanent exc then .batch ids else .idle)) (if isPermanent exc then .batch ids else .idle) :=
  goes_step (.commit .done now) (by simp [Outbox.relayStep, hpc]) trivial (State.goto_self ..)

end

/-- One row is tried with this answer. -/
theorem exists_answered (hk : Rows.Keyed OutboxEvent.id s.outbox) (hlocks : s.locks = fun _ => none)
    (hcrash : (s.relays r).config.crashAfterPublish = false)
    (hpc : (s.relays r).pc = .batch (event.id :: ids)) (hmem : event ∈ s.outbox)
    (hunpub : event.published = false) (answer : Except Exc String) (now : Datetime) : ∃ s',
      Goes r s s' (if goesOn answer then .batch ids else .idle) ∧ s'.locks = s.locks ∧
        s'.outbox = Rows.update OutboxEvent.id event.id (answered (s.relays r).config answer now) s.outbox := by
  have hfind := find?_eq_of_mem (p := fun row => row.id = event.id ∧ row.published = false)
    hk hmem (by simp [hunpub]) (by simp +contextual)
  have hrow := find?_eq_of_mem (p := fun row => row.id = event.id) hk hmem (by simp) (by simp)
  have hlocked := goes_lock hpc (congrFun hlocks _) hfind
  cases answer with
  | ok messageId =>
    have haccepted := hlocked.trans (goes_accept hlocked.pc_eq)
    have hmarked := goes_mark haccepted.pc_eq (by rw [haccepted.relay]; exact hcrash) now
    refine ⟨_, haccepted.trans hmarked, ?_, rfl⟩
    simp [State.unlock, State.lock, hlocks]
  | error exc =>
    have hfailed := hlocked.trans (goes_refuse hlocked.pc_eq exc)
    have hrecording := hfailed.trans (goes_record hfailed.pc_eq (by simp [State.unlock]) hrow)
    refine ⟨_, hrecording.trans (goes_recorded hrecording.pc_eq now), ?_, ?_⟩
    · simp [State.unlock, State.lock, hlocks]
    · rw [hrecording.relay]
      rfl

/-- The rest of a batch is tried. -/
theorem exists_tried (poll : Poll) (hk : Rows.Keyed OutboxEvent.id s.outbox) (hlocks : s.locks = fun _ => none)
    (hcrash : (s.relays r).config.crashAfterPublish = false)
    (hpc : (s.relays r).pc = .batch (events.map (·.id))) (hnodup : (events.map (·.id)).Nodup)
    (hfresh : ∀ event ∈ events, event ∈ s.outbox ∧ event.published = false) : ∃ s',
      Goes r s s' .idle ∧ s'.locks = s.locks ∧
        s'.outbox = settled (s.relays r).config poll (tried poll events) s.outbox := by
  induction events generalizing s with
  | nil => exact ⟨_, goes_endPoll hpc, rfl, settled_nil.symm⟩
  | cons event events ih =>
    obtain ⟨hid, hnodup⟩ := List.nodup_cons.mp hnodup
    obtain ⟨hmem, hunpub⟩ := hfresh event List.mem_cons_self
    obtain ⟨t, hgone, hlocks', houtbox⟩ := exists_answered hk hlocks hcrash hpc hmem hunpub
      (poll.publish event) (poll.now event.id)
    rw [settled_tried_cons hk hmem hid, ← houtbox]
    cases hgoes : goesOn (poll.publish event) with
    | false =>
      rw [hgoes, if_neg Bool.false_ne_true] at hgone
      exact ⟨t, hgone, hlocks', by simp⟩
    | true =>
      rw [hgoes, if_pos rfl] at hgone
      have hkeyed : Rows.Keyed OutboxEvent.id t.outbox :=
        houtbox ▸ hk.update fun _ => by unfold answered; split <;> [rfl; exact recordedFailure_id]
      have hfresh' : ∀ later ∈ events, later ∈ t.outbox ∧ later.published = false := fun later hlater => by
        obtain ⟨hold, hunpub⟩ := hfresh later (List.mem_cons_of_mem _ hlater)
        exact ⟨houtbox ▸ Rows.mem_update_of_ne hold fun heq =>
          hid (List.mem_map.mpr ⟨later, hlater, heq⟩), hunpub⟩
      have hconfig : (t.relays r).config = (s.relays r).config := by rw [hgone.relay]
      obtain ⟨s', hrest, hlocks'', houtbox'⟩ := ih hkeyed (hlocks'.trans hlocks)
        (hconfig ▸ hcrash) hgone.pc_eq hnodup hfresh'
      exact ⟨s', hgone.trans hrest, hlocks''.trans hlocks', by rw [houtbox', hconfig]; rfl⟩

/-- A relay that stands between two polls can make any poll. -/
theorem exists_polled (hk : Rows.Keyed OutboxEvent.id s.outbox) (hlocks : s.locks = fun _ => none)
    (hcrash : (s.relays r).config.crashAfterPublish = false) (hpc : (s.relays r).pc = .idle) (poll : Poll) :
    ∃ s', Goes r s s' .idle ∧ s'.locks = s.locks ∧
      s'.outbox = afterPoll (s.relays r).config poll s.outbox := by
  have hscanned : ((poll.scan s.outbox).map (·.id)).filterMap (fun key => s.outbox.find? (·.id = key)) =
      poll.scan s.outbox := by
    rw [List.filterMap_map]
    refine (List.filterMap_congr fun row hrow => ?_).trans List.filterMap_some
    exact find?_eq_of_mem hk ((poll.scan_perm _).mem_iff.mp hrow) (by simp) (by simp)
  obtain ⟨t, hpolled, houtbox, hlocks'⟩ := exists_poll hpc ((poll.scan_perm s.outbox).map (·.id))
  rw [hscanned, pendingEventIds_eq] at hpolled
  have hconfig : (t.relays r).config = (s.relays r).config := by rw [hpolled.relay]
  have hfresh : ∀ event ∈ batch (s.relays r).config poll s.outbox,
      event ∈ t.outbox ∧ event.published = false := fun event hmem => by
    obtain ⟨hrow, hsel⟩ := mem_batch hmem
    exact ⟨houtbox ▸ hrow, hsel.1⟩
  obtain ⟨s', htried, hlocks'', houtbox'⟩ := exists_tried poll (houtbox ▸ hk) (hlocks'.trans hlocks)
    (hconfig ▸ hcrash) hpolled.pc_eq (batch_keyed hk) hfresh
  refine ⟨s', hpolled.trans htried, hlocks''.trans hlocks', ?_⟩
  rw [houtbox', hconfig, houtbox, afterPoll_eq hk]
  rfl

theorem exists_polls (hi : Inv s) (hlocks : s.locks = fun _ => none)
    (hcrash : (s.relays r).config.crashAfterPublish = false) (hpc : (s.relays r).pc = .idle)
    (h : (pollMachine (s.relays r).config).Reaches (Arriving fun _ => False) ⟨s.outbox, n⟩ b) :
    ∃ s', Goes r s s' .idle ∧ s'.locks = s.locks ∧ s'.outbox = b.rows := by
  induction h with
  | refl => exact ⟨s, ⟨.refl, by rw [← hpc], fun _ _ => rfl⟩, rfl, rfl⟩
  | next action _ harriving hs ih =>
    obtain ⟨t, hgoes, hlocks', houtbox⟩ := ih
    cases action with
    | arrive => exact harriving.elim
    | poll poll =>
      cases hs
      have hi' : Inv t := hgoes.reaches.invariant hi fun _ _ _ hi _ hs => hi.step (step_cases hs)
      have hconfig : (t.relays r).config = (s.relays r).config := by rw [hgoes.relay]
      obtain ⟨u, hpolled, hlocks'', houtbox'⟩ := exists_polled hi'.keyed (hlocks'.trans hlocks)
        (hconfig ▸ hcrash) hgoes.pc_eq poll
      exact ⟨u, hgoes.trans hpolled, hlocks''.trans hlocks', by rw [houtbox', hconfig, houtbox]⟩

/-- A lone relay leaves behind just those tables that `relay_batch`, called over
and over, can make of the one it found. -/
theorem lone_iff (hi : Inv s) (hothers : ∀ r', r' ≠ r → (s.relays r').pc.holds = none)
    (hpc : (s.relays r).pc = .idle) (hcrash : (s.relays r).config.crashAfterPublish = false) :
    (∃ s', machine.Reaches (Lone r fun _ => False) s s' ∧ (s'.relays r).pc = .idle ∧ s'.outbox = rows) ↔
      ∃ n, (pollMachine (s.relays r).config).Reaches (Arriving fun _ => False) ⟨s.outbox, 0⟩ ⟨rows, n⟩ := by
  constructor
  · rintro ⟨s', hreach, hpc', rfl⟩
    obtain ⟨steps, hpath, hlone⟩ := hreach.exists_path
    obtain ⟨events, hserial⟩ := exists_serial hi hothers hpc hpath hlone
    exact ⟨_, hserial.settled (by rw [hpc']; rfl)⟩
  · rintro ⟨n, hreach⟩
    have hlocks := funext (free_of_lone hi hothers (by rw [hpc]; rfl))
    obtain ⟨s', hgoes, -, houtbox⟩ := exists_polls hi hlocks hcrash hpc hreach
    exact ⟨s', hgoes.reaches, hgoes.pc_eq, houtbox⟩

theorem lone_iff_row : ∃ s', machine.Reaches (Lone 0 fun _ => False) (.idling ⟨10, 5, false⟩ [keyboardRow]) s' ∧
    (s'.relays 0).pc = .idle ∧ s'.outbox = [keyboardRow.mark placedAt] :=
  (lone_iff (State.idling_inv (by decide)) (fun _ _ => rfl) rfl rfl).mpr
    ⟨1, .next (.poll (uniformPoll (.ok "id"))) .refl trivial rfl⟩

/-- Each poll before uses up part of what the rows up to this one may still be tried. -/
theorem Serial.resolved (h : Serial config (row.createdAt < ·.createdAt) ⟨rows, 0⟩ n r events s)
    (hids : batchIds (s.relays r).pc = []) (hk : Rows.Keyed OutboxEvent.id rows) (hmem : row ∈ rows)
    (hsel : Selectable config.maxAttempts row) (hbatch : 1 ≤ config.batchSize)
    (hpolls : rows.countP (fun old => Selectable config.maxAttempts old ∧ old.createdAt ≤ row.createdAt) *
      config.maxAttempts ≤ n) : ∃ row' ∈ s.outbox, row'.id = row.id ∧ Resolved row' := by
  have hwaits := waits_of_reaches hk hmem hsel hbatch
    ((h.settled hids).mono fun _ action harriving => by cases action <;> exact harriving)
  exact hwaits.resolved (remaining_le.trans (by simpa using hpolls))

/-- A row that is selectable when a lone relay begins is published or parked once
the relay has made its polls, however the orders that come later fall between its steps. -/
theorem resolved_of_path (hi : Inv s) (hothers : ∀ r', r' ≠ r → (s.relays r').pc.holds = none)
    (hpc : (s.relays r).pc = .idle) (hmem : row ∈ s.outbox)
    (hsel : Selectable (s.relays r).config.maxAttempts row) (hbatch : 1 ≤ (s.relays r).config.batchSize)
    (hpath : machine.Path s steps s') (hlone : Machine.Along (Lone r (row.createdAt < ·.createdAt)) steps)
    (hpc' : (s'.relays r).pc = .idle)
    (hpolls : s.outbox.countP (fun old => Selectable (s.relays r).config.maxAttempts old ∧
      old.createdAt ≤ row.createdAt) * (s.relays r).config.maxAttempts ≤ steps.countP (isPoll ·.2)) :
    ∃ row' ∈ s'.outbox, row'.id = row.id ∧ Resolved row' := by
  obtain ⟨events, hserial⟩ := exists_serial hi hothers hpc hpath hlone
  exact hserial.resolved (by rw [hpc']; rfl) hi.keyed hmem hsel hbatch hpolls

/-- One attempt is allowed, and fails. -/
theorem resolved_of_path_once : ∃ s' : State, ∃ row ∈ s'.outbox, row.id = ⟨2⟩ ∧ Resolved row := by
  obtain ⟨steps, s', hpath, hlone, hactions, hidle⟩ := machine.exists_path
    (C := Lone 0 (keyboardRow.createdAt < ·.createdAt)) (s := .idling ⟨10, 1, false⟩ [keyboardRow])
    [.relay 0 (.poll [⟨2⟩]), .relay 0 .select, .relay 0 (.publish (.refused connectTimeout)),
      .relay 0 .record, .relay 0 (.commit .done placedAt)]
    (fun s => (s.relays 0).pc.isIdle = true) (by decide)
  have hpolls : steps.countP (isPoll ·.2) = 1 := Machine.countP_actions hactions
  exact ⟨s', resolved_of_path (State.idling_inv (by decide)) (fun _ _ => rfl) rfl List.mem_cons_self
    (by decide) (by decide) hpath hlone (RelayPc.isIdle_iff.mp hidle) (by rw [hpolls]; decide)⟩

end OutboxFanout.Outbox
