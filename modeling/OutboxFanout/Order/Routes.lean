import OutboxFanout.Lib.Path
import OutboxFanout.Order.Atomic

/-!
# The answer to POST /orders

`create_order` of `order/routes.py` answers by what the flush and the commit
raised. A commit that raised may have been applied all the same: the 503 then
says that nothing was saved, and both rows are there. That is the one way an
answer is wrong (`answers_truthfully_iff`).
-/

namespace OutboxFanout.Ingress

open Outbox (RequestId RelayId RelayAction)

inductive Response where
  -- 201 and the order
  | created (order : Order)
  | httpException (status : Nat) (detail : String)

/-- The `except` branches of `create_order`. -/
def Response.ofError (error : DbError) : Response :=
  if error.typeName = "IntegrityError" then
    .httpException 422 "Order could not be stored; nothing was saved."
  else .httpException 503 "Database unavailable; nothing was saved."

def integrityError : DbError := ⟨"IntegrityError", "a constraint rejected the write"⟩

/-- How a request ended. -/
inductive Outcome where
  | answered (response : Response)
  -- the process was killed
  | died

/-- What a request committed. -/
structure Write where
  request : RequestId
  order : Order
  row : OutboxEvent

structure State where
  db : Outbox.State
  ended : RequestId → Option Outcome
  -- no step reads it
  writes : List Write

def State.empty : State := ⟨.empty, fun _ => none, []⟩

inductive Action where
  -- service.create_order up to the flush
  | post (q : RequestId) (breakOutboxInsert : Bool) (id : UUID) (now : Datetime) (data : OrderCreate)
  -- the database answers both INSERTs
  | flush (q : RequestId) (eventId : UUID) (now : Datetime)
  -- the flush raises before that
  | flushFails (q : RequestId) (error : DbError)
  | commit (q : RequestId) (outcome : Commit)
  | kill (q : RequestId)
  -- … after the commit was applied, before the answer is sent
  | killUnanswered (q : RequestId)
  | relay (r : RelayId) (action : RelayAction)
  | clearFailedAt (id : UUID)

def Action.request? : Action → Option RequestId
  | .post q _ _ _ _ | .flush q _ _ | .flushFails q _ | .commit q _ | .kill q
  | .killUnanswered q => some q
  | .relay _ _ | .clearFailedAt _ => none

def State.finish (s : State) (q : RequestId) (outcome : Outcome) : State :=
  { s with ended := Function.update s.ended q (some outcome) }

/-- `get_session`: rollback and close. -/
def State.rollback (s : State) (q : RequestId) : State := { s with db := s.db.request q .idle }

/-- The database applies the commit. -/
def State.write (s : State) (q : RequestId) (order : Order) (row : OutboxEvent) : Option State :=
  (Outbox.step s.db (.commitOrder q)).map fun db =>
    { s with db, writes := s.writes ++ [⟨q, order, row⟩] }

def act (s : State) : Action → Option State
  | .post q breakOutboxInsert id now data =>
    (Outbox.step s.db (.post q breakOutboxInsert id now data)).map fun db => { s with db }
  | .flush q eventId now =>
    (Outbox.step s.db (.flush q eventId now)).map fun db =>
      match db.requests q with
      | .flushed _ _ => { s with db }
      -- event_type is null, or a key is taken
      | _ => { s with db }.finish q (.answered (.ofError integrityError))
  | .flushFails q error =>
    match s.db.requests q with
    | .staged _ _ => some ((s.rollback q).finish q (.answered (.ofError error)))
    | _ => none
  | .commit q outcome =>
    match s.db.requests q with
    | .flushed order row =>
      match outcome with
      | .done => (s.write q order row).map (·.finish q (.answered (.created order)))
      | .refused error => some ((s.rollback q).finish q (.answered (.ofError error)))
      | .lost error => (s.write q order row).map (·.finish q (.answered (.ofError error)))
    | _ => none
  | .kill q => some ((s.rollback q).finish q .died)
  | .killUnanswered q =>
    match s.db.requests q with
    | .flushed order row => (s.write q order row).map (·.finish q .died)
    | _ => none
  | .relay r action => (Outbox.step s.db (.relay r action)).map fun db => { s with db }
  | .clearFailedAt id => (Outbox.step s.db (.clearFailedAt id)).map fun db => { s with db }

/-- A request that has ended takes no further step. -/
def step (s : State) (action : Action) : Option State :=
  if action.request?.all fun q => (s.ended q).isNone then act s action else none

def machine : Machine State Action := ⟨step⟩

def State.Committed (s : State) (q : RequestId) : Prop :=
  ∃ order row, ⟨q, order, row⟩ ∈ s.writes

/-- Both tables hold what the commits wrote: an order and its outbox row each. -/
structure State.Written (s : State) : Prop where
  orders : s.db.orders = s.writes.map (·.order)
  outbox : s.db.outbox.map OutboxEvent.facts = s.writes.map (·.row.facts)
  unit : ∀ w ∈ s.writes, w.row.orderId = w.order.id ∧ w.row.payload = buildPayload w.order

/-- A 201 stands for both rows, every other answer for none. -/
structure Truthful (s : State) : Prop where
  created : ∀ q order, s.ended q = some (.answered (.created order)) →
    ∃ row, ⟨q, order, row⟩ ∈ s.writes
  failed : ∀ q status detail, s.ended q = some (.answered (.httpException status detail)) →
    ¬s.Committed q

/-- The condition: no commit raises once the server has applied it. -/
def CommitHeard (_ : State) : Action → Prop
  | .commit _ (.lost _) => False
  | _ => True

instance : DecidablePred (CommitHeard s) := fun action => by
  unfold CommitHeard; split <;> infer_instance

-- ---------------------------------------------------------------------------
-- What a step can do
-- ---------------------------------------------------------------------------

inductive Step (s : State) : Action → State → Prop
  | moves {db : Outbox.State} (hdb : Outbox.step s.db a = some db)
      (ha : ∀ q, a ≠ .commitOrder q) (hheard : CommitHeard s action) :
    Step s action { s with db }
  | fails {db : Outbox.State} (hended : s.ended q = none) (hdb : Outbox.step s.db a = some db)
      (ha : ∀ q, a ≠ .commitOrder q) (hheard : CommitHeard s action)
      (hout : outcome = .died ∨ ∃ error, outcome = .answered (.ofError error)) :
    Step s action ({ s with db }.finish q outcome)
  | commits {db : Outbox.State} (hended : s.ended q = none)
      (hq : s.db.requests q = .flushed order row)
      (hdb : Outbox.step s.db (.commitOrder q) = some db)
      (hout : (outcome = .answered (.created order) ∨ outcome = .died) ∧ CommitHeard s action ∨
        ∃ error, action = .commit q (.lost error) ∧ outcome = .answered (.ofError error)) :
    Step s action ({ s with db, writes := s.writes ++ [(⟨q, order, row⟩ : Write)] }.finish q outcome)

theorem step_cases (h : step s action = some s') : Step s action s' := by
  unfold step at h
  split at h
  case isFalse => cases h
  case isTrue hended =>
    have hopen : ∀ {q}, action.request? = some q → s.ended q = none := fun hq => by
      simpa [hq] using hended
    cases action with
    | post q broken id now data =>
      obtain ⟨db, hdb, rfl⟩ := Option.map_eq_some_iff.mp h
      exact .moves hdb nofun trivial
    | flush q eventId now =>
      obtain ⟨db, hdb, heq⟩ := Option.map_eq_some_iff.mp h
      split at heq <;> cases heq
      · exact .moves hdb nofun trivial
      · exact .fails (hopen rfl) hdb nofun trivial (.inr ⟨_, rfl⟩)
    | flushFails q error =>
      simp only [act] at h
      split at h <;> cases h
      exact .fails (hopen rfl) (a := .abort q) rfl nofun trivial (.inr ⟨_, rfl⟩)
    | commit q outcome =>
      simp only [act] at h
      split at h
      next order row hq =>
        cases outcome with
        | done =>
          obtain ⟨_, hwrite, rfl⟩ := Option.map_eq_some_iff.mp h
          obtain ⟨db, hdb, rfl⟩ := Option.map_eq_some_iff.mp hwrite
          exact .commits (hopen rfl) hq hdb (.inl ⟨.inl rfl, trivial⟩)
        | refused error =>
          cases h
          exact .fails (hopen rfl) (a := .abort q) rfl nofun trivial (.inr ⟨_, rfl⟩)
        | lost error =>
          obtain ⟨_, hwrite, rfl⟩ := Option.map_eq_some_iff.mp h
          obtain ⟨db, hdb, rfl⟩ := Option.map_eq_some_iff.mp hwrite
          exact .commits (hopen rfl) hq hdb (.inr ⟨_, rfl, rfl⟩)
      next => cases h
    | kill q =>
      cases h
      exact .fails (hopen rfl) (a := .abort q) rfl nofun trivial (.inl rfl)
    | killUnanswered q =>
      simp only [act] at h
      split at h
      next order row hq =>
        obtain ⟨_, hwrite, rfl⟩ := Option.map_eq_some_iff.mp h
        obtain ⟨db, hdb, rfl⟩ := Option.map_eq_some_iff.mp hwrite
        exact .commits (hopen rfl) hq hdb (.inl ⟨.inr rfl, trivial⟩)
      next => cases h
    | relay r action =>
      obtain ⟨db, hdb, rfl⟩ := Option.map_eq_some_iff.mp h
      exact .moves hdb nofun trivial
    | clearFailedAt id =>
      obtain ⟨db, hdb, rfl⟩ := Option.map_eq_some_iff.mp h
      exact .moves hdb nofun trivial

-- ---------------------------------------------------------------------------
-- What has been written
-- ---------------------------------------------------------------------------

theorem Step.db (h : Step s action s') : ∃ a, Outbox.step s.db a = some s'.db := by
  cases h with
  | moves hdb | fails _ hdb | commits _ _ hdb => exact ⟨_, hdb⟩

theorem reaches_db (h : machine.Reaches Machine.anyStep .empty s) :
    Outbox.machine.Reaches Machine.anyStep .empty s.db := by
  refine h.project State.db fun t action u _ hs => .inr ?_
  obtain ⟨a, hdb⟩ := (step_cases hs).db
  exact ⟨a, trivial, hdb⟩

theorem writes_cases (h : Step s action s') : s'.writes = s.writes ∧ s'.db.orders = s.db.orders ∧
      s'.db.outbox.map OutboxEvent.facts = s.db.outbox.map OutboxEvent.facts ∨
    ∃ w : Write, s'.writes = s.writes ++ [w] ∧ s'.db.orders = s.db.orders ++ [w.order] ∧
      s'.db.outbox = s.db.outbox ++ [w.row] := by
  cases h with
  | moves hdb ha | fails _ hdb ha =>
    have hstep := Outbox.step_cases hdb
    exact .inl ⟨rfl, hstep.orders ha, hstep.facts ha⟩
  | commits hended hq hdb =>
    cases Outbox.step_cases hdb with
    | commitOrder hq' =>
      rw [hq] at hq'
      cases hq'
      exact .inr ⟨_, rfl, rfl, rfl⟩

theorem written_of_reaches (h : machine.Reaches Machine.anyStep .empty s) : s.Written := by
  have htables : s.db.orders = s.writes.map (·.order) ∧
      s.db.outbox.map OutboxEvent.facts = s.writes.map (·.row.facts) := by
    refine h.invariant (I := fun s => s.db.orders = s.writes.map (·.order) ∧
      s.db.outbox.map OutboxEvent.facts = s.writes.map (·.row.facts)) ⟨rfl, rfl⟩ ?_
    rintro t action u ⟨horders, hfacts⟩ - hs
    rcases writes_cases (step_cases hs) with ⟨hw, ho, hf⟩ | ⟨w, hw, ho, hf⟩
    · rw [hw, ho, hf]
      exact ⟨horders, hfacts⟩
    · simp [hw, ho, hf, horders, hfacts]
  obtain ⟨horders, hfacts⟩ := htables
  refine ⟨horders, hfacts, fun w hw => ?_⟩
  have hsnapshot := (Outbox.oneUnit_of_reaches (reaches_db h)).snapshot
  have hpairs := congrArg (List.map fun facts => (facts.2.1, facts.2.2.2.1)) hfacts
  rw [Outbox.State.Snapshot, horders] at hsnapshot
  simp only [List.map_map] at hpairs hsnapshot
  have hunit : s.writes.map (fun w => (w.row.orderId, w.row.payload)) =
      s.writes.map fun w => (w.order.id, buildPayload w.order) := hpairs.symm.trans hsnapshot
  exact Prod.ext_iff.mp (List.map_inj_left.mp hunit w hw)

-- ---------------------------------------------------------------------------
-- Answers
-- ---------------------------------------------------------------------------

theorem ofError_eq (error : DbError) :
    ∃ status detail, Response.ofError error = .httpException status detail := by
  unfold Response.ofError
  split <;> exact ⟨_, _, rfl⟩

theorem not_created {outcome : Outcome}
    (h : outcome = .died ∨ ∃ error, outcome = .answered (.ofError error)) :
    .answered (.created order) ≠ outcome := by
  rintro rfl
  obtain heq | ⟨error, heq⟩ := h
  · cases heq
  · obtain ⟨status, detail, hfailed⟩ := ofError_eq error
    rw [hfailed] at heq
    cases heq

section
variable {s s' : State}

theorem finish_ended (h : (s.finish q outcome).ended q' = some outcome') :
    q' = q ∧ outcome' = outcome ∨ q' ≠ q ∧ s.ended q' = some outcome' := by
  by_cases hq : q' = q
  · subst hq
    exact .inl ⟨rfl, by simpa [State.finish, eq_comm] using h⟩
  · exact .inr ⟨hq, by simpa [State.finish, hq] using h⟩

theorem open_finish (h : (s.finish q outcome).ended q' = none) : s.ended q' = none := by
  by_cases hq : q' = q
  · subst hq
    simp [State.finish] at h
  · simpa [State.finish, hq] using h

theorem Step.ended (h : Step s action s') (hq : s.ended q = some outcome) :
    s'.ended q = some outcome := by
  cases h with
  | moves => exact hq
  | fails hended | commits hended =>
    refine (Function.update_of_ne ?_ _ _).trans hq
    rintro rfl
    rw [hended] at hq
    cases hq

theorem Step.committed (h : Step s action s') (hq : s.Committed q) : s'.Committed q := by
  obtain ⟨order, row, hmem⟩ := hq
  rcases writes_cases h with ⟨hw, -⟩ | ⟨w, hw, -⟩
  · exact ⟨order, row, hw ▸ hmem⟩
  · exact ⟨order, row, hw ▸ List.mem_append_left _ hmem⟩

structure Inv (s : State) : Prop where
  open_ : ∀ q, s.ended q = none → ¬s.Committed q
  truthful : Truthful s

theorem Inv.empty : Inv .empty := ⟨by rintro _ _ ⟨_, _, ⟨⟩⟩, nofun, nofun⟩

theorem Inv.fails {db : Outbox.State} (h : Inv s) (hended : s.ended q = none)
    (hout : outcome = .died ∨ ∃ error, outcome = .answered (.ofError error)) :
    Inv ({ s with db }.finish q outcome) := by
  refine ⟨fun q' hq' => h.open_ q' (open_finish hq'), fun q' order hq' => ?_,
    fun q' status detail hq' => ?_⟩
  · rcases finish_ended hq' with ⟨-, heq⟩ | ⟨-, hold⟩
    · exact absurd heq (not_created hout)
    · exact h.truthful.created q' order hold
  · rcases finish_ended hq' with ⟨rfl, -⟩ | ⟨-, hold⟩
    · exact h.open_ q' hended
    · exact h.truthful.failed q' status detail hold

theorem Inv.commits {db : Outbox.State} (h : Inv s) (hended : s.ended q = none)
    (hout : outcome = .answered (.created order) ∨ outcome = .died) :
    Inv ({ s with db, writes := s.writes ++ [(⟨q, order, row⟩ : Write)] }.finish q outcome) := by
  have hother : ∀ {q'}, q' ≠ q → (∃ order' row', ⟨q', order', row'⟩ ∈
      s.writes ++ [(⟨q, order, row⟩ : Write)]) → s.Committed q' := by
    rintro q' hne ⟨order', row', hmem⟩
    rcases List.mem_append.mp hmem with hold | hnew
    · exact ⟨order', row', hold⟩
    · cases List.mem_singleton.mp hnew
      exact absurd rfl hne
  refine ⟨fun q' hq' hcommitted => ?_, fun q' order' hq' => ?_, fun q' status detail hq' => ?_⟩
  · refine h.open_ q' (open_finish hq') (hother ?_ hcommitted)
    rintro rfl
    simp [State.finish] at hq'
  · rcases finish_ended hq' with ⟨rfl, rfl⟩ | ⟨-, hold⟩
    · obtain heq | heq := hout <;> cases heq
      exact ⟨row, List.mem_append_right _ (List.mem_singleton_self _)⟩
    · obtain ⟨row', hmem⟩ := h.truthful.created q' order' hold
      exact ⟨row', List.mem_append_left _ hmem⟩
  · rcases finish_ended hq' with ⟨-, rfl⟩ | ⟨hne, hold⟩
    · obtain heq | heq := hout <;> cases heq
    · exact fun hcommitted => h.truthful.failed q' status detail hold (hother hne hcommitted)

theorem Inv.step (h : Inv s) (hs : Step s action s') (hheard : CommitHeard s action) : Inv s' := by
  cases hs with
  | moves => exact ⟨h.open_, h.truthful.created, h.truthful.failed⟩
  | fails hended _ _ _ hout => exact h.fails hended hout
  | commits hended _ _ hout =>
    rcases hout with ⟨hout, -⟩ | ⟨error, rfl, -⟩
    · exact h.commits hended hout
    · exact hheard.elim

/-- An answer that nothing was saved, for a request that has committed. -/
def Untrue (s : State) : Prop :=
  ∃ q status detail, s.ended q = some (.answered (.httpException status detail)) ∧ s.Committed q

theorem untrue_of_lost (h : Step s action s') (hheard : ¬CommitHeard s action) : Untrue s' := by
  cases h with
  | moves _ _ hheard' | fails _ _ _ hheard' => exact absurd hheard' hheard
  | @commits q order row _ _ _ hended hq hdb hout =>
    rcases hout with ⟨-, hheard'⟩ | ⟨error, rfl, rfl⟩
    · exact absurd hheard' hheard
    · obtain ⟨status, detail, heq⟩ := ofError_eq error
      refine ⟨q, status, detail, ?_, order, row, List.mem_append_right _ (List.mem_singleton_self _)⟩
      simp [State.finish, heq]

theorem Untrue.step (h : Untrue s) (hs : Step s action s') : Untrue s' := by
  obtain ⟨q, status, detail, hended, hcommitted⟩ := h
  exact ⟨q, status, detail, hs.ended hended, hs.committed hcommitted⟩

theorem Untrue.not_truthful (h : Untrue s) : ¬Truthful s := by
  rintro ⟨-, hfailed⟩
  obtain ⟨q, status, detail, hended, hcommitted⟩ := h
  exact hfailed q status detail hended hcommitted

end

/-- Over a run, the tables hold what the commits wrote, and every answer is true
just when no commit that was applied has raised. -/
theorem answers_truthfully_iff (h : machine.Path .empty steps s) :
    s.Written ∧ (Truthful s ↔ Machine.Along CommitHeard steps) := by
  refine ⟨written_of_reaches (h.reaches fun _ _ => trivial), ?_⟩
  refine h.holds_iff (C := Machine.anyStep) (D := CommitHeard) (I := Inv) (J := Untrue)
    (P := Truthful) (fun _ _ => trivial) .empty ?_ ?_ ?_ ?_ ?_
  · exact fun t a u hi _ hheard hs => hi.step (step_cases hs) hheard
  · exact fun t a u _ _ hheard hs => untrue_of_lost (step_cases hs) hheard
  · exact fun t a u hj _ hs => hj.step (step_cases hs)
  · exact fun t hi => hi.truthful
  · exact fun t hj => hj.not_truthful

/-- Two orders: one committed, one refused for a null `event_type`. -/
theorem answers_truthfully_keyboard : ∃ steps s, machine.Path .empty steps s ∧
    s.db.orders.map (·.id) = [⟨1⟩] ∧ Truthful s := by
  obtain ⟨s, hs, hids⟩ := machine.exists_reaches (C := CommitHeard) (s := .empty)
    [.post 0 false ⟨1⟩ placedAt keyboardOrder, .post 1 true ⟨3⟩ placedAt keyboardOrder,
      .flush 0 ⟨2⟩ placedAt, .commit 0 .done, .flush 1 ⟨4⟩ placedAt]
    (fun s => s.db.orders.map (·.id) = [⟨1⟩]) (by decide)
  obtain ⟨steps, hpath, hheard⟩ := hs.exists_path
  exact ⟨steps, s, hpath, hids, (answers_truthfully_iff hpath).2.mpr hheard⟩

def connectionLost : DbError := ⟨"OperationalError", "server closed the connection unexpectedly"⟩

/-- The connection is lost before the answer to a commit: 503, and both rows
are there. -/
theorem not_truthful_lost : ¬∀ steps s, machine.Path .empty steps s → Truthful s := by
  intro h
  obtain ⟨s, hs, hlost⟩ := machine.exists_reaches (C := CommitHeard) (s := .empty)
    [.post 0 false ⟨1⟩ placedAt keyboardOrder, .flush 0 ⟨2⟩ placedAt]
    (fun s => (step s (.commit 0 (.lost connectionLost))).isSome) (by decide)
  obtain ⟨u, hu⟩ := Option.isSome_iff_exists.mp hlost
  obtain ⟨steps, hpath, -⟩ := hs.exists_path
  exact (untrue_of_lost (step_cases hu) id).not_truthful (h _ u (hpath.next _ hu))

end OutboxFanout.Ingress
