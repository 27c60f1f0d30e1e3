import OutboxFanout.Shared.Db
import OutboxFanout.Shared.Settlement

/-!
# Rows inserted once per order

The handler Billing and Shipping have in common: read the event,
`INSERT … ON CONFLICT (order_id) DO NOTHING RETURNING id`, commit. A
`Projection` says what of the event becomes a row of which table.
-/

namespace OutboxFanout

-- ---------------------------------------------------------------------------
-- The table
-- ---------------------------------------------------------------------------

/-- `pending` holds the order ids of inserted rows that are not committed. -/
structure Table (ρ : Type) where
  rows : List ρ
  pending : List UUID

def Table.empty : Table ρ := ⟨[], []⟩

/-- `uuid.UUID(event["payload"]["order_id"])`. -/
def readOrderId (event : Json) : Except Exc UUID := do
  let payload ← getItem event "payload"
  UUID.new (← getItem payload "order_id")

/-- `ν` is what the handler reads of the event, `δ` what it draws (ids, the time). -/
structure Projection (ν δ ρ : Type) where
  read : Json → Except Exc ν
  orderId : ν → UUID
  read_orderId : ∀ {event values}, read event = .ok values → readOrderId event = .ok (orderId values)
  row : ν → δ → ρ
  rowOrderId : ρ → UUID
  rowOrderId_row : ∀ values draws, rowOrderId (row values draws) = orderId values

/-- `with session_scope() as session`, from one answer to the next. -/
inductive Insert (ν ρ : Type) where
  | ready (values : ν)
  -- the INSERT returned the new id
  | inserted (row : ρ)
  -- the INSERT returned nothing
  | conflict (order : UUID)

inductive InsertAnswer (δ : Type) where
  | execute (draws : δ)
  | executeFails (error : DbError)
  | commit (outcome : Commit)

/-- What an operator may do to the table. -/
inductive TableEvent where
  | wipe
  deriving DecidableEq, Repr

namespace Projection

variable {ν δ ρ : Type} (p : Projection ν δ ρ)

def Holds (table : Table ρ) (order : UUID) : Prop := ∃ row ∈ table.rows, p.rowOrderId row = order

instance : Decidable (p.Holds table order) := by unfold Holds; infer_instance

def release (table : Table ρ) (row : ρ) : Table ρ :=
  { table with pending := table.pending.erase (p.rowOrderId row) }

def commit (table : Table ρ) (row : ρ) : Table ρ :=
  { p.release table row with rows := table.rows ++ [row] }

def step (table : Table ρ) : Insert ν ρ → InsertAnswer δ → Option (Table ρ × Progress (Insert ν ρ))
  | .ready values, .execute draws =>
    let order := p.orderId values
    if p.Holds table order then some (table, .continues (.conflict order))
    -- the unique index makes it wait for the other transaction
    else if order ∈ table.pending then none
    else some ({ table with pending := order :: table.pending },
      .continues (.inserted (p.row values draws)))
  | .ready _, .executeFails error => some (table, .raised error.exc)
  | .inserted row, .commit .done => some (p.commit table row, .returned)
  | .inserted row, .commit (.refused error) => some (p.release table row, .raised error.exc)
  | .inserted row, .commit (.lost error) => some (p.commit table row, .raised error.exc)
  | .conflict _, .commit .done => some (table, .returned)
  | .conflict _, .commit (.refused error) => some (table, .raised error.exc)
  | .conflict _, .commit (.lost error) => some (table, .raised error.exc)
  | _, _ => none

def handler : Handler (Table ρ) (Insert ν ρ) (InsertAnswer δ) TableEvent where
  start event := (p.read event).map .ready
  step := p.step
  die table
    | .inserted row => p.release table row
    | _ => table
  env table
    | .wipe => some { table with rows := [] }

-- ---------------------------------------------------------------------------
-- A call that returns leaves a row for the order
-- ---------------------------------------------------------------------------

def Grows (table table' : Table ρ) : Prop := ∀ row ∈ table.rows, row ∈ table'.rows

def During (table : Table ρ) (event : Json) (call : Insert ν ρ) : Prop :=
  ∃ values, p.read event = .ok values ∧ match call with
    | .ready values' => values' = values
    | .inserted row => p.rowOrderId row = p.orderId values
    | .conflict order => order = p.orderId values ∧ p.Holds table order

def Done (table : Table ρ) (event : Json) : Prop :=
  ∃ values, p.read event = .ok values ∧ p.Holds table (p.orderId values)

variable {p : Projection ν δ ρ} {table table' : Table ρ} {event : Json}

theorem Holds.mono (h : p.Holds table order) (hgrows : Grows table table') :
    p.Holds table' order := by
  obtain ⟨record, hmem, heq⟩ := h
  exact ⟨record, hgrows record hmem, heq⟩

theorem commit_holds {record : ρ} : p.Holds (p.commit table record) (p.rowOrderId record) :=
  ⟨record, List.mem_append_right _ (List.mem_singleton_self record), rfl⟩

/-- What an answer of the database does to a call. -/
inductive Answered (p : Projection ν δ ρ) (table : Table ρ) :
    Insert ν ρ → InsertAnswer δ → Table ρ → Progress (Insert ν ρ) → Prop
  | conflict (hholds : p.Holds table (p.orderId values)) :
    Answered p table (.ready values) (.execute draws) table (.continues (.conflict (p.orderId values)))
  | inserted (hfree : ¬p.Holds table (p.orderId values)) (hpending : p.orderId values ∉ table.pending) :
    Answered p table (.ready values) (.execute draws)
      { table with pending := p.orderId values :: table.pending }
      (.continues (.inserted (p.row values draws)))
  | executeFails : Answered p table (.ready values) (.executeFails error) table (.raised error.exc)
  | committed (hout : outcome = .done ∧ progress = .returned ∨
      ∃ error, outcome = .lost error ∧ progress = .raised error.exc) :
    Answered p table (.inserted record) (.commit outcome) (p.commit table record) progress
  | refused : Answered p table (.inserted record) (.commit (.refused error)) (p.release table record)
      (.raised error.exc)
  | ignored : Answered p table (.conflict order) (.commit .done) table .returned
  | ignoredFails (hout : outcome = .refused error ∨ outcome = .lost error) :
    Answered p table (.conflict order) (.commit outcome) table (.raised error.exc)

theorem step_cases (h : p.step table call answer = some (table', progress)) :
    Answered p table call answer table' progress := by
  unfold step at h
  split at h
  next =>
    dsimp only at h
    split at h
    next hholds => cases h; exact .conflict hholds
    next hfree =>
      split at h
      next => cases h
      next hpending => cases h; exact .inserted hfree hpending
  next => cases h; exact .executeFails
  next => cases h; exact .committed (.inl ⟨rfl, rfl⟩)
  next => cases h; exact .refused
  next => cases h; exact .committed (.inr ⟨_, rfl, rfl⟩)
  next => cases h; exact .ignored
  next => cases h; exact .ignoredFails (.inl rfl)
  next => cases h; exact .ignoredFails (.inr rfl)
  next => cases h

theorem Answered.grows (h : Answered p table call answer table' progress) : Grows table table' := by
  cases h with
  | committed => exact fun _ => List.mem_append_left _
  | _ => exact fun _ hmem => hmem

theorem Answered.continues (h : Answered p table call answer table' (.continues call'))
    (hduring : p.During table event call) : p.During table' event call' := by
  obtain ⟨values, hread, hcall⟩ := hduring
  cases h with
  | conflict hholds =>
    obtain rfl := hcall
    exact ⟨_, hread, rfl, hholds⟩
  | inserted =>
    obtain rfl := hcall
    exact ⟨_, hread, p.rowOrderId_row _ _⟩
  | committed hout => rcases hout with ⟨-, h⟩ | ⟨_, -, h⟩ <;> cases h

theorem Answered.returned (h : Answered p table call answer table' .returned)
    (hduring : p.During table event call) : p.Done table' event := by
  obtain ⟨values, hread, hcall⟩ := hduring
  cases h with
  | committed => exact ⟨values, hread, hcall ▸ commit_holds⟩
  | ignored => exact ⟨values, hread, hcall.1 ▸ hcall.2⟩

theorem settles (p : Projection ν δ ρ) : Settles p.handler Grows p.During p.Done where
  refl := fun _ h => h
  during_le := by
    rintro table table' event call ⟨values, hread, hcall⟩ hgrows
    refine ⟨values, hread, ?_⟩
    cases call with
    | ready | inserted => exact hcall
    | conflict => exact ⟨hcall.1, hcall.2.mono hgrows⟩
  done_le := fun ⟨values, hread, hholds⟩ hgrows => ⟨values, hread, hholds.mono hgrows⟩
  start := by
    intro table event call hstart
    cases hread : p.read event with
    | error exc => simp [handler, hread, Except.map] at hstart
    | ok values =>
      simp only [handler, hread, Except.map] at hstart
      cases hstart
      exact ⟨values, hread, rfl⟩
  grows := fun hstep => (step_cases hstep).grows
  dies := by
    intro table call
    cases call <;> exact fun _ h => h
  continues := fun hduring hstep => (step_cases hstep).continues hduring
  returned := fun hduring hstep => (step_cases hstep).returned hduring

end Projection

end OutboxFanout
