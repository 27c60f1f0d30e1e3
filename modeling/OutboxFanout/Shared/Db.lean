import OutboxFanout.Numbers

/-!
# Transactions and columns

`shared/db.py`: one session, one transaction; how a database call can end; and
what the driver and the server make of a value bound to a column.
-/

namespace OutboxFanout

/-- An exception raised by SQLAlchemy: never a `ClientError`. -/
structure DbError where
  typeName : String
  message : String
  deriving DecidableEq, Repr

def DbError.exc (error : DbError) : Exc := .plain error.typeName error.message

/-- How a commit ended. -/
inductive Commit
  | done
  | refused (error : DbError)
  -- the server applied it, the client saw an error
  | lost (error : DbError)
  deriving DecidableEq, Repr

/-- The body of a `with session_scope()` block, on the tables `σ`. -/
abbrev Session (σ : Type) := StateT σ (Except Exc)

/-- Code between transactions: an exception keeps what is committed. -/
abbrev Db (σ : Type) := ExceptT Exc (StateM σ)

/-- Commit on a clean exit, rollback on an exception. -/
def sessionScope (body : Session σ α) : Db σ α := ExceptT.mk fun tables =>
  match body tables with
  | .ok (a, tables') => (.ok a, tables')
  | .error exc => (.error exc, tables)

/-- `try: … except Exception as exc`, as a value. -/
def caught (body : Db σ α) : Db σ (Except Exc α) := ExceptT.mk fun tables =>
  let (result, tables') := body.run tables
  (.ok result, tables')

section
variable {tables : σ}

theorem sessionScope_run {body : Session σ α} :
    (sessionScope body).run tables = match body.run tables with
      | .ok (a, tables') => (.ok a, tables')
      | .error exc => (.error exc, tables) := rfl

theorem bind_run {body : Db σ α} {next : α → Db σ β} : (body >>= next).run tables =
    match body.run tables with
    | (.ok a, tables') => (next a).run tables'
    | (.error exc, tables') => (.error exc, tables') := by
  have hbind : (body >>= next).run tables =
      (ExceptT.bindCont next (body.run tables).1).run (body.run tables).2 := rfl
  rw [hbind]
  rcases body.run tables with ⟨_ | _, tables'⟩ <;> rfl

theorem caught_bind {body : Db σ α} {next : Except Exc α → Db σ β} :
    (caught body >>= next).run tables = (next (body.run tables).1).run (body.run tables).2 := rfl

end

-- ---------------------------------------------------------------------------
-- Columns
-- ---------------------------------------------------------------------------

/-- How values are bound to the columns of a table. -/
structure Columns where
  -- VARCHAR(n)
  varchar : Nat → Json → Except Exc String
  -- NUMERIC(precision, scale)
  numeric : Nat → Nat → DecimalValue → Except Exc DecimalValue

/-- Assignment to a VARCHAR(n): only blanks are cut off. -/
def fitted (n : Nat) (text : String) : Except Exc String :=
  if text.length ≤ n then .ok text
  else if (text.toList.drop n).all (· = ' ') then .ok (String.ofList (text.toList.take n))
  else .error (.plain "DataError" "value too long for type character varying")

/-- Numbers and booleans are cast to text. Arrays, and the NUL no text may hold, are left out. -/
def varchar (n : Nat) : Json → Except Exc String
  | .str text => fitted n text
  | .num literal => fitted n <| match Number.ofLiteral literal with
    | .int i => toString i
    | .float x => x.float8Text
  | .bool b => fitted n (if b then "true" else "false")
  | .null => .error (.plain "IntegrityError" "null value violates not-null constraint")
  | .arr _ | .obj _ => .error (.plain "ProgrammingError" "cannot adapt the value")

def numeric (precision scale : Nat) : DecimalValue → Except Exc DecimalValue
  | .finite d =>
    if (d.toScale scale).coefficient < 10 ^ precision then .ok (.finite (d.toScale scale))
    else .error (.plain "DataError" "numeric field overflow")
  | .infinity _ => .error (.plain "DataError" "numeric field overflow")
  | .nan => .ok .nan

/-- psycopg and Postgres. -/
def postgres : Columns := ⟨varchar, numeric⟩

example : (varchar 3 (.str "abc  ")).toOption = some "abc" := by decide
example : (varchar 3 (.num ⟨"-0", by decide⟩)).toOption = some "0" := by decide

end OutboxFanout
