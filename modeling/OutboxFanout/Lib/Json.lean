import OutboxFanout.Lib.Hex

/-!
# JSON text

Values, `json.dumps` with its default separators and `ensure_ascii`, and
`json.loads` as a recursive descent with a limit on the nesting. `loads_dumps`
is the round trip. A number is kept as its literal and an object as its members
in order; `member?` reads the last member of a name, as a dict built from the
members does.
-/

namespace Except

theorem bind_eq_ok {x : Except ε α} {f : α → Except ε β} :
    x >>= f = .ok b ↔ ∃ a, x = .ok a ∧ f a = .ok b := by
  cases x <;> simp [bind, Except.bind]

theorem map_eq_ok {x : Except ε α} {f : α → β} : x.map f = .ok b ↔ ∃ a, x = .ok a ∧ f a = b := by
  cases x <;> simp [Except.map]

theorem pure_eq_ok : (pure a : Except ε α) = .ok b ↔ a = b := by
  simp [pure, Except.pure]

theorem toOption_eq_some {x : Except ε α} : x.toOption = some a ↔ x = .ok a := by
  cases x <;> simp [Except.toOption]

end Except

namespace Json

/-- Characters that continue a literal or a number. -/
def tokenChar (c : Char) : Bool := c.isAlphanum || c = '-' || c = '+' || c = '.'

/-- Decimal digits with no superfluous zero in front. -/
def isInt (cs : List Char) : Bool :=
  !cs.isEmpty && cs.all Char.isDigit && (cs.head? ≠ some '0' || cs.length = 1)

def isFrac (cs : List Char) : Bool := cs.isEmpty || (cs.head? = some '.' && cs.length ≠ 1)

def isExp (cs : List Char) : Bool :=
  cs.isEmpty || ((cs.head? = some 'e' || cs.head? = some 'E') &&
    let digits := if cs.tail.head? = some '-' ∨ cs.tail.head? = some '+' then cs.tail.tail else cs.tail
    !digits.isEmpty && digits.all Char.isDigit)

def unsigned (cs : List Char) : List Char := if cs.head? = some '-' then cs.tail else cs

/-- `-?(0|[1-9]\d*)(\.\d+)?([eE][-+]?\d+)?` and the three names of floats. -/
def isNumeral (cs : List Char) : Bool :=
  let digits := unsigned cs
  let rest := digits.dropWhile Char.isDigit
  let frac := if rest.head? = some '.' then '.' :: rest.tail.takeWhile Char.isDigit else []
  (isInt (digits.takeWhile Char.isDigit) && isFrac frac && isExp (rest.drop frac.length)) ||
    cs = "NaN".toList || cs = "Infinity".toList || cs = "-Infinity".toList

/-- `sys.get_int_max_str_digits()`. -/
def maxIntDigits : Nat := 4300

def isNumber (cs : List Char) : Bool :=
  isNumeral cs && cs.all tokenChar && !(isInt (unsigned cs) && maxIntDigits < (unsigned cs).length)

end Json

inductive Json where
  | null
  | bool (value : Bool)
  | num (literal : { text : String // Json.isNumber text.toList = true })
  | str (value : String)
  | arr (items : List Json)
  | obj (members : List (String × Json))

namespace Json

def member? : Json → String → Option Json
  | .obj members, key => (members.reverse.find? (·.1 = key)).map Prod.snd
  | _, _ => none

-- ---------------------------------------------------------------------------
-- dumps
-- ---------------------------------------------------------------------------

/-- `\uXXXX`. -/
def unicodeEscape (code : Nat) : List Char := '\\' :: 'u' :: Hex.digits 4 code

/-- The UTF-16 code units of a character. -/
def codeUnits (c : Char) : List Nat :=
  if c.toNat < 0x10000 then [c.toNat]
  else [0xd800 + (c.toNat - 0x10000) / 0x400, 0xdc00 + (c.toNat - 0x10000) % 0x400]

def escapeChar (c : Char) : List Char :=
  if c = '"' then ['\\', '"']
  else if c = '\\' then ['\\', '\\']
  else if c = '\n' then ['\\', 'n']
  else if c = '\r' then ['\\', 'r']
  else if c = '\t' then ['\\', 't']
  else if c = '\x0c' then ['\\', 'f']
  else if c = '\x08' then ['\\', 'b']
  else if 0x20 ≤ c.toNat ∧ c.toNat ≤ 0x7e then [c]
  else (codeUnits c).flatMap unicodeEscape

def dumpString (text : String) : List Char := '"' :: (text.toList.flatMap escapeChar ++ ['"'])

mutual
def dump : Json → List Char
  | .null => "null".toList
  | .bool true => "true".toList
  | .bool false => "false".toList
  | .num literal => literal.1.toList
  | .str text => dumpString text
  | .arr [] => ['[', ']']
  | .arr (item :: items) => '[' :: (dump item ++ dumpItems items)
  | .obj [] => ['{', '}']
  | .obj ((key, item) :: members) =>
    '{' :: (dumpString key ++ ':' :: ' ' :: (dump item ++ dumpMembers members))

/-- What follows an item of an array. -/
def dumpItems : List Json → List Char
  | [] => [']']
  | item :: items => ',' :: ' ' :: (dump item ++ dumpItems items)

def dumpMembers : List (String × Json) → List Char
  | [] => ['}']
  | (key, item) :: members =>
    ',' :: ' ' :: (dumpString key ++ ':' :: ' ' :: (dump item ++ dumpMembers members))
end

def dumps (value : Json) : String := String.ofList (dump value)

-- ---------------------------------------------------------------------------
-- loads
-- ---------------------------------------------------------------------------

inductive Error where
  | decode
  | recursion
  -- an integer literal longer than the interpreter converts
  | digits
  deriving DecidableEq, Repr

def isSpace (c : Char) : Bool := c = ' ' || c = '\t' || c = '\n' || c = '\r'

def skip (cs : List Char) : List Char := cs.dropWhile isSpace

def simpleEscape (c : Char) : Option Nat :=
  if c = '"' then some 0x22
  else if c = '\\' then some 0x5c
  else if c = '/' then some 0x2f
  else if c = 'b' then some 0x08
  else if c = 'f' then some 0x0c
  else if c = 'n' then some 0x0a
  else if c = 'r' then some 0x0d
  else if c = 't' then some 0x09
  else none

/-- The code points of a string after its opening quote, surrogates unpaired. -/
def readString : List Char → Option (List Nat × List Char)
  | [] => none
  | '"' :: cs => some ([], cs)
  | '\\' :: 'u' :: a :: b :: c :: d :: cs =>
    (Hex.read [a, b, c, d]).bind fun code =>
      (readString cs).map fun (codes, rest) => (code :: codes, rest)
  | '\\' :: c :: cs =>
    (simpleEscape c).bind fun code =>
      (readString cs).map fun (codes, rest) => (code :: codes, rest)
  | c :: cs =>
    if c = '\\' ∨ c.toNat < 0x20 then none
    else (readString cs).map fun (codes, rest) => (c.toNat :: codes, rest)

/-- A lone surrogate, which no `Char` can be, reads as U+FFFD. -/
def charOf (code : Nat) : Char := if code.isValidChar then Char.ofNat code else '\ufffd'

def joinSurrogates : List Nat → List Char
  | high :: low :: codes =>
    if 0xd800 ≤ high ∧ high < 0xdc00 ∧ 0xdc00 ≤ low ∧ low < 0xe000 then
      charOf (0x10000 + (high - 0xd800) * 0x400 + (low - 0xdc00)) :: joinSurrogates codes
    else charOf high :: joinSurrogates (low :: codes)
  | [code] => [charOf code]
  | [] => []

def string (cs : List Char) : Except Error (String × List Char) :=
  match readString cs with
  | some (codes, rest) => .ok (String.ofList (joinSurrogates codes), rest)
  | none => .error .decode

def ofToken (token : List Char) : Except Error Json :=
  if h : isNumber token then .ok (.num ⟨String.ofList token, by simpa using h⟩)
  else if isNumeral token then .error .digits
  else if token = "null".toList then .ok .null
  else if token = "true".toList then .ok (.bool true)
  else if token = "false".toList then .ok (.bool false)
  else .error .decode

abbrev Reader (α : Type) := List Char → Except Error (α × List Char)

/-- The items of a nonempty array, up to its bracket. -/
def items (value : Reader Json) : (fuel : Nat) → Reader (List Json)
  | 0, _ => .error .decode
  | fuel + 1, cs => do
    let (item, cs) ← value (skip cs)
    match skip cs with
    | ']' :: cs => return ([item], cs)
    | ',' :: cs =>
      let (rest, cs) ← items value fuel cs
      return (item :: rest, cs)
    | _ => .error .decode

/-- The members of a nonempty object, up to its brace. -/
def members (value : Reader Json) : (fuel : Nat) → Reader (List (String × Json))
  | 0, _ => .error .decode
  | fuel + 1, cs => do
    match skip cs with
    | '"' :: cs =>
      let (key, cs) ← string cs
      match skip cs with
      | ':' :: cs =>
        let (item, cs) ← value (skip cs)
        match skip cs with
        | '}' :: cs => return ([(key, item)], cs)
        | ',' :: cs =>
          let (rest, cs) ← members value fuel cs
          return ((key, item) :: rest, cs)
        | _ => .error .decode
      | _ => .error .decode
    | _ => .error .decode

/-- A value; `depth` more containers may be open inside each other. -/
def value : (depth : Nat) → Reader Json
  | _, '"' :: cs => (string cs).map fun (text, rest) => (.str text, rest)
  | 0, '[' :: _ => .error .recursion
  | 0, '{' :: _ => .error .recursion
  | depth + 1, '[' :: cs =>
    match skip cs with
    | ']' :: rest => .ok (.arr [], rest)
    | _ => (items (value depth) cs.length cs).map fun (items, rest) => (.arr items, rest)
  | depth + 1, '{' :: cs =>
    match skip cs with
    | '}' :: rest => .ok (.obj [], rest)
    | _ => (members (value depth) cs.length cs).map fun (members, rest) => (.obj members, rest)
  | _, cs => (ofToken (cs.takeWhile tokenChar)).map fun item => (item, cs.dropWhile tokenChar)

theorem value_quote (depth : Nat) (cs : List Char) :
    value depth ('"' :: cs) = (string cs).map fun (text, rest) => (.str text, rest) := by
  cases depth <;> rfl

theorem value_bracket (depth : Nat) (cs : List Char) : value (depth + 1) ('[' :: cs) =
    match skip cs with
    | ']' :: rest => .ok (.arr [], rest)
    | _ => (items (value depth) cs.length cs).map fun (items, rest) => (.arr items, rest) := rfl

theorem value_brace (depth : Nat) (cs : List Char) : value (depth + 1) ('{' :: cs) =
    match skip cs with
    | '}' :: rest => .ok (.obj [], rest)
    | _ => (members (value depth) cs.length cs).map fun (members, rest) => (.obj members, rest) := rfl

def loads (depth : Nat) (text : String) : Except Error Json := do
  let (item, rest) ← value depth (skip text.toList)
  if (skip rest).isEmpty then return item else .error .decode

end Json
