import Mathlib.Data.BitVec
import Mathlib.Data.List.Basic
import OutboxFanout.Lib.Json

/-!
# The Python values the services pass around

Exceptions, dicts from JSON, UTC datetimes and UUIDs, with the conversions to and
from text the source calls: `json.loads`, `isoformat()`, `str(uuid)` and
`uuid.UUID(text)`.
-/

namespace OutboxFanout

/-- A raised exception: what `record_failure` and `is_permanent` read of it.
`errorCode` is `some code` for a botocore `ClientError`, with
`exc.response.get("Error", {}).get("Code", "")` as the code. -/
structure Exc where
  typeName : String
  message : String
  errorCode : Option String
  deriving DecidableEq, Repr

/-- `raise KeyError(..)` and the like: any exception that is no `ClientError`. -/
def Exc.plain (typeName message : String) : Exc := ⟨typeName, message, none⟩

-- ---------------------------------------------------------------------------
-- JSON
-- ---------------------------------------------------------------------------

/-- `json.loads(text)`; `depth` is the nesting the interpreter allows. -/
def jsonLoads (depth : Nat) (text : String) : Except Exc Json :=
  (Json.loads depth text).mapError fun
    | .decode => .plain "JSONDecodeError" "Expecting value"
    | .recursion => .plain "RecursionError" "maximum recursion depth exceeded"
    | .digits => .plain "ValueError" "Exceeds the limit (4300 digits) for integer string conversion"

/-- `value[key]`. -/
def getItem (value : Json) (key : String) : Except Exc Json :=
  match value, value.member? key with
  | _, some item => .ok item
  | .obj _, none => .error (.plain "KeyError" key)
  | _, none => .error (.plain "TypeError" "not subscriptable by a str")

-- ---------------------------------------------------------------------------
-- Datetimes
-- ---------------------------------------------------------------------------

/-- `datetime.now(timezone.utc)`. -/
structure Datetime where
  year : Nat
  month : Nat
  day : Nat
  hour : Nat
  minute : Nat
  second : Nat
  microsecond : Nat
  deriving DecidableEq, Repr

/-- Position on the time line; the fields are in range, so this orders
datetimes as Postgres and Python do. -/
def Datetime.key (t : Datetime) : Nat :=
  (((((t.year * 13 + t.month) * 32 + t.day) * 24 + t.hour) * 60 + t.minute) * 60 + t.second)
    * 1000000 + t.microsecond

instance : LE Datetime := ⟨fun s t => s.key ≤ t.key⟩
instance : LT Datetime := ⟨fun s t => s.key < t.key⟩
instance (s t : Datetime) : Decidable (s ≤ t) := inferInstanceAs (Decidable (s.key ≤ t.key))
instance (s t : Datetime) : Decidable (s < t) := inferInstanceAs (Decidable (s.key < t.key))

theorem Datetime.le_def {s t : Datetime} : s ≤ t ↔ s.key ≤ t.key := Iff.rfl
theorem Datetime.lt_def {s t : Datetime} : s < t ↔ s.key < t.key := Iff.rfl

/-- Decimal digits, padded with zeros on the left. -/
def padded (width n : Nat) : String :=
  let digits := Nat.toDigits 10 n
  String.ofList (List.replicate (width - digits.length) '0' ++ digits)

def Datetime.isoformat (t : Datetime) : String :=
  padded 4 t.year ++ "-" ++ padded 2 t.month ++ "-" ++ padded 2 t.day ++ "T" ++
    padded 2 t.hour ++ ":" ++ padded 2 t.minute ++ ":" ++ padded 2 t.second ++
    (if t.microsecond = 0 then "" else "." ++ padded 6 t.microsecond) ++ "+00:00"

example : (Datetime.mk 2024 3 9 17 5 0 20).isoformat = "2024-03-09T17:05:00.000020+00:00" := by
  decide

-- ---------------------------------------------------------------------------
-- Characters
-- ---------------------------------------------------------------------------

/-- `c.isspace()`. -/
def isSpace (c : Char) : Bool :=
  (0x9 ≤ c.toNat ∧ c.toNat ≤ 0xd) ∨ (0x1c ≤ c.toNat ∧ c.toNat ≤ 0x20) ∨
    (0x2000 ≤ c.toNat ∧ c.toNat ≤ 0x200a) ∨
    c.toNat ∈ [0x85, 0xa0, 0x1680, 0x2028, 0x2029, 0x202f, 0x205f, 0x3000]

/-- The decimal zeros of Unicode 15.1; the nine other digits follow each. -/
def decimalZeros : List Nat := [
  0x30, 0x660, 0x6f0, 0x7c0, 0x966, 0x9e6, 0xa66, 0xae6, 0xb66, 0xbe6, 0xc66, 0xce6, 0xd66, 0xde6,
  0xe50, 0xed0, 0xf20, 0x1040, 0x1090, 0x17e0, 0x1810, 0x1946, 0x19d0, 0x1a80, 0x1a90, 0x1b50,
  0x1bb0, 0x1c40, 0x1c50, 0xa620, 0xa8d0, 0xa900, 0xa9d0, 0xa9f0, 0xaa50, 0xabf0, 0xff10, 0x104a0,
  0x10d30, 0x11066, 0x110f0, 0x11136, 0x111d0, 0x112f0, 0x11450, 0x114d0, 0x11650, 0x116c0,
  0x11730, 0x118e0, 0x11950, 0x11c50, 0x11d50, 0x11da0, 0x11f50, 0x16a60, 0x16ac0, 0x16b50,
  0x1d7ce, 0x1d7d8, 0x1d7e2, 0x1d7ec, 0x1d7f6, 0x1e140, 0x1e2f0, 0x1e4f0, 0x1e950, 0x1fbf0]

/-- `unicodedata.decimal(c)`, as an ASCII digit. -/
def decimalDigit? (c : Char) : Option Char :=
  (decimalZeros.find? fun first => first ≤ c.toNat ∧ c.toNat < first + 10).map fun first =>
    Char.ofNat (0x30 + (c.toNat - first))

example : decimalDigit? '٣' = some '3' := by decide

/-- `text.strip(chars)`. -/
def stripped (drop : Char → Bool) (cs : List Char) : List Char :=
  ((cs.dropWhile drop).reverse.dropWhile drop).reverse

-- ---------------------------------------------------------------------------
-- UUIDs
-- ---------------------------------------------------------------------------

structure UUID where
  int : BitVec 128
  deriving DecidableEq, Repr

/-- The 8-4-4-4-12 grouping of 32 hex digits. -/
def dashed (hex : List Char) : List Char :=
  hex.take 8 ++ '-' :: ((hex.drop 8).take 4 ++ '-' :: ((hex.drop 12).take 4 ++
    '-' :: ((hex.drop 16).take 4 ++ '-' :: hex.drop 20)))

def UUID.str (u : UUID) : String :=
  String.ofList (dashed (Hex.digits 32 u.int.toNat))

example : (UUID.mk 0x9f5c4013a1b24c3d8e9f001122334455).str = "9f5c4013-a1b2-4c3d-8e9f-001122334455" := by
  decide

/-- `text.replace(pattern, "")`; `skip` characters of a match are still to go. -/
def removeAll (pattern : List Char) : (skip : Nat) → List Char → List Char
  | _, [] => []
  | skip + 1, _ :: cs => removeAll pattern skip cs
  | 0, c :: cs =>
    if pattern.isPrefixOf (c :: cs) then removeAll pattern (pattern.length - 1) cs
    else c :: removeAll pattern 0 cs

/-- Digits with single underscores between them, as `int(text, 16)` reads them. -/
def hexRun : (afterDigit : Bool) → Nat → List Char → Option Nat
  | true, n, [] => some n
  | false, _, [] => none
  | afterDigit, n, c :: cs =>
    if c = '_' then if afterDigit then hexRun false n cs else none
    else (Hex.digit? c).bind fun d => hexRun true (16 * n + d) cs

def dropHexPrefix : List Char → List Char
  | c :: x :: cs =>
    if c = '0' ∧ (x = 'x' ∨ x = 'X') then if cs.head? = some '_' then cs.tail else cs
    else c :: x :: cs
  | cs => cs

/-- What `int` makes of a character before it parses: `?` is no digit of any base. -/
def intChar (c : Char) : Char :=
  if c.toNat < 127 then c else if isSpace c then ' ' else (decimalDigit? c).getD '?'

/-- C's `isspace`. -/
def isAsciiSpace (c : Char) : Bool := c = ' ' ∨ (0x9 ≤ c.toNat ∧ c.toNat ≤ 0xd)

/-- `int(text, 16)`. -/
def parseHexInt (cs : List Char) : Option Int :=
  let cs := stripped isAsciiSpace (cs.map intChar)
  if cs.head? = some '-' then (hexRun false 0 (dropHexPrefix cs.tail)).map fun n => -(n : Int)
  else if cs.head? = some '+' then (hexRun false 0 (dropHexPrefix cs.tail)).map Int.ofNat
  else (hexRun false 0 (dropHexPrefix cs)).map Int.ofNat

/-- `uuid.UUID(text)`. -/
def UUID.parse (text : String) : Except Exc UUID :=
  let cs := removeAll "uuid:".toList 0 (removeAll "urn:".toList 0 text.toList)
  let hex := (stripped (fun c => c = '{' ∨ c = '}') cs).filter (· ≠ '-')
  if hex.length ≠ 32 then
    .error (.plain "ValueError" "badly formed hexadecimal UUID string")
  else match parseHexInt hex with
    | none =>
      .error (.plain "ValueError" ("invalid literal for int() with base 16: " ++ String.ofList hex))
    | some n =>
      if 0 ≤ n ∧ n < 2 ^ 128 then .ok ⟨BitVec.ofInt 128 n⟩
      else .error (.plain "ValueError" "int is out of range (need a 128-bit value)")

example : UUID.parse "\x7b٩f5c4013-a1b24c3d8e9f00112233445\x0c-\x7d" =
    .ok ⟨0x9f5c4013a1b24c3d8e9f00112233445⟩ := by
  decide

/-- What makes a hex digit harmless to every textual clean-up step. -/
theorem hexDigit_plain : ∀ d < 16, Hex.digit? (Hex.digit d) = some d ∧ Hex.digit d ≠ '_' ∧
    Hex.digit d ≠ '-' ∧ Hex.digit d ≠ '+' ∧ Hex.digit d ≠ 'u' ∧ Hex.digit d ≠ '{' ∧
    Hex.digit d ≠ '}' ∧ Hex.digit d ≠ 'x' ∧ Hex.digit d ≠ 'X' ∧ isAsciiSpace (Hex.digit d) = false ∧
    intChar (Hex.digit d) = Hex.digit d := by
  decide

theorem removeAll_of_notMem (hp : pattern.head? = some p) (hc : p ∉ cs) :
    removeAll pattern 0 cs = cs := by
  induction cs with
  | nil => rfl
  | cons c cs ih =>
    obtain ⟨hne, hrest⟩ := List.ne_and_not_mem_of_not_mem_cons hc
    have hmiss : pattern.isPrefixOf (c :: cs) = false := by
      cases pattern with
      | nil => cases hp
      | cons q qs =>
        obtain rfl : q = p := by simpa using hp
        simp [List.isPrefixOf, hne]
    simp [removeAll, hmiss, ih hrest]

theorem stripped_of_all {drop : Char → Bool} (h : ∀ c ∈ cs, drop c = false) :
    stripped drop cs = cs := by
  have keep : ∀ l : List Char, (∀ c ∈ l, drop c = false) → l.dropWhile drop = l := by
    intro l hl
    cases l with
    | nil => rfl
    | cons c cs => simp [hl c (by simp)]
  rw [stripped, keep cs h, keep cs.reverse (by simpa using h), List.reverse_reverse]

theorem hexRun_hexDigits (width n acc : Nat) (cs : List Char) (b : Bool) (hw : 0 < width) :
    hexRun b acc (Hex.digits width n ++ cs) = hexRun true (16 ^ width * acc + n % 16 ^ width) cs := by
  induction width generalizing n acc cs b with
  | zero => omega
  | succ width ih =>
    obtain ⟨hval, hne, -⟩ := hexDigit_plain (n % 16) (Nat.mod_lt _ (by decide))
    have last : ∀ b acc, hexRun b acc (Hex.digit (n % 16) :: cs) = hexRun true (16 * acc + n % 16) cs := by
      intro b acc
      simp [hexRun, hval, hne]
    rcases Nat.eq_zero_or_pos width with rfl | hpos
    · simp [Hex.digits, last]
    · rw [Hex.digits, List.append_assoc, ih _ _ _ _ hpos, List.singleton_append, last,
        Hex.mod_pow_succ, Nat.pow_succ]
      ring_nf

theorem mem_dashed (h : c ∈ dashed hex) : c = '-' ∨ c ∈ hex := by
  simp only [dashed, List.mem_append, List.mem_cons] at h
  rcases h with h | h | h | h | h | h | h | h | h
  all_goals first
    | exact .inl h
    | exact .inr (List.mem_of_mem_take h)
    | exact .inr (List.mem_of_mem_drop (List.mem_of_mem_take h))
    | exact .inr (List.mem_of_mem_drop h)

theorem filter_dashed (h : ∀ c ∈ hex, c ≠ '-') : (dashed hex).filter (· ≠ '-') = hex := by
  have keep : ∀ l : List Char, l.Sublist hex → l.filter (· ≠ '-') = l := fun l hl =>
    List.filter_eq_self.mpr fun c hc => by simpa using h c (hl.subset hc)
  have h12 : hex.drop 12 = (hex.drop 8).drop 4 := by rw [List.drop_drop]
  have h16 : hex.drop 16 = (hex.drop 12).drop 4 := by rw [List.drop_drop]
  have h20 : hex.drop 20 = (hex.drop 16).drop 4 := by rw [List.drop_drop]
  have middle : ∀ k, ((hex.drop k).take 4).filter (· ≠ '-') = (hex.drop k).take 4 := fun k =>
    keep _ ((List.take_sublist ..).trans (List.drop_sublist ..))
  simp only [dashed, List.filter_append, List.filter_cons, ne_eq, not_true_eq_false, decide_false,
    Bool.false_eq_true, ↓reduceIte]
  rw [keep _ (List.take_sublist ..), middle, middle, middle, keep _ (List.drop_sublist ..), h20,
    List.take_append_drop, h16, List.take_append_drop, h12, List.take_append_drop,
    List.take_append_drop]

theorem parseHexInt_hexDigits (hw : 0 < width) (n : Nat) :
    parseHexInt (Hex.digits width n) = some ((n % 16 ^ width : Nat) : Int) := by
  have hmem : ∀ c ∈ Hex.digits width n, ∃ d < 16, c = Hex.digit d := fun c h => Hex.mem_digits h
  have hrun := hexRun_hexDigits width n 0 [] false hw
  have hlen := Hex.digits_length width n
  generalize Hex.digits width n = hex at hmem hrun hlen
  have hchars : hex.map intChar = hex := by
    refine (List.map_congr_left fun c hc => ?_).trans (List.map_id hex)
    obtain ⟨d, hd, rfl⟩ := hmem c hc
    exact (hexDigit_plain d hd).2.2.2.2.2.2.2.2.2.2
  have hspace : stripped isAsciiSpace hex = hex := by
    refine stripped_of_all fun c hc => ?_
    obtain ⟨d, hd, rfl⟩ := hmem c hc
    exact (hexDigit_plain d hd).2.2.2.2.2.2.2.2.2.1
  have hhead : ∀ s, s = '-' ∨ s = '+' → hex.head? ≠ some s := by
    intro s hs hh
    obtain ⟨d, hd, hc⟩ := hmem s (List.mem_of_head? hh)
    obtain ⟨-, -, hminus, hplus, -⟩ := hexDigit_plain d hd
    rcases hs with rfl | rfl
    · exact hminus hc.symm
    · exact hplus hc.symm
  have hprefix : dropHexPrefix hex = hex := by
    cases hex with
    | nil => rfl
    | cons c cs =>
      cases cs with
      | nil => rfl
      | cons x cs =>
        obtain ⟨d, hd, rfl⟩ := hmem x (by simp)
        obtain ⟨-, -, -, -, -, -, -, hx, hX, -⟩ := hexDigit_plain d hd
        simp [dropHexPrefix, hx, hX]
  simp only [List.append_nil, Nat.mul_zero, Nat.zero_add] at hrun
  simp [parseHexInt, hchars, hspace, hhead, hprefix, hrun, hexRun]

/-- `uuid.UUID(str(u)) == u`. -/
theorem UUID.parse_str (u : UUID) : UUID.parse u.str = .ok u := by
  have hmem : ∀ c ∈ Hex.digits 32 u.int.toNat, ∃ d < 16, c = Hex.digit d := fun c h =>
    Hex.mem_digits h
  have hclean : ∀ c ∈ dashed (Hex.digits 32 u.int.toNat), c ≠ 'u' ∧ c ≠ '{' ∧ c ≠ '}' := by
    intro c hc
    rcases mem_dashed hc with rfl | hc
    · decide
    · obtain ⟨d, hd, rfl⟩ := hmem c hc
      obtain ⟨-, -, -, -, hu, hl, hr, -⟩ := hexDigit_plain d hd
      exact ⟨hu, hl, hr⟩
  have hminus : ∀ c ∈ Hex.digits 32 u.int.toNat, c ≠ '-' := by
    intro c hc
    obtain ⟨d, hd, rfl⟩ := hmem c hc
    exact (hexDigit_plain d hd).2.2.1
  have hsmall : u.int.toNat % 16 ^ 32 = u.int.toNat := Nat.mod_eq_of_lt u.int.isLt
  have hbound : (u.int.toNat : Int) < 2 ^ 128 := by exact_mod_cast u.int.isLt
  have hback : BitVec.ofInt 128 u.int.toNat = u.int := by simp
  have hu : 'u' ∉ dashed (Hex.digits 32 u.int.toNat) := fun h => (hclean _ h).1 rfl
  have htext : u.str.toList = dashed (Hex.digits 32 u.int.toNat) := String.toList_ofList
  have hurn := removeAll_of_notMem (show "urn:".toList.head? = some 'u' from rfl) hu
  have huuid := removeAll_of_notMem (show "uuid:".toList.head? = some 'u' from rfl) hu
  have hbraces : stripped (fun c => c = '{' ∨ c = '}') (dashed (Hex.digits 32 u.int.toNat)) =
      dashed (Hex.digits 32 u.int.toNat) :=
    stripped_of_all fun c hc => by simpa using (hclean c hc).2
  simp only [UUID.parse, htext, hurn, huuid, hbraces, filter_dashed hminus, Hex.digits_length,
    parseHexInt_hexDigits (show 0 < 32 by decide), hsmall, hbound, ne_eq, not_true_eq_false,
    ↓reduceIte, Int.natCast_nonneg, and_self, hback]

/-- `uuid.UUID(value)`. -/
def UUID.new : Json → Except Exc UUID
  | .str text => UUID.parse text
  | .null =>
    .error (.plain "TypeError" "one of the hex, bytes, bytes_le, fields, or int arguments must be given")
  | _ => .error (.plain "AttributeError" "object has no attribute 'replace'")

theorem UUID.new_str (u : UUID) : UUID.new (.str u.str) = .ok u := UUID.parse_str u

end OutboxFanout
