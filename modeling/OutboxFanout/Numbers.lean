import Mathlib.Algebra.Field.Rat
import Mathlib.Algebra.Order.Field.Rat
import Mathlib.Tactic.NormNum
import Mathlib.Tactic.Positivity
import OutboxFanout.Lib.Binary64
import OutboxFanout.Python

/-!
# Numbers

The `int`s and `float`s of JSON, and `decimal.Decimal`: `str(decimal)`,
`Decimal(value)` for any value of a JSON text, and the rounding of a `numeric`
column.
-/

namespace OutboxFanout

/-- A finite `decimal.Decimal`: `(-1)^negative * coefficient * 10^exponent`. -/
structure Decimal where
  negative : Bool
  coefficient : Nat
  exponent : Int
  deriving DecidableEq, Repr

/-- Any `decimal.Decimal`; the payload of a NaN and the limits of exponents are left out. -/
inductive DecimalValue
  | finite (d : Decimal)
  | infinity (negative : Bool)
  | nan
  deriving DecidableEq, Repr

-- ---------------------------------------------------------------------------
-- Numerals
-- ---------------------------------------------------------------------------

/-- `([eE][-+]?\d+)?` -/
def exponent? (cs : List Char) : Option Int :=
  let digits := if cs.tail.head? = some '-' ∨ cs.tail.head? = some '+' then cs.tail.tail else cs.tail
  if cs = [] then some 0
  else if (cs.head? = some 'E' ∨ cs.head? = some 'e') ∧ digits ≠ [] ∧ digits.all Char.isDigit then
    let n : Int := Nat.ofDigitChars 10 digits 0
    some (if cs.tail.head? = some '-' then -n else n)
  else none

def unsigned (cs : List Char) : List Char :=
  if cs.head? = some '-' ∨ cs.head? = some '+' then cs.tail else cs

/-- `[-+]?(\d+\.?\d*|\.\d+)([eE][-+]?\d+)?` -/
def numeral? (cs : List Char) : Option Decimal :=
  let body := unsigned cs
  let int := body.takeWhile Char.isDigit
  let rest := body.dropWhile Char.isDigit
  let point := rest.head? = some '.'
  let frac := if point then rest.tail.takeWhile Char.isDigit else []
  let rest := if point then rest.tail.dropWhile Char.isDigit else rest
  if int = [] ∧ frac = [] then none
  else (exponent? rest).map fun e =>
    ⟨cs.head? = some '-', Nat.ofDigitChars 10 (int ++ frac) 0, e - frac.length⟩

/-- What `json.loads` makes of a number. -/
inductive Number
  | int (n : Int)
  | float (x : Binary64)
  deriving DecidableEq, Repr

def Number.ofLiteral (literal : { text : String // Json.isNumber text.toList = true }) : Number :=
  let cs := literal.1.toList
  if Json.isInt (Json.unsigned cs) then
    let n : Int := Nat.ofDigitChars 10 (Json.unsigned cs) 0
    .int (if cs.head? = some '-' then -n else n)
  else match numeral? cs with
    | some d => .float (Binary64.ofDecimal d.negative d.coefficient d.exponent)
    | none => .float (if cs = "NaN".toList then .nan else .infinity (cs.head? = some '-'))

def Number.str : Number → String
  | .int n => toString n
  | .float x => x.reprText

/-- `f"{value}"`; a list or dict is left in its JSON spelling. -/
def formatted : Json → String
  | .null => "None"
  | .bool true => "True"
  | .bool false => "False"
  | .num literal => (Number.ofLiteral literal).str
  | .str text => text
  | value => Json.dumps value

example : formatted (.num ⟨"-0", by decide⟩) = "0" := by decide
example : formatted (.num ⟨"1.50", by decide⟩) = "1.5" := by decide +kernel

-- ---------------------------------------------------------------------------
-- Decimals
-- ---------------------------------------------------------------------------

def signed (n : Int) : List Char :=
  (if 0 ≤ n then '+' else '-') :: Nat.toDigits 10 n.natAbs

/-- `str(decimal)`: scientific notation when the exponent is positive or the
number is small. -/
def Decimal.str (d : Decimal) : String :=
  let digits := Nat.toDigits 10 d.coefficient
  let leftDigits := d.exponent + digits.length
  let dotPlace := if d.exponent ≤ 0 ∧ -6 < leftDigits then leftDigits else 1
  let number :=
    if dotPlace ≤ 0 then '0' :: '.' :: (List.replicate dotPlace.natAbs '0' ++ digits)
    else if digits.length ≤ dotPlace then
      digits ++ List.replicate (dotPlace - digits.length).natAbs '0'
    else digits.take dotPlace.natAbs ++ '.' :: digits.drop dotPlace.natAbs
  let exponent := if leftDigits = dotPlace then [] else 'E' :: signed (leftDigits - dotPlace)
  String.ofList ((if d.negative then ['-'] else []) ++ number ++ exponent)

/-- `inf`, `infinity`, `nan` and `snan` in either case, the last two with digits behind. -/
def special? (cs : List Char) : Option DecimalValue :=
  let name := (unsigned cs).map Char.toLower
  if name = "inf".toList ∨ name = "infinity".toList then some (.infinity (cs.head? = some '-'))
  else
    let quiet := if name.head? = some 's' then name.tail else name
    if "nan".toList.isPrefixOf quiet ∧ (quiet.drop 3).all Char.isDigit then some .nan else none

/-- ASCII but NUL stays, other scripts' digits and spaces become ASCII's. -/
def decimalChar? (c : Char) : Option Char :=
  if 0 < c.toNat ∧ c.toNat ≤ 127 then some c
  else if isSpace c then some ' '
  else decimalDigit? c

/-- `Decimal(text)`. -/
def Decimal.parse (text : String) : Except Exc DecimalValue :=
  let cs := (stripped isSpace text.toList).filter (· ≠ '_')
  match (cs.mapM decimalChar?).bind fun cs => ((numeral? cs).map .finite).or (special? cs) with
  | some value => .ok value
  | none => .error (.plain "InvalidOperation" "[<class 'decimal.ConversionSyntax'>]")

/-- `Decimal(x)` is exact. -/
def Decimal.ofFloat : Binary64 → DecimalValue
  | .finite negative m e =>
    let (coefficient, exponent) := Binary64.exact m e
    .finite ⟨negative, coefficient, exponent⟩
  | .infinity negative => .infinity negative
  | .nan => .nan

/-- A value that is an `int`, `True` and `False` included. -/
def int? : Json → Option Int
  | .bool b => some b.toNat
  | .num literal => match Number.ofLiteral literal with
    | .int n => some n
    | .float _ => none
  | _ => none

def digit? (item : Json) : Option Nat :=
  (int? item).bind fun n => if 0 ≤ n ∧ n ≤ 9 then some n.toNat else none

/-- `Decimal([sign, digits, exponent])`. -/
def Decimal.ofParts (sign digits exponent : Json) : Except Exc DecimalValue := do
  let negative ← match int? sign with
    | some 0 => .ok false
    | some 1 => .ok true
    | _ => valueError "sign must be an integer with the value 0 or 1"
  let coefficient ← match digits with
    | .arr items => match items.mapM digit? with
      | some digits => .ok (digits.foldl (fun n d => 10 * n + d) 0)
      | none => valueError "coefficient must be a tuple of digits"
    | _ => valueError "coefficient must be a tuple of digits"
  match exponent, int? exponent with
  | .str "F", _ => return .infinity negative
  | .str "n", _ | .str "N", _ => return .nan
  | .str _, _ => valueError "string argument in the third position must be 'F', 'n' or 'N'"
  | _, some exponent => return .finite ⟨negative, coefficient, exponent⟩
  | _, none => valueError "exponent must be an integer"
where
  valueError {α : Type} (message : String) : Except Exc α := .error (.plain "ValueError" message)

/-- `Decimal(value)`. -/
def Decimal.new : Json → Except Exc DecimalValue
  | .str text => Decimal.parse text
  | .num literal => match Number.ofLiteral literal with
    | .int n => .ok (.finite ⟨n < 0, n.natAbs, 0⟩)
    | .float x => .ok (ofFloat x)
  | .bool b => .ok (.finite ⟨false, b.toNat, 0⟩)
  | .arr [sign, digits, exponent] => ofParts sign digits exponent
  | .arr _ => .error (.plain "ValueError" "argument must be a sequence of length 3")
  | .null => .error (.plain "TypeError" "conversion from NoneType to Decimal is not supported")
  | .obj _ => .error (.plain "TypeError" "conversion from dict to Decimal is not supported")

example : (Decimal.mk false 49999 (-2)).str = "499.99" := by decide
example : (Decimal.mk false 1 3).str = "1E+3" := by decide
example : (Decimal.parse "\x0c 4_99.99٠ ").toOption = some (.finite ⟨false, 499990, -3⟩) := by decide
example : (Decimal.parse "-sNaN12").toOption = some .nan := by decide
example : (Decimal.new (.num ⟨"0.10", by decide⟩)).toOption = some (.finite
    ⟨false, 1000000000000000055511151231257827021181583404541015625, -55⟩) := by decide +kernel

-- ---------------------------------------------------------------------------
-- Columns of a fixed scale
-- ---------------------------------------------------------------------------

/-- What a `numeric` column of this scale keeps of a value: it is rounded half
away from zero, and there is no negative zero. -/
def Decimal.toScale (scale : Nat) (d : Decimal) : Decimal :=
  let shift := d.exponent + scale
  let unit := 10 ^ shift.natAbs
  let coefficient := if 0 ≤ shift then d.coefficient * unit else (2 * d.coefficient + unit) / (2 * unit)
  { negative := d.negative && coefficient ≠ 0, coefficient, exponent := -scale }

example : (Decimal.mk false 5 1).toScale 2 = ⟨false, 5000, -2⟩ := by decide
example : (Decimal.mk true 125 (-3)).toScale 2 = ⟨true, 13, -2⟩ := by decide

def Decimal.value (d : Decimal) : Rat :=
  (if d.negative then -1 else 1) * (d.coefficient * 10 ^ d.exponent)

theorem Decimal.toScale_coefficient {d : Decimal} {scale n : Nat}
    (h : (d.coefficient : Rat) * 10 ^ d.exponent * 10 ^ scale = n) :
    (d.toScale scale).coefficient = n := by
  have hshift : (d.coefficient : Rat) * 10 ^ (d.exponent + scale) = n := by
    rw [zpow_add₀ (by norm_num), zpow_natCast, ← mul_assoc, h]
  simp only [toScale]
  split
  next hpos =>
    obtain ⟨m, hm⟩ := Int.eq_ofNat_of_zero_le hpos
    rw [hm, zpow_natCast] at hshift
    rw [hm, Int.natAbs_natCast]
    exact_mod_cast hshift
  next hneg =>
    obtain ⟨m, hm⟩ := Int.exists_eq_neg_ofNat (Int.le_of_lt (Int.not_le.mp hneg))
    rw [hm, zpow_neg, zpow_natCast, ← div_eq_mul_inv, div_eq_iff (by positivity)] at hshift
    have hunits : d.coefficient = n * 10 ^ m := by exact_mod_cast hshift
    rw [hm, Int.natAbs_neg, Int.natAbs_natCast, hunits]
    calc (2 * (n * 10 ^ m) + 10 ^ m) / (2 * 10 ^ m) = (2 * n + 1) * 10 ^ m / (2 * 10 ^ m) := by ring_nf
      _ = (2 * n + 1) / 2 := Nat.mul_div_mul_right _ _ (by positivity)
      _ = n := by omega

/-- A value that has no more decimals is kept. -/
theorem Decimal.toScale_value {d : Decimal} {scale n : Nat}
    (h : (d.coefficient : Rat) * 10 ^ d.exponent * 10 ^ scale = n) :
    (d.toScale scale).value = d.value := by
  have hcoefficient := toScale_coefficient h
  have hvalue : (n : Rat) * 10 ^ (-scale : Int) = d.coefficient * 10 ^ d.exponent := by
    rw [← h, zpow_neg, zpow_natCast, mul_assoc, mul_inv_cancel₀ (by positivity), mul_one]
  have hsign : (d.toScale scale).negative = (d.negative && n ≠ 0) := by rw [← hcoefficient]; rfl
  have hexponent : (d.toScale scale).exponent = -scale := rfl
  rw [value, value, hsign, hcoefficient, hexponent, hvalue, ← hvalue]
  by_cases hn : n = 0
  · simp [hn]
  · simp [hn]

end OutboxFanout
