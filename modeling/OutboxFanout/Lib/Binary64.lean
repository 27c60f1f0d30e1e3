import Mathlib.Algebra.Ring.Int.Defs
import Mathlib.Algebra.Ring.Nat
import Mathlib.Data.List.Basic

/-!
# Binary floating point of double precision

Reading a decimal numeral to the nearest number, ties to even; the exact decimal
expansion of a number; and the shortest digits that read back as it, printed as
Python's `repr` and as Postgres print them.
-/

/-- `finite` stands for `(-1)^negative * mantissa * 2^exponent`. -/
inductive Binary64
  | finite (negative : Bool) (mantissa : Nat) (exponent : Int)
  | infinity (negative : Bool)
  | nan
  deriving DecidableEq, Repr

namespace Binary64

-- ---------------------------------------------------------------------------
-- Reading
-- ---------------------------------------------------------------------------

/-- `n / d` to the nearest integer, ties to even. -/
def halfEven (n d : Nat) : Nat :=
  let quotient := n / d
  let remainder := n % d
  if 2 * remainder < d ∨ 2 * remainder = d ∧ quotient % 2 = 0 then quotient else quotient + 1

/-- The greatest `k` with `2^k ≤ n / d`. -/
def floorLog2 (n d : Nat) : Int :=
  let k : Int := (n.log2 : Int) - d.log2
  if 0 ≤ k ∧ d * 2 ^ k.toNat ≤ n ∨ k < 0 ∧ d ≤ n * 2 ^ (-k).toNat then k else k - 1

/-- The number nearest to `n / d`, whose sign is given. -/
def nearest (negative : Bool) (n d : Nat) : Binary64 :=
  let e : Int := if n = 0 then -1074 else max (-1074) (floorLog2 n d - 52)
  let m := if 0 ≤ e then halfEven n (d * 2 ^ e.toNat) else halfEven (n * 2 ^ (-e).toNat) d
  -- the mantissa may have been rounded up to the next power of two
  let (m, e) := if m = 2 ^ 53 then (2 ^ 52, e + 1) else (m, e)
  if 971 < e then .infinity negative else .finite negative m e

/-- The decimal digits of `n`, of which `place` stand before the point of `n * 10^exponent`. -/
def place (n : Nat) (exponent : Int) : Int := (Nat.toDigits 10 n).length + exponent

/-- The number nearest to `n * 10^exponent`. -/
def ofDecimal (negative : Bool) (n : Nat) (exponent : Int) : Binary64 :=
  if n = 0 ∨ place n exponent < -330 then nearest negative 0 1
  else if 310 < place n exponent then .infinity negative
  else if 0 ≤ exponent then nearest negative (n * 10 ^ exponent.toNat) 1
  else nearest negative n (10 ^ (-exponent).toNat)

example : ofDecimal false 15 (-1) = .finite false (3 * 2 ^ 51) (-52) := by decide
example : ofDecimal false 9007199254740993 0 = .finite false (2 ^ 52) 1 := by decide

-- ---------------------------------------------------------------------------
-- Printing
-- ---------------------------------------------------------------------------

/-- The digits and the exponent of ten of `m * 2^e`. -/
def exact (m : Nat) (e : Int) : Nat × Int :=
  if 0 ≤ e then (m * 2 ^ e.toNat, 0)
  else
    let common := m.gcd (2 ^ (-e).toNat)
    let places := (2 ^ (-e).toNat / common).log2
    (m / common * 5 ^ places, -places)

/-- `n` digits that read back as `m * 2^e`, the nearer neighbour first. -/
def shortestOf (m : Nat) (e : Int) (n : Nat) : Option (Nat × Int) :=
  let (digits, exponent) := exact m e
  let last := place digits exponent - n
  let unit := 10 ^ (last - exponent).toNat
  let low := digits / unit
  let neighbours := if 2 * (digits % unit) ≤ unit then [low, low + 1] else [low + 1, low]
  (neighbours.find? fun d => ofDecimal false d last = .finite false m e).map fun d => (d, last)

/-- The fewest digits that read back as `m * 2^e`; 17 are always enough. -/
def shortest (m : Nat) (e : Int) : Nat × Int :=
  ((List.range 17).findSome? fun n => shortestOf m e (n + 1)).getD (exact m e)

/-- How a language prints. -/
structure Style where
  -- numbers with more places before the point are in scientific notation
  places : Int
  -- follows a number without a point
  whole : String
  infinity : String
  nan : String

def sign (negative : Bool) : String := if negative then "-" else ""

/-- Digits with the point after `point` of them. -/
def fixed (style : Style) (digits : List Char) (point : Int) : String :=
  if point ≤ 0 then "0." ++ String.ofList (List.replicate point.natAbs '0' ++ digits)
  else if digits.length ≤ point then
    String.ofList (digits ++ List.replicate (point - digits.length).toNat '0') ++ style.whole
  else String.ofList (digits.take point.toNat ++ '.' :: digits.drop point.toNat)

/-- One digit before the point and an exponent of two digits at least. -/
def scientific (digits : List Char) (exponent : Int) : String :=
  let fraction := if digits.length ≤ 1 then [] else '.' :: digits.tail
  let power := Nat.toDigits 10 exponent.natAbs
  String.ofList (digits.take 1 ++ fraction ++ 'e' :: (if exponent < 0 then '-' else '+') ::
    (List.replicate (2 - power.length) '0' ++ power))

def text (style : Style) : Binary64 → String
  | .nan => style.nan
  | .infinity negative => sign negative ++ style.infinity
  | .finite negative 0 _ => sign negative ++ "0" ++ style.whole
  | .finite negative m e =>
    let (n, last) := shortest m e
    let point := place n last
    let digits := ((Nat.toDigits 10 n).reverse.dropWhile (· = '0')).reverse
    sign negative ++
      if point ≤ -4 ∨ style.places < point then scientific digits (point - 1)
      else fixed style digits point

/-- `repr(x)` of a Python float. -/
def reprText : Binary64 → String := text ⟨16, ".0", "inf", "nan"⟩

/-- `x::text` of a Postgres double precision. -/
def float8Text : Binary64 → String := text ⟨15, "", "Infinity", "NaN"⟩

example : reprText (ofDecimal false 150 (-2)) = "1.5" := by decide +kernel
example : reprText (ofDecimal true 1 16) = "-1e+16" := by decide +kernel
example : reprText (ofDecimal false 56843418860808015 (-30)) = "5.684341886080802e-14" := by decide +kernel
example : float8Text (ofDecimal true 1 2) = "-100" := by decide +kernel

end Binary64
