import OutboxFanout.Numbers

/-!
# Decimals survive their text

`Decimal(str(d))` is `d`, coefficient and exponent included. `str` writes
digits with at most one point among them and an exponent behind (`parse_parts`
reads such a text); where the point stands and what the exponent then is
differs from case to case, their difference does not.
-/

namespace OutboxFanout

/-- What `Decimal(text)` takes as it stands. -/
def Numeral (cs : List Char) : Prop :=
  ∀ c ∈ cs, isSpace c = false ∧ c ≠ '_' ∧ decimalChar? c = some c

theorem isDigit_plain (h : Char.isDigit c = true) :
    (isSpace c = false ∧ c ≠ '_' ∧ decimalChar? c = some c) ∧ c ≠ '-' ∧ c ≠ '+' := by
  have hrange : 48 ≤ c.toNat ∧ c.toNat ≤ 57 := by
    simp only [Char.isDigit, Bool.and_eq_true, decide_eq_true_eq] at h
    exact h
  refine ⟨⟨?_, ?_, ?_⟩, ?_, ?_⟩
  · simp only [isSpace, List.mem_cons, List.not_mem_nil, or_false, decide_eq_false_iff_not]
    omega
  · rintro rfl
    cases h
  · exact if_pos (by omega)
  all_goals
    rintro rfl
    cases h

theorem numeral_digits (h : ∀ c ∈ cs, Char.isDigit c = true) : Numeral cs := fun c hc =>
  (isDigit_plain (h c hc)).1

theorem Numeral.append (h : Numeral cs) (h' : Numeral ds) : Numeral (cs ++ ds) := by
  intro c hc
  rcases List.mem_append.mp hc with hc | hc
  · exact h c hc
  · exact h' c hc

theorem Numeral.cons (hc : isSpace c = false ∧ c ≠ '_' ∧ decimalChar? c = some c) (h : Numeral cs) :
    Numeral (c :: cs) := by
  intro c' hc'
  rcases List.mem_cons.mp hc' with rfl | hc'
  · exact hc
  · exact h c' hc'

theorem toDigits_isDigit : ∀ c ∈ Nat.toDigits 10 n, c.isDigit = true := fun _ hc =>
  Nat.isDigit_of_mem_toDigits (by decide) (by decide) hc

/-- The exponent as `str` writes it. -/
def exponentText (n : Int) : List Char := if n = 0 then [] else 'E' :: signed n

theorem numeral_exponentText : Numeral (exponentText n) := by
  unfold exponentText signed
  split
  · exact nofun
  · refine .cons (by decide) (.cons ?_ (numeral_digits toDigits_isDigit))
    split <;> decide

theorem exponent?_exponentText : exponent? (exponentText n) = some n := by
  unfold exponentText
  split
  next h => simp [exponent?, h]
  next h =>
    have hall : (Nat.toDigits 10 n.natAbs).all Char.isDigit = true :=
      List.all_eq_true.mpr toDigits_isDigit
    rcases lt_or_ge n 0 with hneg | hpos
    · simp [exponent?, signed, Int.not_le.mpr hneg, Nat.toDigits_ne_nil, hall,
        Nat.ofDigitChars_ten_toDigits, Int.ofNat_natAbs_of_nonpos hneg.le]
    · simp [exponent?, signed, hpos, Nat.toDigits_ne_nil, hall,
        Nat.ofDigitChars_ten_toDigits, Int.natAbs_of_nonneg hpos]

/-- What follows the integer digits; a point may be the last character. -/
def pointText : Option (List Char) → List Char
  | none => []
  | some frac => '.' :: frac

/-- Digits stop at what follows them. -/
theorem takeWhile_digits {p : Char → Bool} {cs rest : List Char} (h : ∀ c ∈ cs, p c = true)
    (hrest : ∀ c ∈ rest.head?, p c = false) :
    (cs ++ rest).takeWhile p = cs ∧ (cs ++ rest).dropWhile p = rest := by
  rw [List.takeWhile_append_of_pos h, List.dropWhile_append_of_pos h]
  cases rest with
  | nil => simp
  | cons c rest =>
    have hc : p c = false := hrest c rfl
    simp [hc]

theorem exponentText_head : ∀ c ∈ (exponentText n).head?, c = 'E' := by
  unfold exponentText
  split <;> simp

theorem Numeral.parse (h : Numeral cs) (hread : numeral? cs = some d) :
    Decimal.parse (String.ofList cs) = .ok (.finite d) := by
  have hclean : (stripped isSpace cs).filter (· ≠ '_') = cs := by
    rw [stripped_of_all fun c hc => (h c hc).1]
    exact List.filter_eq_self.mpr fun c hc => by simpa using (h c hc).2.1
  have hchars : ∀ {cs : List Char}, Numeral cs → cs.mapM decimalChar? = some cs := by
    intro cs
    induction cs with
    | nil => exact fun _ => rfl
    | cons c cs ih =>
      intro h
      obtain ⟨hc, hcs⟩ := List.forall_mem_cons.mp h
      simp [hc.2.2, ih hcs]
  simp only [Decimal.parse, String.toList_ofList]
  rw [hclean, hchars h]
  simp [hread]

/-- The sign and the integer digits, and what is read of the rest. -/
theorem numeral?_signed {int rest frac tail : List Char} (hint : ∀ c ∈ int, c.isDigit = true)
    (hne : int ≠ []) (hstop : ∀ c ∈ rest.head?, c.isDigit = false)
    (hfrac : frac = if rest.head? = some '.' then rest.tail.takeWhile Char.isDigit else [])
    (htail : tail = if rest.head? = some '.' then rest.tail.dropWhile Char.isDigit else rest)
    (hexponent : exponent? tail = some e) :
    numeral? ((if negative then ['-'] else []) ++ (int ++ rest)) =
      some ⟨negative, Nat.ofDigitChars 10 (int ++ frac) 0, e - frac.length⟩ := by
  obtain ⟨htake, hdrop⟩ := takeWhile_digits hint hstop
  have hhead : int.head? ≠ some '-' ∧ int.head? ≠ some '+' := by
    obtain ⟨first, digits, rfl⟩ := List.exists_cons_of_ne_nil hne
    obtain ⟨-, hminus, hplus⟩ := isDigit_plain (hint first List.mem_cons_self)
    simp [hminus, hplus]
  unfold numeral? unsigned
  cases negative with
  | false => simp [hhead, htake, hdrop, ← hfrac, ← htail, hexponent, hne]
  | true => simp [htake, hdrop, ← hfrac, ← htail, hexponent, hne]

theorem parse_parts {int : List Char} {point : Option (List Char)}
    (hint : ∀ c ∈ int, c.isDigit = true)
    (hne : int ≠ []) (hpoint : ∀ c ∈ point.getD [], c.isDigit = true) :
    Decimal.parse (String.ofList ((if negative then ['-'] else []) ++
      (int ++ (pointText point ++ exponentText e)))) =
      .ok (.finite ⟨negative, Nat.ofDigitChars 10 (int ++ point.getD []) 0,
        e - (point.getD []).length⟩) := by
  have hstop : ∀ c ∈ (exponentText e).head?, c.isDigit = false ∧ c ≠ '.' := by
    intro c hc
    obtain rfl := exponentText_head c hc
    decide
  have hrest : Numeral (pointText point ++ exponentText e) := by
    cases point with
    | none => exact numeral_exponentText
    | some frac => exact .cons (by decide) ((numeral_digits hpoint).append numeral_exponentText)
  have htext : Numeral ((if negative then ['-'] else []) ++
      (int ++ (pointText point ++ exponentText e))) := by
    refine Numeral.append ?_ ((numeral_digits hint).append hrest)
    cases negative
    · exact nofun
    · exact .cons (by decide) nofun
  refine htext.parse ?_
  cases point with
  | none =>
    have hdot : (exponentText e).head? ≠ some '.' := fun h => (hstop '.' h).2 rfl
    exact numeral?_signed hint hne (fun c hc => (hstop c hc).1) (by simp [pointText, hdot])
      (by simp [pointText, hdot]) exponent?_exponentText
  | some frac =>
    obtain ⟨htake, hdrop⟩ := takeWhile_digits hpoint fun c hc => (hstop c hc).1
    refine numeral?_signed hint hne (by simp [pointText]) ?_ ?_ exponent?_exponentText
    · simpa [pointText] using htake.symm
    · simpa [pointText] using hdrop.symm

/-- The digits with a point after `dotPlace` of them, which are not too few. -/
theorem number_parts {digits : List Char} {dotPlace : Int} (hdigits : ∀ c ∈ digits, c.isDigit = true)
    (hle : dotPlace ≤ digits.length) : ∃ (int : List Char) (point : Option (List Char)),
    (if dotPlace ≤ 0 then '0' :: '.' :: (List.replicate dotPlace.natAbs '0' ++ digits)
      else if digits.length ≤ dotPlace then
        digits ++ List.replicate (dotPlace - digits.length).natAbs '0'
      else digits.take dotPlace.natAbs ++ '.' :: digits.drop dotPlace.natAbs) = int ++ pointText point ∧
    (∀ c ∈ int, c.isDigit = true) ∧ int ≠ [] ∧ (∀ c ∈ point.getD [], c.isDigit = true) ∧
    Nat.ofDigitChars 10 (int ++ point.getD []) 0 = Nat.ofDigitChars 10 digits 0 ∧
    ((point.getD []).length : Int) = digits.length - dotPlace := by
  split
  next hneg =>
    refine ⟨['0'], some (List.replicate dotPlace.natAbs '0' ++ digits), rfl, by simp, by simp, ?_, ?_, ?_⟩
    · intro c hc
      rcases List.mem_append.mp hc with hc | hc
      · rw [List.eq_of_mem_replicate hc]
        decide
      · exact hdigits c hc
    · have hzeros : ['0'] ++ (List.replicate dotPlace.natAbs '0' ++ digits) =
          List.replicate (dotPlace.natAbs + 1) '0' ++ digits := rfl
      rw [Option.getD_some, hzeros, Nat.ofDigitChars_append, Nat.ofDigitChars_replicate_zero, Nat.mul_zero]
    · simp only [Option.getD_some, List.length_append, List.length_replicate]
      omega
  next hpos =>
    split
    next hall =>
      have hlen : dotPlace = digits.length := le_antisymm hle hall
      refine ⟨digits, none, ?_, hdigits, ?_, nofun, by simp, by simp [hlen]⟩
      · simp [hlen, pointText]
      · rintro rfl
        exact hpos hlen.le
    next hsome =>
      refine ⟨digits.take dotPlace.natAbs, some (digits.drop dotPlace.natAbs), rfl, ?_, ?_, ?_, ?_, ?_⟩
      · exact fun c hc => hdigits c (List.mem_of_mem_take hc)
      · rw [ne_eq, List.take_eq_nil_iff]
        rintro (hzero | rfl)
        · omega
        · exact hsome (Int.not_le.mp hpos).le
      · exact fun c hc => hdigits c (List.mem_of_mem_drop hc)
      · rw [Option.getD_some, List.take_append_drop]
      · simp only [Option.getD_some, List.length_drop]
        omega

/-- `str` writes a sign, digits with a point among them at most, and an exponent. -/
theorem str_parts (d : Decimal) : ∃ (int : List Char) (point : Option (List Char)) (e : Int),
    d.str = String.ofList ((if d.negative then ['-'] else []) ++
      (int ++ (pointText point ++ exponentText e))) ∧
    (∀ c ∈ int, c.isDigit = true) ∧ int ≠ [] ∧ (∀ c ∈ point.getD [], c.isDigit = true) ∧
    Nat.ofDigitChars 10 (int ++ point.getD []) 0 = d.coefficient ∧
    e - (point.getD []).length = d.exponent := by
  let digits := Nat.toDigits 10 d.coefficient
  let leftDigits := d.exponent + digits.length
  let dotPlace := if d.exponent ≤ 0 ∧ -6 < leftDigits then leftDigits else 1
  have hlen : 0 < digits.length := Nat.length_toDigits_pos
  have hle : dotPlace ≤ digits.length := by
    simp only [dotPlace, leftDigits]
    split <;> omega
  obtain ⟨int, point, hnumber, hint, hne, hpoint, hvalue, hplaces⟩ :=
    number_parts (fun c hc => toDigits_isDigit c hc) hle
  refine ⟨int, point, leftDigits - dotPlace, ?_, hint, hne, hpoint, ?_, ?_⟩
  · have hexponent : (if leftDigits = dotPlace then [] else 'E' :: signed (leftDigits - dotPlace)) =
        exponentText (leftDigits - dotPlace) := by
      simp only [exponentText, sub_eq_zero]
    rw [← List.append_assoc int, ← hnumber, ← hexponent, ← List.append_assoc]
    rfl
  · exact hvalue.trans Nat.ofDigitChars_ten_toDigits
  · rw [hplaces]
    show d.exponent + (digits.length : Int) - dotPlace - (digits.length - dotPlace) = d.exponent
    omega

/-- `Decimal(str(d)) == d`. -/
theorem Decimal.parse_str (d : Decimal) : Decimal.parse d.str = .ok (.finite d) := by
  obtain ⟨int, point, e, htext, hint, hne, hpoint, hcoefficient, hexponent⟩ := str_parts d
  rw [htext, parse_parts hint hne hpoint, hcoefficient, hexponent]

theorem Decimal.new_str (d : Decimal) : Decimal.new (.str d.str) = .ok (.finite d) :=
  Decimal.parse_str d

end OutboxFanout
