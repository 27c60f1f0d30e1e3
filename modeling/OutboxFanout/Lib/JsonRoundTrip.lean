import OutboxFanout.Lib.Json

/-!
# `json.loads` inverts `json.dumps`

Strings first: a character is written as escapes or as itself, read back as
its UTF-16 code units, and the units join to the character. Then values, by
recursion over the value, with the text that follows it as a parameter. Last,
the limit on the nesting: it decides whether a text is read, never what it reads
as, and the text's length is always enough.
-/

namespace Json

-- ---------------------------------------------------------------------------
-- Strings
-- ---------------------------------------------------------------------------

theorem readString_unicodeEscape (hcode : code < 0x10000) :
    readString (unicodeEscape code ++ cs) =
      (readString cs).map fun (codes, rest) => (code :: codes, rest) := by
  have hread := Hex.read_digits 4 code
  rw [show 16 ^ 4 = 0x10000 from rfl, Nat.mod_eq_of_lt hcode] at hread
  obtain ⟨a, b, c, d, hdigits⟩ : ∃ a b c d, Hex.digits 4 code = [a, b, c, d] := ⟨_, _, _, _, rfl⟩
  rw [hdigits] at hread
  simp [unicodeEscape, hdigits, readString, hread]

theorem toNat_valid (c : Char) : c.toNat < 0xd800 ∨ 0xdfff < c.toNat ∧ c.toNat < 0x110000 := c.valid

theorem codeUnits_lt (h : code ∈ codeUnits c) : code < 0x10000 := by
  have hc := toNat_valid c
  simp only [codeUnits] at h
  split at h
  · simpa using List.mem_singleton.mp h ▸ ‹c.toNat < 0x10000›
  · simp only [List.mem_cons, List.not_mem_nil, or_false] at h
    omega

theorem readString_codeUnits (h : ∀ code ∈ codes, code < 0x10000) :
    readString (codes.flatMap unicodeEscape ++ cs) =
      (readString cs).map fun (rest, cs) => (codes ++ rest, cs) := by
  induction codes with
  | nil => simp
  | cons code codes ih =>
    obtain ⟨hcode, hcodes⟩ := List.forall_mem_cons.mp h
    rw [List.flatMap_cons, List.append_assoc, readString_unicodeEscape hcode, ih hcodes]
    simp [Function.comp_def]

theorem readString_escapeChar :
    readString (escapeChar c ++ cs) =
      (readString cs).map fun (codes, rest) => (codeUnits c ++ codes, rest) := by
  unfold escapeChar
  split
  · subst_vars; rfl
  split
  · subst_vars; rfl
  split
  · subst_vars; rfl
  split
  · subst_vars; rfl
  split
  · subst_vars; rfl
  split
  · subst_vars; rfl
  split
  · subst_vars; rfl
  split
  · rename_i hquote hslash _ _ _ _ _ hplain
    have hunits : codeUnits c = [c.toNat] := if_pos (by omega)
    have hlow : ¬c.toNat < 0x20 := by omega
    rw [List.singleton_append, readString.eq_def]
    split <;> simp_all
  · exact readString_codeUnits fun code => codeUnits_lt

theorem readString_flatMap {text : List Char} :
    readString (text.flatMap escapeChar ++ '"' :: cs) = some (text.flatMap codeUnits, cs) := by
  induction text with
  | nil => rfl
  | cons c text ih => simp [readString_escapeChar, ih]

theorem joinSurrogates_codeUnits :
    joinSurrogates (codeUnits c ++ codes) = c :: joinSurrogates codes := by
  have hc := toNat_valid c
  have hchar : charOf c.toNat = c := by
    simp [charOf, show c.toNat.isValidChar from c.valid]
  unfold codeUnits
  split
  · cases codes with
    | nil => simp [joinSurrogates, hchar]
    | cons code codes =>
      have hhigh : ¬(0xd800 ≤ c.toNat ∧ c.toNat < 0xdc00 ∧ 0xdc00 ≤ code ∧ code < 0xe000) := by omega
      simp [joinSurrogates, hhigh, hchar]
  · have hpair : 0xd800 ≤ 0xd800 + (c.toNat - 0x10000) / 0x400 ∧
        0xd800 + (c.toNat - 0x10000) / 0x400 < 0xdc00 ∧
        0xdc00 ≤ 0xdc00 + (c.toNat - 0x10000) % 0x400 ∧
        0xdc00 + (c.toNat - 0x10000) % 0x400 < 0xe000 := by omega
    have hjoin : 0x10000 + (0xd800 + (c.toNat - 0x10000) / 0x400 - 0xd800) * 0x400 +
        (0xdc00 + (c.toNat - 0x10000) % 0x400 - 0xdc00) = c.toNat := by omega
    rw [List.cons_append, List.cons_append, List.nil_append, joinSurrogates, if_pos hpair, hjoin, hchar]

theorem joinSurrogates_flatMap {text : List Char} :
    joinSurrogates (text.flatMap codeUnits) = text := by
  induction text with
  | nil => rfl
  | cons c text ih => rw [List.flatMap_cons, joinSurrogates_codeUnits, ih]

theorem string_dumpString :
    string (text.toList.flatMap escapeChar ++ '"' :: cs) = .ok (text, cs) := by
  simp [string, readString_flatMap, joinSurrogates_flatMap]

-- ---------------------------------------------------------------------------
-- Values
-- ---------------------------------------------------------------------------

mutual
/-- How many containers are open at once. -/
def depth : Json → Nat
  | .arr items => depthItems items + 1
  | .obj members => depthMembers members + 1
  | _ => 0

def depthItems : List Json → Nat
  | [] => 0
  | item :: items => max (depth item) (depthItems items)

def depthMembers : List (String × Json) → Nat
  | [] => 0
  | (_, item) :: members => max (depth item) (depthMembers members)
end

/-- A literal or number that ends here ends for good. -/
def Stops (cs : List Char) : Prop := ∀ c ∈ cs.head?, tokenChar c = false

theorem Stops.nil : Stops [] := nofun

theorem Stops.cons (h : tokenChar c = false) : Stops (c :: cs) := by
  rintro c' ⟨⟩
  exact h

theorem takeWhile_token (htoken : token.all tokenChar = true) (hcs : Stops cs) :
    (token ++ cs).takeWhile tokenChar = token ∧ (token ++ cs).dropWhile tokenChar = cs := by
  have hrest : cs.takeWhile tokenChar = [] ∧ cs.dropWhile tokenChar = cs := by
    cases cs with
    | nil => exact ⟨rfl, rfl⟩
    | cons c cs => simp [hcs c rfl]
  rw [List.all_eq_true] at htoken
  exact ⟨by rw [List.takeWhile_append_of_pos htoken, hrest.1, List.append_nil],
    by rw [List.dropWhile_append_of_pos htoken, hrest.2]⟩

theorem value_token (htoken : token.all tokenChar = true) (hne : token ≠ []) (hcs : Stops cs)
    (hof : ofToken token = .ok item) : value limit (token ++ cs) = .ok (item, cs) := by
  obtain ⟨htake, hdrop⟩ := takeWhile_token htoken hcs
  obtain ⟨c, token, rfl⟩ := List.exists_cons_of_ne_nil hne
  have hc : tokenChar c = true := (List.all_eq_true.mp htoken) c List.mem_cons_self
  have hquote : c ≠ '"' := by rintro rfl; cases hc
  have hbracket : c ≠ '[' := by rintro rfl; cases hc
  have hbrace : c ≠ '{' := by rintro rfl; cases hc
  rw [List.cons_append] at htake hdrop ⊢
  rw [value.eq_def]
  split
  next heq => exact absurd (List.cons.inj heq).1 hquote
  next heq => exact absurd (List.cons.inj heq).1 hbracket
  next heq => exact absurd (List.cons.inj heq).1 hbrace
  next heq => exact absurd (List.cons.inj heq).1 hbracket
  next heq => exact absurd (List.cons.inj heq).1 hbrace
  next => rw [htake, hdrop, hof, Except.map]

theorem skip_cons (h : isSpace c = false) : skip (c :: cs) = c :: cs := by simp [skip, h]

theorem not_isSpace_of_tokenChar (h : tokenChar c = true) : isSpace c = false := by
  simp only [isSpace, Bool.or_eq_false_iff, decide_eq_false_iff_not]
  refine ⟨⟨⟨?_, ?_⟩, ?_⟩, ?_⟩ <;> (rintro rfl; cases h)

theorem isNumber_token (literal : { text : String // isNumber text.toList = true }) :
    literal.1.toList.all tokenChar = true ∧ literal.1.toList ≠ [] := by
  obtain ⟨text, h⟩ := literal
  refine ⟨?_, ?_⟩
  · simp only [isNumber, Bool.and_eq_true] at h
    exact h.1.2
  · rintro heq
    rw [show text.toList = [] from heq] at h
    cases h

theorem ofToken_literal (literal : { text : String // isNumber text.toList = true }) :
    ofToken literal.1.toList = .ok (.num literal) := by
  simp [ofToken, literal.2]

/-- What a value can start with. -/
theorem dump_head (j : Json) : ∃ c cs, dump j = c :: cs ∧ isSpace c = false ∧ c ≠ ']' ∧ c ≠ '}' := by
  rcases j with _ | ⟨_ | _⟩ | literal | _ | ⟨_ | _⟩ | ⟨_ | _⟩
  case num =>
    obtain ⟨hall, hne⟩ := isNumber_token literal
    obtain ⟨c, cs, htext⟩ := List.exists_cons_of_ne_nil hne
    have hc : tokenChar c = true := (List.all_eq_true.mp hall) c (htext ▸ List.mem_cons_self)
    refine ⟨c, cs, htext, not_isSpace_of_tokenChar hc, ?_, ?_⟩ <;> (rintro rfl; cases hc)
  all_goals exact ⟨_, _, rfl, by decide, by decide, by decide⟩

theorem skip_dump : skip (dump j ++ cs) = dump j ++ cs := by
  obtain ⟨c, rest, hdump, hspace, -⟩ := dump_head j
  rw [hdump, List.cons_append, skip_cons hspace]

theorem length_dumpItems (rest : List Json) : rest.length < (dumpItems rest).length := by
  induction rest with
  | nil => decide
  | cons item rest ih => simp only [dumpItems, List.length_cons, List.length_append]; omega

theorem length_dumpMembers (rest : List (String × Json)) :
    rest.length < (dumpMembers rest).length := by
  induction rest with
  | nil => decide
  | cons member rest ih => simp only [dumpMembers, List.length_cons, List.length_append]; omega

theorem skip_space : skip (' ' :: cs) = skip cs := by simp [skip, isSpace]

section
variable {value : Reader Json} {fuel : Nat} {cs : List Char}

theorem items_last (hitem : value (skip cs) = .ok (item, cs')) (hcs' : skip cs' = ']' :: rest) :
    items value (fuel + 1) cs = .ok ([item], rest) := by
  simp [items, hitem, hcs', bind, Except.bind, pure, Except.pure]

theorem items_more (hitem : value (skip cs) = .ok (item, cs')) (hcs' : skip cs' = ',' :: rest)
    (hmore : items value fuel rest = .ok (more, cs'')) :
    items value (fuel + 1) cs = .ok (item :: more, cs'') := by
  simp [items, hitem, hcs', hmore, bind, Except.bind, pure, Except.pure]

theorem items_space : items value fuel (' ' :: cs) = items value fuel cs := by
  cases fuel <;> simp only [items, skip_space]

theorem members_space : members value fuel (' ' :: cs) = members value fuel cs := by
  cases fuel <;> simp only [members, skip_space]

theorem skip_dumpString :
    skip (dumpString key ++ cs) = '"' :: (key.toList.flatMap escapeChar ++ '"' :: cs) := by
  rw [dumpString, List.cons_append, skip_cons (by decide), List.append_assoc, List.singleton_append]

theorem members_last (hitem : value (skip cs) = .ok (item, cs')) (hcs' : skip cs' = '}' :: rest) :
    members value (fuel + 1) (dumpString key ++ ':' :: cs) = .ok ([(key, item)], rest) := by
  have hcolon : skip (':' :: cs) = ':' :: cs := skip_cons (by decide)
  simp [members, skip_dumpString, string_dumpString, hcolon, hitem, hcs', bind, Except.bind, pure,
    Except.pure]

theorem members_more (hitem : value (skip cs) = .ok (item, cs')) (hcs' : skip cs' = ',' :: rest)
    (hmore : members value fuel rest = .ok (more, cs'')) :
    members value (fuel + 1) (dumpString key ++ ':' :: cs) = .ok ((key, item) :: more, cs'') := by
  have hcolon : skip (':' :: cs) = ':' :: cs := skip_cons (by decide)
  simp [members, skip_dumpString, string_dumpString, hcolon, hitem, hcs', hmore, bind, Except.bind,
    pure, Except.pure]

end

theorem value_arr (hne : ∀ rest, skip cs ≠ ']' :: rest)
    (h : items (value limit) cs.length cs = .ok (list, cs')) :
    value (limit + 1) ('[' :: cs) = .ok (.arr list, cs') := by
  rw [value_bracket]
  split
  next rest heq => exact absurd heq (hne rest)
  next => simp [h, Except.map]

theorem value_obj (hne : ∀ rest, skip cs ≠ '}' :: rest)
    (h : members (value limit) cs.length cs = .ok (list, cs')) :
    value (limit + 1) ('{' :: cs) = .ok (.obj list, cs') := by
  rw [value_brace]
  split
  next rest heq => exact absurd heq (hne rest)
  next => simp [h, Except.map]

theorem skip_dumpItems (rest : List Json) : skip (dumpItems rest ++ cs) = dumpItems rest ++ cs := by
  cases rest <;> exact skip_cons (by decide)

theorem skip_dumpMembers (rest : List (String × Json)) :
    skip (dumpMembers rest ++ cs) = dumpMembers rest ++ cs := by
  cases rest <;> exact skip_cons (by decide)

theorem stops_dumpItems (rest : List Json) : Stops (dumpItems rest ++ cs) := by
  cases rest <;> exact .cons (by decide)

theorem stops_dumpMembers (rest : List (String × Json)) : Stops (dumpMembers rest ++ cs) := by
  cases rest <;> exact .cons (by decide)

mutual
theorem value_dump : ∀ {j : Json} {limit : Nat} {cs : List Char}, j.depth ≤ limit → Stops cs →
    value limit (dump j ++ cs) = .ok (j, cs)
  | .null, _, _, _, hcs =>
    value_token (show "null".toList.all tokenChar = true by decide) (by decide) hcs (by rfl)
  | .bool true, _, _, _, hcs =>
    value_token (show "true".toList.all tokenChar = true by decide) (by decide) hcs (by rfl)
  | .bool false, _, _, _, hcs =>
    value_token (show "false".toList.all tokenChar = true by decide) (by decide) hcs (by rfl)
  | .num literal, _, _, _, hcs => by
    obtain ⟨hall, hne⟩ := isNumber_token literal
    exact value_token hall hne hcs (ofToken_literal literal)
  | .str text, _, _, _, _ => by simp [dump, dumpString, value_quote, string_dumpString, Except.map]
  | .arr [], limit + 1, _, _, _ => by simp [dump, value_bracket, skip_cons, isSpace]
  | .obj [], limit + 1, _, _, _ => by simp [dump, value_brace, skip_cons, isSpace]
  | .arr (item :: rest), limit + 1, cs, hdepth, _ => by
    obtain ⟨hitem, hrest⟩ : item.depth ≤ limit ∧ depthItems rest ≤ limit := by
      simpa [depth, depthItems] using hdepth
    obtain ⟨c, tail, hdump, -, hbracket, -⟩ := dump_head item
    have hlen := length_dumpItems rest
    rw [dump, List.cons_append, List.append_assoc]
    refine value_arr (fun rest' heq => ?_)
      (items_dump hrest (by simp only [List.length_append]; omega) fun hcs => value_dump hitem hcs)
    rw [skip_dump, hdump] at heq
    exact hbracket (List.cons.inj heq).1
  | .obj ((key, item) :: rest), limit + 1, cs, hdepth, _ => by
    obtain ⟨hitem, hrest⟩ : item.depth ≤ limit ∧ depthMembers rest ≤ limit := by
      simpa [depth, depthMembers] using hdepth
    have hlen := length_dumpMembers rest
    rw [dump, List.cons_append, List.append_assoc, List.cons_append, List.cons_append,
      List.append_assoc]
    refine value_obj (fun rest' heq => ?_) (members_dump hrest
      (by simp only [List.length_append, List.length_cons]; omega) fun hcs => value_dump hitem hcs)
    rw [skip_dumpString] at heq
    exact absurd (List.cons.inj heq).1 (by decide)

theorem items_dump : ∀ {rest : List Json} {item : Json} {limit fuel : Nat} {cs : List Char},
    depthItems rest ≤ limit → rest.length < fuel →
    (∀ {cs}, Stops cs → value limit (dump item ++ cs) = .ok (item, cs)) →
    items (value limit) fuel (dump item ++ (dumpItems rest ++ cs)) = .ok (item :: rest, cs)
  | [], item, limit, fuel + 1, cs, _, _, hitem =>
    items_last (by rw [skip_dump]; exact hitem (stops_dumpItems [])) (skip_dumpItems [])
  | next :: rest, item, limit, fuel + 1, cs, hdepth, hfuel, hitem => by
    obtain ⟨hnext, hrest⟩ : next.depth ≤ limit ∧ depthItems rest ≤ limit := by
      simpa [depthItems] using hdepth
    have ih : items (value limit) fuel (dump next ++ (dumpItems rest ++ cs)) = .ok (next :: rest, cs) :=
      items_dump hrest (Nat.lt_of_succ_lt_succ hfuel) fun hcs => value_dump hnext hcs
    have hstops : Stops (dumpItems (next :: rest) ++ cs) := stops_dumpItems _
    refine items_more (by rw [skip_dump]; exact hitem hstops) (skip_dumpItems _) ?_
    rwa [List.append_eq, List.cons_append, items_space, List.append_assoc]

theorem members_dump : ∀ {rest : List (String × Json)} {key : String} {item : Json} {limit fuel : Nat}
    {cs : List Char}, depthMembers rest ≤ limit → rest.length < fuel →
    (∀ {cs}, Stops cs → value limit (dump item ++ cs) = .ok (item, cs)) →
    members (value limit) fuel (dumpString key ++ ':' :: ' ' :: (dump item ++ (dumpMembers rest ++ cs))) =
      .ok ((key, item) :: rest, cs)
  | [], key, item, limit, fuel + 1, cs, _, _, hitem =>
    members_last (by rw [skip_space, skip_dump]; exact hitem (stops_dumpMembers []))
      (skip_dumpMembers [])
  | (key', next) :: rest, key, item, limit, fuel + 1, cs, hdepth, hfuel, hitem => by
    obtain ⟨hnext, hrest⟩ : next.depth ≤ limit ∧ depthMembers rest ≤ limit := by
      simpa [depthMembers] using hdepth
    have ih : members (value limit) fuel
        (dumpString key' ++ ':' :: ' ' :: (dump next ++ (dumpMembers rest ++ cs))) =
        .ok ((key', next) :: rest, cs) :=
      members_dump hrest (Nat.lt_of_succ_lt_succ hfuel) fun hcs => value_dump hnext hcs
    have hstops : Stops (dumpMembers ((key', next) :: rest) ++ cs) := stops_dumpMembers _
    refine members_more (by rw [skip_space, skip_dump]; exact hitem hstops) (skip_dumpMembers _) ?_
    rwa [List.append_eq, List.cons_append, members_space, List.append_assoc, List.cons_append,
      List.cons_append, List.append_assoc]
end

theorem loads_dumps (h : depth j ≤ limit) : loads limit (dumps j) = .ok j := by
  have hvalue : value limit (dump j ++ []) = .ok (j, []) := value_dump h Stops.nil
  have hskip : skip (dump j ++ []) = dump j ++ [] := skip_dump
  rw [List.append_nil] at hvalue hskip
  simp [loads, dumps, hskip, hvalue, show skip [] = [] from rfl, bind, Except.bind, pure, Except.pure]

-- ---------------------------------------------------------------------------
-- The limit decides whether a text is read, not what it reads as
-- ---------------------------------------------------------------------------

/-- What `v` reads, no deeper than the limit, `w` reads. -/
def Covers (limit : Nat) (v w : Reader Json) : Prop :=
  ∀ cs j rest, v cs = .ok (j, rest) → j.depth ≤ limit → w cs = .ok (j, rest)

section
variable {v w : Reader Json} {fuel limit : Nat} {cs rest : List Char}

theorem Covers.items (h : Covers limit v w) (hread : items v fuel cs = .ok (js, rest))
    (hdepth : depthItems js ≤ limit) : items w fuel cs = .ok (js, rest) := by
  induction fuel generalizing cs js with
  | zero => cases hread
  | succ fuel ih =>
    obtain ⟨⟨item, cs'⟩, hitem, hread⟩ := Except.bind_eq_ok.mp hread
    refine Except.bind_eq_ok.mpr ⟨(item, cs'), ?_, ?_⟩
    all_goals
      dsimp only at hread ⊢
      split at hread
    · cases hread
      exact h _ _ _ hitem ((le_max_left ..).trans hdepth)
    · obtain ⟨⟨items, cs''⟩, hitems, hread⟩ := Except.bind_eq_ok.mp hread
      cases hread
      exact h _ _ _ hitem ((le_max_left ..).trans hdepth)
    · cases hread
    · exact hread
    · obtain ⟨⟨items, cs''⟩, hitems, hread⟩ := Except.bind_eq_ok.mp hread
      cases hread
      exact Except.bind_eq_ok.mpr ⟨_, ih hitems ((le_max_right ..).trans hdepth), rfl⟩
    · cases hread

theorem Covers.members (h : Covers limit v w) (hread : members v fuel cs = .ok (js, rest))
    (hdepth : depthMembers js ≤ limit) : members w fuel cs = .ok (js, rest) := by
  induction fuel generalizing cs js with
  | zero => cases hread
  | succ fuel ih =>
    rw [Json.members] at hread ⊢
    split at hread
    next =>
      obtain ⟨⟨key, cs'⟩, hkey, hread⟩ := Except.bind_eq_ok.mp hread
      refine Except.bind_eq_ok.mpr ⟨_, hkey, ?_⟩
      dsimp only at hread ⊢
      split at hread
      next =>
        obtain ⟨⟨item, cs''⟩, hitem, hread⟩ := Except.bind_eq_ok.mp hread
        dsimp only at hread
        split at hread
        next hend =>
          cases hread
          refine Except.bind_eq_ok.mpr ⟨_, h _ _ _ hitem ((le_max_left ..).trans hdepth), ?_⟩
          dsimp only
          rw [hend]
          rfl
        next hmore =>
          obtain ⟨⟨members, _⟩, hmembers, hread⟩ := Except.bind_eq_ok.mp hread
          cases hread
          refine Except.bind_eq_ok.mpr ⟨_, h _ _ _ hitem ((le_max_left ..).trans hdepth), ?_⟩
          dsimp only
          rw [hmore]
          exact Except.bind_eq_ok.mpr ⟨_, ih hmembers ((le_max_right ..).trans hdepth), rfl⟩
        next => cases hread
      next => cases hread
    next => cases hread

end

theorem Covers.value (h : ∀ limit', Covers limit' (value limit) (value limit')) :
    Covers limit' (value (limit + 1)) (value limit') := by
  intro cs j rest hread hdepth
  rw [value.eq_def] at hread
  split at hread
  next =>
    rw [value_quote]
    exact hread
  next => cases hread
  next => cases hread
  next heq =>
    cases heq
    split at hread
    next hend =>
      cases hread
      obtain ⟨n, rfl⟩ := Nat.exists_eq_add_one.mpr hdepth
      rw [value_bracket, hend]
      rfl
    next hmore =>
      obtain ⟨⟨items, _⟩, hitems, heq⟩ := Except.map_eq_ok.mp hread
      cases heq
      obtain ⟨n, rfl⟩ := Nat.exists_eq_add_one.mpr (Nat.zero_lt_of_lt hdepth)
      rw [value_bracket]
      split
      next hend => exact absurd hend (hmore _)
      next => exact Except.map_eq_ok.mpr ⟨_, (h n).items hitems (Nat.le_of_succ_le_succ hdepth), rfl⟩
  next heq =>
    cases heq
    split at hread
    next hend =>
      cases hread
      obtain ⟨n, rfl⟩ := Nat.exists_eq_add_one.mpr hdepth
      rw [value_brace, hend]
      rfl
    next hmore =>
      obtain ⟨⟨members, _⟩, hmembers, heq⟩ := Except.map_eq_ok.mp hread
      cases heq
      obtain ⟨n, rfl⟩ := Nat.exists_eq_add_one.mpr (Nat.zero_lt_of_lt hdepth)
      rw [value_brace]
      split
      next hend => exact absurd hend (hmore _)
      next => exact Except.map_eq_ok.mpr ⟨_, (h n).members hmembers (Nat.le_of_succ_le_succ hdepth), rfl⟩
  next =>
    rw [value.eq_def]
    split <;> grind

/-- A text is read by whoever nests as deep as its value. -/
theorem value_covers (limit limit' : Nat) : Covers limit' (value limit) (value limit') := by
  induction limit generalizing limit' with
  | zero =>
    intro cs j rest h hdepth
    rw [value.eq_def] at h ⊢
    split at h <;> simp_all
  | succ limit ih => exact Covers.value ih

theorem loads_eq_ok : loads limit text = .ok j ↔
    ∃ rest, value limit (skip text.toList) = .ok (j, rest) ∧ (skip rest).isEmpty := by
  simp only [loads, Except.bind_eq_ok, Prod.exists]
  refine ⟨?_, fun ⟨rest, hvalue, hend⟩ => ⟨j, rest, hvalue, by simp only [hend]; rfl⟩⟩
  rintro ⟨item, rest, hvalue, h⟩
  split at h
  next hend => exact ⟨rest, Except.pure_eq_ok.mp h ▸ hvalue, hend⟩
  next => cases h

theorem loads_of_depth (h : loads limit text = .ok j) (hdepth : j.depth ≤ limit') :
    loads limit' text = .ok j := by
  obtain ⟨rest, hvalue, hend⟩ := loads_eq_ok.mp h
  exact loads_eq_ok.mpr ⟨rest, value_covers limit limit' _ _ _ hvalue hdepth, hend⟩

theorem loads_unique (h : loads limit text = .ok j) (h' : loads limit' text = .ok j') : j = j' := by
  have hmax := loads_of_depth h (le_max_left j.depth j'.depth)
  have hmax' := loads_of_depth h' (le_max_right j.depth j'.depth)
  exact Except.ok.inj (hmax.symm.trans hmax')

-- ---------------------------------------------------------------------------
-- No value is deeper than its text is long
-- ---------------------------------------------------------------------------

theorem skip_length_le : (skip cs).length ≤ cs.length := (List.dropWhile_suffix _).length_le

theorem readString_length_le (h : readString cs = some (codes, rest)) : rest.length ≤ cs.length := by
  fun_induction readString cs generalizing codes with
  | case1 | case5 => cases h
  | case2 =>
    cases h
    exact Nat.le_succ _
  | case3 a b c d cs ih =>
    obtain ⟨code, -, h⟩ := Option.bind_eq_some_iff.mp h
    obtain ⟨⟨codes, _⟩, hrest, heq⟩ := Option.map_eq_some_iff.mp h
    cases heq
    have hle := ih hrest
    simp only [List.length_cons]
    omega
  | case4 c cs _ ih =>
    obtain ⟨code, -, h⟩ := Option.bind_eq_some_iff.mp h
    obtain ⟨⟨codes, _⟩, hrest, heq⟩ := Option.map_eq_some_iff.mp h
    cases heq
    have hle := ih hrest
    simp only [List.length_cons]
    omega
  | case6 c cs _ _ _ _ ih =>
    obtain ⟨⟨codes, _⟩, hrest, heq⟩ := Option.map_eq_some_iff.mp h
    cases heq
    exact Nat.le_succ_of_le (ih hrest)

theorem string_length_le (h : string cs = .ok (text, rest)) : rest.length ≤ cs.length := by
  unfold string at h
  split at h
  next hread =>
    cases h
    exact readString_length_le hread
  next => cases h

theorem ofToken_depth (h : ofToken token = .ok j) : j.depth = 0 := by
  unfold ofToken at h
  split at h
  · cases h
    rfl
  split at h
  · cases h
  split at h
  · cases h
    rfl
  split at h
  · cases h
    rfl
  split at h
  · cases h
    rfl
  · cases h

/-- Every container takes a character of its own. -/
def Consumes (v : Reader Json) : Prop :=
  ∀ cs j rest, v cs = .ok (j, rest) → j.depth + rest.length ≤ cs.length

section
variable {v : Reader Json} {fuel : Nat} {cs rest : List Char}

theorem Consumes.items (h : Consumes v) (hread : items v fuel cs = .ok (js, rest)) :
    depthItems js + rest.length ≤ cs.length := by
  induction fuel generalizing cs js with
  | zero => cases hread
  | succ fuel ih =>
    obtain ⟨⟨item, cs'⟩, hitem, hread⟩ := Except.bind_eq_ok.mp hread
    have hle := (h _ _ _ hitem).trans skip_length_le
    have hskip := @skip_length_le cs'
    dsimp only at hread
    split at hread
    next hend =>
      cases hread
      rw [hend, List.length_cons] at hskip
      simp only [depthItems]
      omega
    next hmore =>
      obtain ⟨⟨items, rest⟩, hitems, hread⟩ := Except.bind_eq_ok.mp hread
      cases hread
      have hrest := ih hitems
      rw [hmore, List.length_cons] at hskip
      simp only [depthItems] at hrest ⊢
      omega
    next => cases hread

theorem Consumes.members (h : Consumes v) (hread : members v fuel cs = .ok (js, rest)) :
    depthMembers js + rest.length ≤ cs.length := by
  induction fuel generalizing cs js with
  | zero => cases hread
  | succ fuel ih =>
    rw [Json.members] at hread
    split at hread
    next cs₁ hquote =>
      have hskip := @skip_length_le cs
      rw [hquote, List.length_cons] at hskip
      obtain ⟨⟨key, cs₂⟩, hkey, hread⟩ := Except.bind_eq_ok.mp hread
      have hkey := string_length_le hkey
      have hskip₂ := @skip_length_le cs₂
      dsimp only at hread
      split at hread
      next cs₃ hcolon =>
        rw [hcolon, List.length_cons] at hskip₂
        obtain ⟨⟨item, cs₄⟩, hitem, hread⟩ := Except.bind_eq_ok.mp hread
        have hitem := (h _ _ _ hitem).trans skip_length_le
        have hskip₄ := @skip_length_le cs₄
        dsimp only at hread
        split at hread
        next hend =>
          cases hread
          rw [hend, List.length_cons] at hskip₄
          simp only [depthMembers]
          omega
        next hmore =>
          obtain ⟨⟨members, rest⟩, hmembers, hread⟩ := Except.bind_eq_ok.mp hread
          cases hread
          have hrest := ih hmembers
          rw [hmore, List.length_cons] at hskip₄
          simp only [depthMembers] at hrest ⊢
          omega
        next => cases hread
      next => cases hread
    next => cases hread

end

theorem consumes_token {cs : List Char}
    (h : ((ofToken (cs.takeWhile tokenChar)).map fun item => (item, cs.dropWhile tokenChar)) =
      .ok (j, rest)) : j.depth + rest.length ≤ cs.length := by
  obtain ⟨item, hitem, heq⟩ := Except.map_eq_ok.mp h
  cases heq
  rw [ofToken_depth hitem, Nat.zero_add]
  exact (List.dropWhile_suffix _).length_le

theorem Consumes.value (h : ∀ n, limit = n + 1 → Consumes (value n)) : Consumes (value limit) := by
  intro cs j rest hread
  have hskip := @skip_length_le cs.tail
  rw [value.eq_def] at hread
  split at hread
  next =>
    obtain ⟨⟨text, _⟩, hstring, heq⟩ := Except.map_eq_ok.mp hread
    cases heq
    exact Nat.zero_add _ ▸ Nat.le_succ_of_le (string_length_le hstring)
  next => cases hread
  next => cases hread
  next =>
    split at hread
    next hend =>
      cases hread
      rw [List.tail_cons, hend, List.length_cons] at hskip
      simp only [depth, depthItems, List.length_cons]
      omega
    next =>
      obtain ⟨⟨items, _⟩, hitems, heq⟩ := Except.map_eq_ok.mp hread
      cases heq
      have hle := (h _ rfl).items hitems
      simp only [depth, List.length_cons]
      omega
  next =>
    split at hread
    next hend =>
      cases hread
      rw [List.tail_cons, hend, List.length_cons] at hskip
      simp only [depth, depthMembers, List.length_cons]
      omega
    next =>
      obtain ⟨⟨members, _⟩, hmembers, heq⟩ := Except.map_eq_ok.mp hread
      cases heq
      have hle := (h _ rfl).members hmembers
      simp only [depth, List.length_cons]
      omega
  next => exact consumes_token hread

theorem value_consumes (limit : Nat) : Consumes (value limit) := by
  induction limit with
  | zero => exact Consumes.value nofun
  | succ limit ih => exact Consumes.value fun _ heq => Nat.succ.inj heq ▸ ih

theorem loads_length (h : loads limit text = .ok j) : loads text.length text = .ok j := by
  obtain ⟨rest, hvalue, -⟩ := loads_eq_ok.mp h
  have hle := value_consumes limit _ _ _ hvalue
  exact loads_of_depth h ((Nat.le_of_add_right_le hle).trans skip_length_le)

end Json
