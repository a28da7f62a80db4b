import Lumen.Json.Reader
import Lumen.Json.Writer
import Lumen.Proofs.Decimal.Digits
import Lumen.Text.Newline

/-!
# Documents as texts

A document that holds no doubles is read as it was written: the text of each part is taken to its
last character, whatever stands behind it there. What takes a document apart from others is not
lost, for an object is written field by field, and no two of its fields have one name.
-/

namespace Lumen.Json

open Decimal (isDigit_of_mem_toDigits eq_zero_of_toDigits)

/-- No doubles, and no two fields of one name in an object. -/
inductive IsPlain : Json → Prop where
  | scalar {s : Scalar} : (∀ x, s ≠ .float x) → IsPlain (scalar s)
  | list {items : List Json} : (∀ j ∈ items, IsPlain j) → IsPlain (list items)
  | object {fields : List (String × Json)} : (fields.map Prod.fst).Nodup →
      (∀ field ∈ fields, IsPlain field.2) → IsPlain (object fields)

theorem isPlain_text (s : String) : IsPlain (text s) := .scalar fun x h => by cases h

theorem isPlain_int (i : Int) : IsPlain (int i) := .scalar fun x h => by cases h

/-- An object whose names are known to differ. -/
theorem IsPlain.of_keys {keys : List String} {fields : List (String × Json)} (hnodup : keys.Nodup)
    (hkeys : fields.map Prod.fst = keys) (h : ∀ j ∈ fields.map Prod.snd, IsPlain j) :
    IsPlain (.object fields) :=
  .object (hkeys ▸ hnodup) fun _ hfield => h _ (List.mem_map_of_mem hfield)

def Follows (rest : Rest) : Prop := ∀ c ∈ rest.head?, c = ',' ∨ c = '\n'

theorem follows_cons {c : Char} {rest : Rest} (h : c = ',' ∨ c = '\n') : Follows (c :: rest) := by
  rintro d ⟨⟩
  exact h

/-! ## Blanks -/

def IsMargin (cs : Rest) : Prop := ∀ c ∈ cs, c = ' ' ∨ c = '\n'

theorem isMargin_blanks (n : Nat) : IsMargin (List.replicate n ' ') :=
  fun _ hc => .inl (List.eq_of_mem_replicate hc)

theorem skipBlanks_margin {margin : Rest} (h : IsMargin margin) (cs : Rest) :
    skipBlanks (margin ++ cs) = skipBlanks cs := by
  refine List.dropWhile_append_of_pos fun c hc => ?_
  rcases h c hc with rfl | rfl <;> decide

theorem skipBlanks_lineEnd {indent : Rest} (h : IsMargin indent) (cs : Rest) :
    skipBlanks ('\n' :: (indent ++ cs)) = skipBlanks cs :=
  skipBlanks_margin (List.forall_mem_cons.mpr ⟨.inr rfl, h⟩) cs

theorem skipBlanks_newline (cs : Rest) : skipBlanks ('\n' :: cs) = skipBlanks cs := rfl

theorem skipBlanks_skipBlanks (cs : Rest) : skipBlanks (skipBlanks cs) = skipBlanks cs := by
  unfold skipBlanks
  generalize hblank : (fun c : Char => c == ' ' || c == '\t' || c == '\n' || c == '\r') = p
  induction cs with
  | nil => rfl
  | cons c cs ih =>
    cases hc : p c with
    | true => rw [List.dropWhile_cons_of_pos hc, ih]
    | false =>
      have hc : ¬ p c := by rw [hc]; exact Bool.false_ne_true
      rw [List.dropWhile_cons_of_neg hc, List.dropWhile_cons_of_neg hc]

/-- A value is read from the first character that is no blank. -/
theorem readValue_congr {cs cs' : Rest} (h : skipBlanks cs = skipBlanks cs') (fuel : Nat) :
    readValue fuel cs = readValue fuel cs' := by
  cases fuel with
  | zero => rw [readValue, readValue]
  | succ fuel => rw [readValue, readValue, h]

theorem readItems_congr {cs cs' : Rest} (h : skipBlanks cs = skipBlanks cs') (fuel : Nat) :
    readItems fuel cs = readItems fuel cs' := by
  cases fuel with
  | zero => rw [readItems, readItems]
  | succ fuel => rw [readItems, readItems, readValue_congr h]

theorem readFields_congr {cs cs' : Rest} (h : skipBlanks cs = skipBlanks cs') (fuel : Nat)
    (fields : List (String × Json)) : readFields fuel fields cs = readFields fuel fields cs' := by
  cases fuel with
  | zero => rw [readFields, readFields]
  | succ fuel => rw [readFields, readFields, h]

/-! ## Texts -/

theorem toList_hexDigits : ∀ n < 0x20, (Text.hexDigits 4 n).toList =
    ['0', '0', Nat.digitChar (n / 16), Nat.digitChar (n % 16)] := by decide

theorem hexValue?_digitChar : ∀ d < 16, hexValue? (Nat.digitChar d) = some d := by decide

/-- A character that is written by its number. -/
theorem readEscapedUnit_hexDigits {c : Char} (h : c.toNat < 0x20) (cs : Rest) :
    readEscapedUnit ((Text.hexDigits 4 c.toNat).toList ++ cs) = some (c, cs) := by
  have hunit : readUnit ((Text.hexDigits 4 c.toNat).toList ++ cs) = some (c.toNat, cs) := by
    have hzero : hexValue? '0' = some 0 := by decide
    rw [toList_hexDigits _ h]
    simp only [List.cons_append, List.nil_append, readUnit, hzero,
      hexValue?_digitChar _ (Nat.mod_lt _ (by decide : 0 < 16)),
      hexValue?_digitChar (c.toNat / 16) (by omega), Option.bind_eq_bind, Option.bind_some]
    rw [show 0 * 4096 + 0 * 256 + c.toNat / 16 * 16 + c.toNat % 16 = c.toNat by omega]
  have hhigh : isHighSurrogate c.toNat = false := by
    rw [isHighSurrogate, Bool.and_eq_false_iff, decide_eq_false_iff_not]
    exact .inl (by omega)
  have hlow : isLowSurrogate c.toNat = false := by
    rw [isLowSurrogate, Bool.and_eq_false_iff, decide_eq_false_iff_not]
    exact .inl (by omega)
  rw [readEscapedUnit, hunit]
  simp only [Option.bind_eq_bind, Option.bind_some, hhigh, hlow, Bool.false_eq_true, if_false,
    Char.ofNat_toNat]

theorem readChars_simpleEscape {e c : Char} (h : simpleEscape? e = some c) (fuel : Nat)
    (cs : Rest) : readChars (fuel + 1) ('\\' :: e :: cs) =
      (readChars fuel cs).map fun p => (c :: p.1, p.2) := by
  have hunit : e = 'u' → False := by
    rintro rfl
    cases h
  rw [readChars.eq_def]
  simp only [h, Option.bind_eq_bind, Option.bind_some]
  cases readChars fuel cs <;> rfl

/-- The text of a character is read as the character. -/
theorem readChars_escapeChar (c : Char) (fuel : Nat) (cs : Rest) :
    readChars (fuel + 1) ((escapeChar c).toList ++ cs) =
      (readChars fuel cs).map fun p => (c :: p.1, p.2) := by
  unfold escapeChar
  split
  case h_8 hquote hbackslash _ _ _ _ _ =>
    split
    case isTrue h =>
      rw [String.toList_append, List.append_assoc]
      change readChars (fuel + 1) ('\\' :: 'u' :: ((Text.hexDigits 4 c.toNat).toList ++ cs)) = _
      rw [readChars, if_neg (by decide), if_pos rfl]
      dsimp only
      rw [readEscapedUnit_hexDigits h, Option.bind_eq_bind, Option.bind_some]
      cases readChars fuel cs <;> rfl
    case isFalse h =>
      rw [Char.toString_eq_singleton, String.toList_singleton, List.singleton_append,
        readChars.eq_def]
      dsimp only
      rw [if_neg hquote, if_neg hbackslash, if_neg h]
      cases readChars fuel cs <;> rfl
  all_goals exact readChars_simpleEscape rfl fuel cs

def escaped (cs : List Char) : Rest := cs.flatMap fun c => (escapeChar c).toList

theorem readChars_escaped (cs : List Char) (rest : Rest) {fuel : Nat} (h : cs.length < fuel) :
    readChars fuel (escaped cs ++ '"' :: rest) = some (cs, rest) := by
  induction cs generalizing fuel with
  | nil =>
    obtain ⟨fuel, rfl⟩ := Nat.exists_eq_add_of_lt h
    rfl
  | cons c cs ih =>
    obtain ⟨fuel, rfl⟩ := Nat.exists_eq_add_of_lt h
    rw [escaped, List.flatMap_cons, List.append_assoc, readChars_escapeChar]
    change ((readChars _ (escaped cs ++ _)).map _) = _
    rw [ih (by simp; omega)]
    rfl

theorem toList_writeText (s : String) :
    (writeText s).toList = '"' :: (escaped s.toList ++ ['"']) := by
  rw [writeText, String.toList_append, String.toList_append, String.toList_join, List.flatMap_map]
  rfl

theorem escapeChar_ne (c : Char) : (escapeChar c).toList ≠ [] ∧ '\r' ∉ (escapeChar c).toList := by
  have hdigits : ∀ n < 0x20, '\r' ∉ (Text.hexDigits 4 n).toList := by decide
  unfold escapeChar
  split
  case h_8 hreturn _ _ _ =>
    split
    case isTrue h => simp [hdigits c.toNat h]
    case isFalse => simpa [eq_comm] using hreturn
  all_goals decide

theorem length_le_escaped (cs : List Char) : cs.length ≤ (escaped cs).length := by
  induction cs with
  | nil => exact Nat.le_refl _
  | cons c cs ih =>
    have hc := List.length_pos_iff.mpr (escapeChar_ne c).1
    rw [escaped, List.flatMap_cons, List.length_append]
    change _ ≤ _ + (escaped cs).length
    rw [List.length_cons]
    omega

theorem return_notMem_writeText (s : String) : '\r' ∉ (writeText s).toList := by
  rw [toList_writeText]
  simp only [List.mem_cons, List.mem_append, escaped, List.mem_flatMap, not_or, not_exists, not_and]
  exact ⟨by decide, fun c _ => (escapeChar_ne c).2, by simp⟩

/-- A text is read from behind its first quote. -/
theorem readText_escaped (s : String) (rest : Rest) {fuel : Nat}
    (h : (writeText s).toList.length ≤ fuel) :
    readText fuel (escaped s.toList ++ '"' :: rest) = some (s, rest) := by
  have hlength := length_le_escaped s.toList
  rw [toList_writeText, List.length_cons, List.length_append, List.length_singleton] at h
  rw [readText, readChars_escaped s.toList rest (by omega)]
  simp

/-! ## Whole numbers -/

theorem ne_of_isDigit {c d : Char} (hc : Decimal.isDigit c) (hd : Decimal.isDigit d = false) :
    d ≠ c := by
  rintro rfl
  rw [hc] at hd
  cases hd

theorem exists_toDigits (n : Nat) : ∃ c cs, Nat.toDigits 10 n = c :: cs ∧ Decimal.isDigit c := by
  obtain ⟨c, cs, hdigits⟩ := List.exists_cons_of_ne_nil (Nat.toDigits_ne_nil (n := n) (b := 10))
  exact ⟨c, cs, hdigits, isDigit_of_mem_toDigits (hdigits ▸ List.mem_cons_self)⟩

theorem return_notMem_toDigits (n : Nat) : '\r' ∉ Nat.toDigits 10 n :=
  fun h => ne_of_isDigit (isDigit_of_mem_toDigits h) rfl rfl

theorem takeWhile_toDigits (n : Nat) {rest : Rest} (h : Follows rest) :
    (Nat.toDigits 10 n ++ rest).takeWhile Decimal.isDigit = Nat.toDigits 10 n := by
  rw [List.takeWhile_append_of_pos fun c hc => isDigit_of_mem_toDigits hc]
  rcases rest with _ | ⟨c, rest⟩
  · simp
  · rcases h c rfl with rfl | rfl <;> simp [Decimal.isDigit]

theorem readIntegerPart_toDigits (n : Nat) {rest : Rest} (h : Follows rest) :
    readIntegerPart (Nat.toDigits 10 n ++ rest) = some (Nat.toDigits 10 n, rest) := by
  obtain ⟨c, cs, hdigits, -⟩ := exists_toDigits n
  by_cases hc : c = '0'
  · obtain ⟨-, rfl⟩ := eq_zero_of_toDigits (hc ▸ hdigits)
    rw [hdigits, hc]
    rfl
  · have hspan := takeWhile_toDigits n h
    rw [hdigits, List.cons_append] at hspan ⊢
    rw [readIntegerPart]
    · rw [hspan]
      simp
    · rintro _ ⟨⟩
      exact hc rfl

theorem readFraction_of_follows {rest : Rest} (h : Follows rest) :
    readFraction rest = ([], rest) := by
  rcases rest with _ | ⟨c, rest⟩
  · rfl
  · rcases h c rfl with rfl | rfl <;> rfl

theorem readExponent_of_follows {rest : Rest} (h : Follows rest) :
    Decimal.readExponent rest = none := by
  rcases rest with _ | ⟨c, rest⟩
  · rfl
  · rcases h c rfl with rfl | rfl <;> rfl

theorem readNumber_toString (i : Int) {rest : Rest} (h : Follows rest) :
    readNumber ((toString i).toList ++ rest) = some (.int i, rest) := by
  have hread (n : Nat) := readIntegerPart_toDigits n h
  have hfraction := readFraction_of_follows h
  have hexponent := readExponent_of_follows h
  cases i with
  | negSucc n =>
    rw [Decimal.toList_toString_negSucc, List.cons_append, readNumber]
    dsimp only
    rw [hread, Option.bind_eq_bind, Option.bind_some]
    dsimp only
    rw [hfraction, hexponent, Decimal.naturalValue_toDigits]
    rfl
  | ofNat n =>
    obtain ⟨c, cs, hdigits, hc⟩ := exists_toDigits n
    have hread := hread n
    have hvalue := Decimal.naturalValue_toDigits n
    rw [Decimal.toList_toString_ofNat]
    rw [hdigits] at hread hvalue ⊢
    rw [List.cons_append] at hread ⊢
    rw [readNumber]
    · simp only [hread, hfraction, hexponent, hvalue, Option.bind_eq_bind, Option.bind_some]
      rfl
    · rintro _ ⟨⟩
      cases hc

/-! ## Parts -/

/-- The text of a part: the part is read from it whatever follows. -/
structure Writes (cs : Rest) (j : Json) : Prop where
  opens : ∃ c rest, cs = c :: rest ∧ (∀ rest, skipBlanks (c :: rest) = c :: rest) ∧ c ≠ ']'
  clean : '\r' ∉ cs
  reads (fuel : Nat) (rest : Rest) : 2 * cs.length ≤ fuel → Follows rest →
    readValue fuel (cs ++ rest) = some (j, rest)

theorem Writes.of_succ {c : Char} {cs : Rest} {j : Json}
    (hskip : ∀ rest, skipBlanks (c :: rest) = c :: rest) (hc : c ≠ ']') (clean : '\r' ∉ c :: cs)
    (reads : ∀ fuel rest, 2 * cs.length + 1 ≤ fuel → Follows rest →
      readValue (fuel + 1) (c :: cs ++ rest) = some (j, rest)) : Writes (c :: cs) j := by
  refine ⟨⟨c, cs, rfl, hskip, hc⟩, clean, fun fuel rest hfuel hrest => ?_⟩
  rw [List.length_cons] at hfuel
  obtain ⟨fuel, rfl⟩ := Nat.exists_eq_succ_of_ne_zero (n := fuel) (by omega)
  exact reads fuel rest (by omega) hrest

theorem readValue_text (fuel : Nat) (cs : Rest) : readValue (fuel + 1) ('"' :: cs) =
    (readText fuel cs).map fun p => (text p.1, p.2) := by
  change (readText fuel cs >>= _) = _
  cases readText fuel cs <;> rfl

theorem readValue_scalar {s : Scalar} {c : Char} {cs rest : Rest}
    (hskip : ∀ rest, skipBlanks (c :: rest) = c :: rest) (hquote : c ≠ '"') (hlist : c ≠ '[')
    (hobject : c ≠ '{')
    (hread : ((readWord (c :: cs)).orElse fun _ => readNumber (c :: cs)) = some (s, rest))
    (fuel : Nat) : readValue (fuel + 1) (c :: cs) = some (scalar s, rest) := by
  rw [readValue, hskip]
  split
  case h_1 heq => exact (hquote (List.cons.inj heq).1).elim
  case h_2 heq => exact (hlist (List.cons.inj heq).1).elim
  case h_3 heq => exact (hobject (List.cons.inj heq).1).elim
  case h_4 =>
    rw [hread]
    rfl

theorem skipBlanks_cons {c : Char} (h : (c == ' ' || c == '\t' || c == '\n' || c == '\r') = false)
    (rest : Rest) : skipBlanks (c :: rest) = c :: rest :=
  List.dropWhile_cons_of_neg (by rw [h]; exact Bool.false_ne_true)

theorem skipBlanks_digit {c : Char} (hc : Decimal.isDigit c) (rest : Rest) :
    skipBlanks (c :: rest) = c :: rest := by
  have hne {d : Char} (hd : Decimal.isDigit d = false) : (c == d) = false :=
    beq_eq_false_iff_ne.mpr (ne_of_isDigit hc hd).symm
  exact skipBlanks_cons (by rw [hne rfl, hne rfl, hne rfl, hne rfl]; rfl) rest

theorem readWord_eq_none {cs : Rest}
    (h : ∀ w ∈ words.map Prod.fst, w.toList.isPrefixOf cs = false) : readWord cs = none := by
  refine List.findSome?_eq_none_iff.mpr fun w hw => ?_
  dsimp only
  rw [h w.1 (List.mem_map_of_mem hw), if_neg Bool.false_ne_true]

/-- No word starts with a digit, or with a digit behind a dash. -/
theorem readWord_digit {c : Char} (hc : Decimal.isDigit c) (cs : Rest) :
    readWord (c :: cs) = none ∧ readWord ('-' :: c :: cs) = none := by
  have hnames : words.map Prod.fst =
      ["null", "true", "false", "NaN", "Infinity", "-Infinity"] := rfl
  have hne {d : Char} (hd : Decimal.isDigit d = false) : (d == c) = false :=
    beq_eq_false_iff_ne.mpr (ne_of_isDigit hc hd)
  have hn := hne (d := 'n') rfl
  have ht := hne (d := 't') rfl
  have hf := hne (d := 'f') rfl
  have hN := hne (d := 'N') rfl
  have hI := hne (d := 'I') rfl
  have hdash := hne (d := '-') rfl
  constructor
  · refine readWord_eq_none ?_
    rw [hnames]
    simp [List.isPrefixOf, hn, ht, hf, hN, hI, hdash]
  · refine readWord_eq_none ?_
    rw [hnames]
    simp [List.isPrefixOf, hI]

theorem writes_int (i : Int) : Writes (toString i).toList (int i) := by
  cases i with
  | ofNat n =>
    have hread {rest : Rest} (h : Follows rest) := readNumber_toString (.ofNat n) h
    have hreturn := return_notMem_toDigits n
    obtain ⟨c, cs, hdigits, hc⟩ := exists_toDigits n
    rw [Decimal.toList_toString_ofNat, hdigits] at hread ⊢
    rw [hdigits] at hreturn
    refine .of_succ (skipBlanks_digit hc) (ne_of_isDigit hc rfl).symm hreturn
      fun fuel rest _ hrest => ?_
    refine readValue_scalar (skipBlanks_digit hc) (ne_of_isDigit hc rfl).symm
      (ne_of_isDigit hc rfl).symm (ne_of_isDigit hc rfl).symm ?_ fuel
    rw [(readWord_digit hc _).1]
    exact hread hrest
  | negSucc n =>
    have hread {rest : Rest} (h : Follows rest) := readNumber_toString (.negSucc n) h
    have hreturn := return_notMem_toDigits (n + 1)
    obtain ⟨c, cs, hdigits, hc⟩ := exists_toDigits (n + 1)
    rw [Decimal.toList_toString_negSucc, hdigits] at hread ⊢
    rw [hdigits] at hreturn
    refine .of_succ (skipBlanks_cons rfl) (by decide)
      (List.not_mem_cons_of_ne_of_not_mem (by decide) hreturn) fun fuel rest _ hrest => ?_
    refine readValue_scalar (skipBlanks_cons rfl) (by decide) (by decide) (by decide) ?_ fuel
    change ((readWord ('-' :: c :: (cs ++ rest))).orElse _) = _
    rw [(readWord_digit hc _).2]
    exact hread hrest

theorem writes_writeScalar {s : Scalar} (h : ∀ x, s ≠ .float x) :
    Writes (writeScalar s).toList (scalar s) := by
  cases s with
  | null => exact .of_succ (skipBlanks_cons rfl) (by decide) (by decide) fun fuel rest _ _ => rfl
  | bool b =>
    cases b with
    | false => exact .of_succ (skipBlanks_cons rfl) (by decide) (by decide) fun fuel rest _ _ => rfl
    | true => exact .of_succ (skipBlanks_cons rfl) (by decide) (by decide) fun fuel rest _ _ => rfl
  | int i => exact writes_int i
  | float x => exact (h x rfl).elim
  | text s =>
    have hreturn := return_notMem_writeText s
    rw [writeScalar, toList_writeText]
    refine .of_succ (skipBlanks_cons rfl) (by decide) (toList_writeText s ▸ hreturn)
      fun fuel rest hfuel _ => ?_
    have hread : readText fuel (escaped s.toList ++ ['"'] ++ rest) = some (s, rest) := by
      rw [List.append_assoc]
      refine readText_escaped s rest ?_
      rw [toList_writeText, List.length_cons]
      omega
    rw [List.cons_append, readValue_text, hread]
    rfl

/-! ## Lists and objects -/

variable {margin indent : Rest}

/-- Lines with their margins, a comma between one and the next. -/
def spread (margin : Rest) (lines : List Rest) : Rest :=
  [',', '\n'].intercalate (lines.map (margin ++ ·))

theorem spread_singleton (margin line : Rest) : spread margin [line] = margin ++ line :=
  List.intercalate_singleton

theorem spread_cons_cons (margin line line' : Rest) (lines : List Rest) :
    spread margin (line :: line' :: lines) =
      margin ++ line ++ ',' :: '\n' :: spread margin (line' :: lines) := by
  rw [spread, List.map_cons, List.map_cons, List.intercalate_cons_cons]
  simp [spread]

theorem toList_enclose {opening closing : String} {indent : Nat} {lines : List String}
    (h : lines ≠ []) : (enclose opening closing indent lines).toList = opening.toList ++
      '\n' :: (spread (List.replicate (indent + 2) ' ') (lines.map String.toList) ++
        '\n' :: (List.replicate indent ' ' ++ closing.toList)) := by
  obtain ⟨line, lines, rfl⟩ := List.exists_cons_of_ne_nil h
  rw [enclose]
  · simp only [String.toList_append, String.toList_intercalate, String.toList_ofList, List.map_map,
      Function.comp_def, spread, String.reduceToList, List.append_assoc, List.cons_append,
      List.nil_append]
  · simp

theorem IsMargin.return_notMem {cs : Rest} (h : IsMargin cs) : '\r' ∉ cs := by
  intro hmem
  rcases h _ hmem with hc | hc <;> cases hc

theorem return_notMem_spread (hmargin : IsMargin margin) {lines : List Rest}
    (h : ∀ line ∈ lines, '\r' ∉ line) : '\r' ∉ spread margin lines := by
  have hmargin := hmargin.return_notMem
  induction lines with
  | nil => exact List.not_mem_nil
  | cons line lines ih =>
    obtain ⟨hline, hlines⟩ := List.forall_mem_cons.mp h
    cases lines with
    | nil =>
      rw [spread_singleton]
      simp [hmargin, hline]
    | cons line' lines =>
      rw [spread_cons_cons]
      simp [hmargin, hline, ih hlines]

theorem readItems_comma {fuel : Nat} {j : Json} {cs rest : Rest}
    (hread : readValue fuel cs = some (j, ',' :: '\n' :: rest)) :
    readItems (fuel + 1) cs = (readItems fuel rest).map fun p => (j :: p.1, p.2) := by
  rw [← readItems_congr (skipBlanks_newline rest), readItems, hread, Option.bind_eq_bind,
    Option.bind_some]
  dsimp only
  rw [skipBlanks_cons rfl]
  cases hitems : readItems fuel ('\n' :: rest) <;> simp [hitems]

theorem readItems_bracket {fuel : Nat} {j : Json} {cs cs' rest : Rest}
    (hread : readValue fuel cs = some (j, cs')) (hskip : skipBlanks cs' = ']' :: rest) :
    readItems (fuel + 1) cs = some ([j], rest) := by
  rw [readItems, hread, Option.bind_eq_bind, Option.bind_some]
  dsimp only
  rw [hskip]
  rfl

/-- Items are read up to the bracket. -/
theorem readItems_spread {text : Json → Rest} {items : List Json} (hitems : items ≠ [])
    (h : ∀ j ∈ items, Writes (text j) j) (hmargin : IsMargin margin) (hindent : IsMargin indent)
    (rest : Rest) (fuel : Nat) (hfuel : 2 * (spread margin (items.map text)).length < fuel) :
    readItems fuel (spread margin (items.map text) ++ '\n' :: (indent ++ ']' :: rest)) =
      some (items, rest) := by
  induction items generalizing fuel with
  | nil => exact (hitems rfl).elim
  | cons j items ih =>
    obtain ⟨hj, htail⟩ := List.forall_mem_cons.mp h
    obtain ⟨fuel, rfl⟩ := Nat.exists_eq_succ_of_ne_zero (n := fuel) (by omega)
    cases items with
    | nil =>
      rw [List.map_singleton, spread_singleton] at hfuel ⊢
      rw [List.length_append] at hfuel
      have hread := hj.reads fuel ('\n' :: (indent ++ ']' :: rest)) (by omega)
        (follows_cons (.inr rfl))
      rw [List.append_assoc, readItems_congr (skipBlanks_margin hmargin _)]
      refine readItems_bracket hread ?_
      rw [skipBlanks_lineEnd hindent, skipBlanks_cons rfl]
    | cons j' items =>
      rw [List.map_cons, List.map_cons, spread_cons_cons, ← List.map_cons] at hfuel ⊢
      simp only [List.length_append, List.length_cons] at hfuel
      have hitems := ih (List.cons_ne_nil _ _) htail fuel (by omega)
      have hread := hj.reads fuel (',' :: '\n' :: (spread margin ((j' :: items).map text) ++
        '\n' :: (indent ++ ']' :: rest))) (by omega) (follows_cons (.inl rfl))
      rw [List.append_assoc, List.append_assoc, readItems_congr (skipBlanks_margin hmargin _)]
      exact (readItems_comma hread).trans (by rw [hitems]; rfl)

theorem putField_of_notMem {key : String} {value : Json} {fields : List (String × Json)}
    (h : key ∉ fields.map Prod.fst) : putField key value fields = fields ++ [(key, value)] := by
  induction fields with
  | nil => rfl
  | cons field fields ih =>
    rw [List.map_cons, List.mem_cons, not_or] at h
    rw [putField, if_neg fun heq => h.1 heq.symm, ih h.2, List.cons_append]

def fieldLine (text : Json → Rest) (field : String × Json) : Rest :=
  (writeText field.1).toList ++ ':' :: ' ' :: text field.2

theorem readFields_quote {fuel : Nat} {key : String} {j : Json} {cs cs' rest : Rest}
    (hkey : readText fuel cs = some (key, ':' :: ' ' :: cs'))
    (hread : readValue fuel cs' = some (j, rest)) (fields : List (String × Json)) :
    readFields (fuel + 1) fields ('"' :: cs) =
      match skipBlanks rest with
      | ',' :: rest => readFields fuel (putField key j fields) rest
      | '}' :: rest => some (putField key j fields, rest)
      | _ => none := by
  have hspace : skipBlanks (' ' :: cs') = skipBlanks cs' := rfl
  rw [readFields, skipBlanks_cons rfl]
  change (readText fuel cs >>= _) = _
  rw [hkey]
  change (readValue fuel (' ' :: cs') >>= _) = _
  rw [readValue_congr hspace, hread]
  rfl

theorem fieldLine_append (text : Json → Rest) (key : String) (j : Json) (rest : Rest) :
    fieldLine text (key, j) ++ rest =
      '"' :: (escaped key.toList ++ '"' :: ':' :: ' ' :: (text j ++ rest)) := by
  simp [fieldLine, toList_writeText]

theorem readFields_line {text : Json → Rest} {key : String} {j : Json} (hj : Writes (text j) j)
    (hmargin : IsMargin margin) {rest : Rest} (hrest : Follows rest) {fuel : Nat}
    (hfuel : 2 * (fieldLine text (key, j)).length ≤ fuel) (fields : List (String × Json)) :
    readFields (fuel + 1) fields (margin ++ (fieldLine text (key, j) ++ rest)) =
      match skipBlanks rest with
      | ',' :: rest => readFields fuel (putField key j fields) rest
      | '}' :: rest => some (putField key j fields, rest)
      | _ => none := by
  rw [fieldLine, List.length_append, List.length_cons, List.length_cons] at hfuel
  dsimp only at hfuel
  rw [readFields_congr (skipBlanks_margin hmargin _), fieldLine_append]
  exact readFields_quote (readText_escaped key _ (by omega)) (hj.reads fuel rest (by omega) hrest)
    fields

/-- Fields are read up to the brace, behind those read before. -/
theorem readFields_spread {text : Json → Rest} {fields : List (String × Json)}
    (hfields : fields ≠ []) (h : ∀ field ∈ fields, Writes (text field.2) field.2)
    (hmargin : IsMargin margin) (hindent : IsMargin indent) (rest : Rest)
    (done : List (String × Json)) (hkeys : ((done ++ fields).map Prod.fst).Nodup) (fuel : Nat)
    (hfuel : 2 * (spread margin (fields.map (fieldLine text))).length < fuel) :
    readFields fuel done
        (spread margin (fields.map (fieldLine text)) ++ '\n' :: (indent ++ '}' :: rest)) =
      some (done ++ fields, rest) := by
  induction fields generalizing done fuel with
  | nil => exact (hfields rfl).elim
  | cons field fields ih =>
    obtain ⟨key, j⟩ := field
    obtain ⟨hj : Writes (text j) j, htail⟩ := List.forall_mem_cons.mp h
    obtain ⟨fuel, rfl⟩ := Nat.exists_eq_succ_of_ne_zero (n := fuel) (by omega)
    have hput : putField key j done = done ++ [(key, j)] := by
      refine putField_of_notMem fun hmem => ?_
      rw [List.map_append, List.nodup_append] at hkeys
      exact hkeys.2.2 key hmem key (by simp) rfl
    cases fields with
    | nil =>
      rw [List.map_singleton, spread_singleton] at hfuel ⊢
      rw [List.length_append] at hfuel
      rw [List.append_assoc, readFields_line hj hmargin (follows_cons (.inr rfl)) (by omega),
        skipBlanks_lineEnd hindent, skipBlanks_cons rfl, hput]
      rfl
    | cons field' fields =>
      rw [List.map_cons, List.map_cons, spread_cons_cons, ← List.map_cons] at hfuel ⊢
      simp only [List.length_append, List.length_cons] at hfuel
      have hrest := ih (List.cons_ne_nil _ _) htail (done ++ [(key, j)])
        (by rwa [List.append_assoc]) fuel (by omega)
      rw [List.append_assoc, List.append_assoc, List.cons_append, List.cons_append,
        readFields_line hj hmargin (follows_cons (.inl rfl)) (by omega), skipBlanks_cons rfl, hput]
      rw [List.append_assoc, List.singleton_append] at hrest
      exact (readFields_congr (skipBlanks_newline _) fuel _).trans hrest

/-! ## Documents -/

theorem writeItems_eq_map (indent : Nat) (items : List Json) :
    writeItems indent items = items.map (writeIndented indent) := by
  induction items with
  | nil => rw [writeItems, List.map_nil]
  | cons j items ih => rw [writeItems, ih, List.map_cons]

theorem toList_writeFields (indent : Nat) (fields : List (String × Json)) :
    (writeFields indent fields).map String.toList =
      fields.map (fieldLine fun j => (j.writeIndented indent).toList) := by
  induction fields with
  | nil => rw [writeFields, List.map_nil, List.map_nil]
  | cons field fields ih =>
    rw [writeFields, List.map_cons, List.map_cons, ih, fieldLine]
    simp [String.toList_append]

/-- A list that is not empty is read item by item. -/
theorem readValue_bracket {c : Char} {cs cs' : Rest} (hskip : skipBlanks cs = c :: cs')
    (hc : c ≠ ']') (fuel : Nat) : readValue (fuel + 1) ('[' :: cs) =
      (readItems fuel cs).map fun p => (list p.1, p.2) := by
  rw [readItems_congr (skipBlanks_skipBlanks cs).symm, hskip, readValue, skipBlanks_cons rfl]
  split
  case h_1 heq => exact absurd (List.cons.inj heq).1 (by decide)
  case h_2 heq =>
    rw [← (List.cons.inj heq).2, hskip]
    split
    case h_1 heq => exact (hc (List.cons.inj heq).1).elim
    case h_2 => cases readItems fuel (c :: cs') <;> rfl
  case h_3 heq => exact absurd (List.cons.inj heq).1 (by decide)
  case h_4 hlist _ => exact (hlist _ rfl).elim

theorem readValue_brace {cs cs' : Rest} (hskip : skipBlanks cs = '"' :: cs') (fuel : Nat) :
    readValue (fuel + 1) ('{' :: cs) =
      (readFields fuel [] cs).map fun p => (object p.1, p.2) := by
  rw [readFields_congr (skipBlanks_skipBlanks cs).symm, hskip, readValue, skipBlanks_cons rfl]
  split
  case h_1 heq => exact absurd (List.cons.inj heq).1 (by decide)
  case h_2 heq => exact absurd (List.cons.inj heq).1 (by decide)
  case h_3 heq =>
    rw [← (List.cons.inj heq).2, hskip]
    split
    case h_1 heq => exact absurd (List.cons.inj heq).1 (by decide)
    case h_2 => cases readFields fuel [] ('"' :: cs') <;> rfl
  case h_4 hobject => exact (hobject _ rfl).elim

/-- What stands in front of the first line is skipped. -/
theorem skipBlanks_spread (hmargin : IsMargin margin) {line line' : Rest} {c : Char}
    (hline : line = c :: line') (hskip : ∀ rest, skipBlanks (c :: rest) = c :: rest)
    (lines : List Rest) (cs : Rest) :
    ∃ cs', skipBlanks ('\n' :: (spread margin (line :: lines) ++ cs)) = c :: cs' := by
  subst hline
  cases lines with
  | nil =>
    rw [spread_singleton, List.append_assoc, skipBlanks_lineEnd hmargin]
    exact ⟨_, hskip (line' ++ cs)⟩
  | cons next lines =>
    rw [spread_cons_cons, List.append_assoc, List.append_assoc, skipBlanks_lineEnd hmargin]
    exact ⟨_, hskip _⟩

/-- A list or an object, if its lines are read. -/
theorem Writes.enclosed {opening closing : Char} (indent : Nat) {lines : List Rest} {j : Json}
    (hskip : ∀ rest, skipBlanks (opening :: rest) = opening :: rest) (hbracket : opening ≠ ']')
    (hopening : '\r' ≠ opening) (hclosing : '\r' ≠ closing) (hlines : ∀ line ∈ lines, '\r' ∉ line)
    (hread : ∀ fuel rest, 2 * (spread (List.replicate (indent + 2) ' ') lines).length < fuel →
      readValue (fuel + 1) (opening :: '\n' :: (spread (List.replicate (indent + 2) ' ') lines ++
        '\n' :: (List.replicate indent ' ' ++ closing :: rest))) = some (j, rest)) :
    Writes (opening :: '\n' :: (spread (List.replicate (indent + 2) ' ') lines ++
      '\n' :: (List.replicate indent ' ' ++ [closing]))) j := by
  have hclean := return_notMem_spread (isMargin_blanks (indent + 2)) hlines
  refine .of_succ hskip hbracket ?_ fun fuel rest hfuel _ => ?_
  · have hindent := (isMargin_blanks indent).return_notMem
    simp [hopening, hclosing, hclean]
  · simp only [List.length_append, List.length_cons] at hfuel
    simp only [List.cons_append, List.append_assoc, List.nil_append]
    exact hread fuel rest (by omega)

theorem writes_items (indent : Nat) {items : List Json}
    (h : ∀ j ∈ items, Writes (j.writeIndented (indent + 2)).toList j) :
    Writes (enclose "[" "]" indent (writeItems (indent + 2) items)).toList (list items) := by
  rw [writeItems_eq_map]
  cases items with
  | nil =>
    have hempty : (enclose "[" "]" indent []).toList = ['[', ']'] := by
      rw [enclose, String.toList_append]
      rfl
    rw [List.map_nil, hempty]
    exact .of_succ (skipBlanks_cons rfl) (by decide) (by decide) fun fuel rest _ _ => rfl
  | cons j items =>
    rw [toList_enclose (by simp), List.map_map]
    change Writes ('[' :: '\n' :: (_ ++ '\n' :: (_ ++ [']']))) _
    refine Writes.enclosed indent (skipBlanks_cons rfl) (by decide) (by decide) (by decide)
      (List.forall_mem_map.mpr fun j hj => (h j hj).clean) fun fuel rest hfuel => ?_
    have hmargin := isMargin_blanks (indent + 2)
    have hitems := readItems_spread (List.cons_ne_nil j items) h hmargin (isMargin_blanks indent)
      rest fuel hfuel
    obtain ⟨c, line, hline, hskip, hc⟩ := (h j List.mem_cons_self).opens
    obtain ⟨cs, hcs⟩ := skipBlanks_spread hmargin hline hskip
      (items.map fun j => (j.writeIndented (indent + 2)).toList)
      ('\n' :: (List.replicate indent ' ' ++ ']' :: rest))
    refine (readValue_bracket hcs hc fuel).trans ?_
    rw [readItems_congr (skipBlanks_newline _)]
    exact congrArg _ hitems

theorem writes_fields (indent : Nat) {fields : List (String × Json)}
    (hkeys : (fields.map Prod.fst).Nodup)
    (h : ∀ field ∈ fields, Writes (field.2.writeIndented (indent + 2)).toList field.2) :
    Writes (enclose "\x7b" "\x7d" indent (writeFields (indent + 2) fields)).toList
      (object fields) := by
  cases fields with
  | nil =>
    have hempty : (enclose "\x7b" "\x7d" indent []).toList = ['{', '}'] := by
      rw [enclose, String.toList_append]
      rfl
    rw [writeFields, hempty]
    exact .of_succ (skipBlanks_cons rfl) (by decide) (by decide) fun fuel rest _ _ => rfl
  | cons field fields =>
    rw [toList_enclose (by simp [writeFields]), toList_writeFields]
    change Writes ('{' :: '\n' :: (_ ++ '\n' :: (_ ++ ['}']))) _
    refine Writes.enclosed indent (skipBlanks_cons rfl) (by decide) (by decide) (by decide)
      (List.forall_mem_map.mpr fun field hfield => ?_) fun fuel rest hfuel => ?_
    · simp [fieldLine, return_notMem_writeText, (h field hfield).clean]
    have hmargin := isMargin_blanks (indent + 2)
    have hfields := readFields_spread (List.cons_ne_nil field fields) h hmargin
      (isMargin_blanks indent) rest [] hkeys fuel hfuel
    have hline := fieldLine_append (fun j => (j.writeIndented (indent + 2)).toList) field.1
      field.2 []
    rw [List.append_nil] at hline
    obtain ⟨cs, hcs⟩ := skipBlanks_spread hmargin hline (skipBlanks_cons rfl)
      (fields.map (fieldLine fun j => (j.writeIndented (indent + 2)).toList))
      ('\n' :: (List.replicate indent ' ' ++ '}' :: rest))
    refine (readValue_brace hcs fuel).trans ?_
    rw [readFields_congr (skipBlanks_newline _)]
    exact congrArg _ hfields

theorem IsPlain.writes {j : Json} (h : IsPlain j) (indent : Nat) :
    Writes (j.writeIndented indent).toList j := by
  induction h generalizing indent with
  | scalar hs => exact writes_writeScalar hs
  | list _ ih =>
    rw [writeIndented]
    exact writes_items indent fun j hj => ih j hj (indent + 2)
  | object hkeys _ ih =>
    rw [writeIndented]
    exact writes_fields indent hkeys fun field hfield => ih field hfield (indent + 2)

theorem unifyNewlines_of_notMem {cs : List Char} (h : '\r' ∉ cs) : Text.unifyNewlines cs = cs := by
  induction cs with
  | nil => rfl
  | cons c cs ih =>
    rw [List.mem_cons, not_or] at h
    rw [Text.unifyNewlines, ih h.2]
    · rintro _ rfl
      exact (h.1 rfl).elim
    · rintro rfl
      exact (h.1 rfl).elim

/-- Plain documents are read from their texts. -/
theorem ofText?_writeIndented {j : Json} (h : IsPlain j) :
    ofText? (Text.ofFile (j.writeIndented 0)) = some j := by
  have hwrites := h.writes 0
  have hfile : Text.ofFile (j.writeIndented 0) = j.writeIndented 0 := by
    rw [Text.ofFile, unifyNewlines_of_notMem hwrites.clean, String.ofList_toList]
  have hread := hwrites.reads (2 * (j.writeIndented 0).toList.length + 2) [] (by omega)
    (by rintro c ⟨⟩)
  rw [List.append_nil] at hread
  rw [hfile, ofText?, hread]
  rfl

end Lumen.Json
