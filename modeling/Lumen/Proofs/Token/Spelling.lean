import Mathlib
import Lumen.Token.Lexer

/-!
# How tokens are written

The texts that write a token, form by form, without the reader: which characters a number or a name
may have, where a quoted text is closed, which texts are operators. The reader takes the longest
such text from where it stands, and it is stuck only where no text of any form begins.
-/

namespace Lumen.Text

variable {c : Char}

def CodeRanges.apart (xs ys : CodeRanges) : Bool :=
  xs.all fun x => ys.all fun y => x.2 < y.1 || y.2 < x.1

theorem CodeRanges.not_covers (xs : CodeRanges) {ys : CodeRanges} (hc : ys.covers c)
    (h : xs.apart ys) : xs.covers c = false := by
  rw [Bool.eq_false_iff]
  intro hx
  obtain ⟨x, hx, hxc⟩ := List.any_eq_true.mp hx
  obtain ⟨y, hy, hyc⟩ := List.any_eq_true.mp hc
  have hxy := List.all_eq_true.mp (List.all_eq_true.mp h x hx) y hy
  simp only [Bool.and_eq_true, Bool.or_eq_true, decide_eq_true_eq] at hxc hyc hxy
  omega

theorem covers_of_isDigit (h : Decimal.isDigit c) : CodeRanges.covers [(0x30, 0x39)] c := by
  simp only [Decimal.isDigit, Char.le_def, UInt32.le_iff_toNat_le, Bool.and_eq_true,
    decide_eq_true_eq] at h
  simpa [CodeRanges.covers] using h

theorem isBlank_of_isDigit (h : Decimal.isDigit c) : isBlank c = false :=
  CodeRanges.not_covers blankRanges (covers_of_isDigit h) (by decide)

def initialRanges : CodeRanges := (0x41, 0x5A) :: (0x61, 0x7A) :: (0x5F, 0x5F) :: letterRanges

theorem covers_of_startsName (h : startsName c) : initialRanges.covers c := by
  rw [startsName, isLetter, Bool.or_eq_true, beq_iff_eq] at h
  rcases h with h | rfl
  · split at h
    · simp only [Char.isAlpha, Char.isUpper, Char.isLower, UInt32.le_iff_toNat_le, Bool.or_eq_true,
        Bool.and_eq_true, decide_eq_true_eq] at h
      simp only [initialRanges, CodeRanges.covers, List.any_cons, Bool.or_eq_true,
        Bool.and_eq_true, decide_eq_true_eq]
      exact h.elim .inl fun h => .inr (.inl h)
    · simp only [initialRanges, CodeRanges.covers, List.any_cons, Bool.or_eq_true]
      exact .inr (.inr (.inr h))
  · decide

theorem isBlank_of_startsName (h : startsName c) : isBlank c = false :=
  CodeRanges.not_covers blankRanges (covers_of_startsName h) (by decide +kernel)

theorem isDigit_of_startsName (h : startsName c) : Decimal.isDigit c = false := by
  have hout := CodeRanges.not_covers [(0x30, 0x39)] (covers_of_startsName h) (by decide +kernel)
  rw [Bool.eq_false_iff] at hout ⊢
  intro hdigit
  exact hout (covers_of_isDigit hdigit)

end Lumen.Text

namespace Lumen.Lexeme

/-- The ways to write a token. -/
inductive Form where
  | newline
  | number
  | name
  | quoted
  | paren
  | operator
deriving DecidableEq

/-- Digits with at most one point among them, and a digit in front. -/
structure IsNumber (cs : List Char) : Prop where
  front : cs.head?.any Decimal.isDigit
  chars : ∀ c ∈ cs, Decimal.isDigit c ∨ c = '.'
  point : cs.count '.' ≤ 1

structure IsName (cs : List Char) : Prop where
  front : cs.head?.any Text.startsName
  chars : ∀ c ∈ cs.tail, Text.continuesName c

/-- The characters `cs` write what a text holds and end with the quote that closes it, the first
one that no backslash stands before. -/
inductive Closes (quote : Char) : List Char → List Char → Prop where
  | close : Closes quote [] [quote]
  | plain {c content cs} : c ≠ quote → c ≠ '\\' → Closes quote content cs →
      Closes quote (c :: content) (c :: cs)
  | escaped {e content cs} : Closes quote content cs →
      Closes quote (escape e ++ content) ('\\' :: e :: cs)

def operators : List (List Char) :=
  [['+'], ['-'], ['*'], ['/'], ['%'], ['^'], ['='], ['=', '='], ['!', '='], ['>'], ['>', '='],
    ['<'], ['<', '='], ['?'], [':']]

/-- The characters write a token of that kind and value. -/
inductive Spells : Form → List Char → TokenKind → Scalar → Prop where
  | newline {c} : c = '\n' ∨ c = ';' → Spells .newline [c] .newline .null
  | number {cs} : IsNumber cs → Spells .number cs .number (.float (numberValue cs))
  | name {cs} : IsName cs →
      Spells .name cs (nameKind (String.ofList cs)) (.text (String.ofList cs))
  | quoted {q content cs} : q = '"' ∨ q = '\'' → Closes q content cs →
      Spells .quoted (q :: cs) .text (.text (String.ofList content))
  | paren {c} : c ∈ parenChars → Spells .paren [c] .paren (.text (String.ofList [c]))
  | operator {cs} : cs ∈ operators → Spells .operator cs .operator (.text (String.ofList cs))

/-- No text of the form goes on into the characters behind `taken`. -/
def Longest (f : Form) (taken rest : List Char) : Prop :=
  ∀ more, more ≠ [] → more <+: rest → ∀ kind value, ¬ Spells f (taken ++ more) kind value

/-- A token of one character ends one step behind its start, and the others with their text. -/
def Form.lexeme : Form → TokenKind → Scalar → Lexeme
  | newline, kind, value | paren, kind, value => mark kind value
  | _, kind, value => word kind value

/-- What a text starts with that no token, blank or comment can begin. -/
inductive Stuck : List Char → Prop where
  | unclosed {q cs} : q = '"' ∨ q = '\'' →
      (∀ content taken, taken <+: cs → ¬ Closes q content taken) → Stuck (q :: cs)
  | bang {cs} : cs.head? ≠ some '=' → Stuck ('!' :: cs)
  | stray {c cs} : Text.isBlank c = false → c ≠ '#' →
      (∀ f more kind value, ¬ Spells f (c :: more) kind value) → Stuck (c :: cs)

def Form.of? (c : Char) : Option Form :=
  if c = '\n' ∨ c = ';' then some newline
  else if Text.isBlank c ∨ c = '#' then none
  else if Decimal.isDigit c then some number
  else if Text.startsName c then some name
  else if c = '"' ∨ c = '\'' then some quoted
  else if c ∈ parenChars then some paren
  else if c ∈ operatorChars ∨ c = '!' then some operator
  else none

variable {f : Form} {c q : Char} {cs taken more rest content : List Char} {kind : TokenKind}
  {value : Scalar}

theorem spanNumber_chars (point : Bool) (cs : List Char) :
    ∀ c ∈ (spanNumber point cs).1, Decimal.isDigit c ∨ c = '.' := by
  induction cs generalizing point with
  | nil => exact fun _ h => (List.not_mem_nil h).elim
  | cons d ds ih =>
    unfold spanNumber
    split
    · next hd =>
      intro c hc
      rcases List.mem_cons.mp hc with rfl | hc
      · rw [Bool.or_eq_true, Bool.and_eq_true, beq_iff_eq] at hd
        exact hd.imp_right And.left
      · exact ih _ c hc
    · exact fun _ h => (List.not_mem_nil h).elim

theorem spanNumber_point (point : Bool) (cs : List Char) :
    (spanNumber point cs).1.count '.' + point.toNat ≤ 1 := by
  induction cs generalizing point with
  | nil => cases point <;> decide
  | cons d ds ih =>
    unfold spanNumber
    split
    · next hd =>
      have hrest := ih (point || d == '.')
      rw [List.count_cons]
      by_cases hpoint : d = '.'
      · subst hpoint
        cases point with
        | false => simpa using hrest
        | true => exact absurd hd (by decide)
      · rw [beq_false_of_ne hpoint, Bool.or_false] at hrest ⊢
        exact hrest
    · simpa using Bool.toNat_le point

/-- What stops a number would not have gone on with it. -/
theorem spanNumber_stops (point : Bool) {d : Char} {ds : List Char}
    (h : (spanNumber point cs).2 = d :: ds) : Decimal.isDigit d = false ∧
      (d = '.' → 1 ≤ (spanNumber point cs).1.count '.' + point.toNat) := by
  induction cs generalizing point with
  | nil => cases h
  | cons e es ih =>
    unfold spanNumber at h ⊢
    split
    · next he =>
      rw [if_pos he] at h
      obtain ⟨hdigit, hpoint⟩ := ih (point || e == '.') h
      refine ⟨hdigit, fun hd => ?_⟩
      have hpoint := hpoint hd
      rw [List.count_cons]
      by_cases he : e = '.'
      · rw [if_pos (beq_iff_eq.mpr he)]
        omega
      · rw [beq_false_of_ne he, Bool.or_false] at hpoint ⊢
        exact hpoint
    · next he =>
      rw [if_neg he] at h
      cases h
      rw [Bool.or_eq_true, not_or, Bool.and_eq_true, beq_iff_eq] at he
      refine ⟨Bool.eq_false_iff.mpr he.1, fun hd => ?_⟩
      cases point
      · exact (he.2 ⟨hd, rfl⟩).elim
      · exact Nat.le_add_left 1 _

theorem isNumber_spanNumber (hc : Decimal.isDigit c) (cs : List Char) :
    IsNumber (c :: (spanNumber false cs).1) where
  front := hc
  chars d hd := (List.mem_cons.mp hd).elim (fun h => .inl (h ▸ hc)) (spanNumber_chars false cs d)
  point := by
    have hne : c ≠ '.' := by
      rintro rfl
      exact absurd hc (by decide)
    simpa [List.count_cons, hne] using spanNumber_point false cs

theorem longest_spanNumber (c : Char) (cs : List Char) :
    Longest .number (c :: (spanNumber false cs).1) (spanNumber false cs).2 := by
  rintro more hmore ⟨rest, hrest⟩ kind value hspells
  obtain ⟨d, ds, rfl⟩ := List.exists_cons_of_ne_nil hmore
  obtain ⟨hdigit, hpoint⟩ := spanNumber_stops false hrest.symm
  cases hspells with
  | number hnumber =>
    rcases hnumber.chars d (by simp) with hd | rfl
    · rw [hdigit] at hd
      cases hd
    · have hone := hpoint rfl
      have hall := hnumber.point
      simp only [List.count_append, List.count_cons, Bool.toNat_false, beq_self_eq_true,
        if_true] at hall hone
      omega

theorem closes_of_spanText (h : spanText q cs = some (content, taken, rest)) :
    Closes q content taken := by
  fun_induction spanText q cs generalizing content taken rest with
  | case1 => cases h
  | case2 =>
    cases h
    exact .close
  | case3 => cases h
  | case4 e es hquote ih =>
    obtain ⟨⟨u, v, w⟩, hes, hresult⟩ := Option.map_eq_some_iff.mp h
    cases hresult
    exact .escaped (ih hes)
  | case5 c cs hquote hescape ih =>
    obtain ⟨⟨u, v, w⟩, hcs, hresult⟩ := Option.map_eq_some_iff.mp h
    cases hresult
    exact .plain hquote hescape (ih hcs)

theorem Closes.spanText_eq (h : Closes q content taken) (hq : q ≠ '\\') (rest : List Char) :
    spanText q (taken ++ rest) = some (content, taken, rest) := by
  induction h with
  | close =>
    rw [List.cons_append]
    unfold spanText
    rw [if_pos rfl]
    rfl
  | plain hquote hescape _ ih =>
    rw [List.cons_append]
    unfold spanText
    rw [if_neg hquote, if_neg hescape, ih]
    rfl
  | escaped _ ih =>
    rw [List.cons_append, List.cons_append]
    unfold spanText
    rw [if_neg hq.symm, if_pos rfl]
    dsimp only
    rw [ih]
    rfl

theorem quote_ne_backslash (h : q = '"' ∨ q = '\'') : q ≠ '\\' := by
  rcases h with rfl | rfl <;> decide

theorem longest_closes (hq : q = '"' ∨ q = '\'') (h : Closes q content taken) (rest : List Char) :
    Longest .quoted (q :: taken) rest := by
  rintro more hmore - kind value hspells
  generalize hwritten : q :: taken ++ more = written at hspells
  cases hspells with
  | quoted _ hclosed =>
    rw [List.cons_append] at hwritten
    obtain ⟨rfl, rfl⟩ := List.cons.inj hwritten
    have hfirst := h.spanText_eq (quote_ne_backslash hq) more
    have hwhole := hclosed.spanText_eq (quote_ne_backslash hq) []
    rw [List.append_nil, hfirst, Option.some.injEq, Prod.mk.injEq, Prod.mk.injEq] at hwhole
    exact hmore hwhole.2.2

theorem isName_takeWhile (hc : Text.startsName c) (cs : List Char) :
    IsName (c :: cs.takeWhile Text.continuesName) where
  front := hc
  chars := fun _ h => List.all_eq_true.mp List.all_takeWhile _ h

theorem longest_takeWhile (c : Char) (cs : List Char) :
    Longest .name (c :: cs.takeWhile Text.continuesName) (cs.dropWhile Text.continuesName) := by
  rintro more hmore ⟨rest, hrest⟩ kind value hspells
  obtain ⟨d, ds, rfl⟩ := List.exists_cons_of_ne_nil hmore
  have hstops := List.head?_dropWhile_not Text.continuesName cs
  rw [← hrest] at hstops
  cases hspells with
  | name hname =>
    have hd := hname.chars d (by simp)
    exact absurd hd (Bool.eq_false_iff.mp hstops)

theorem longest_singleton (hf : f = .newline ∨ f = .paren) (c : Char) (rest : List Char) :
    Longest f [c] rest := by
  rintro more hmore - kind value hspells
  obtain ⟨d, ds, rfl⟩ := List.exists_cons_of_ne_nil hmore
  rcases hf with rfl | rfl <;> cases hspells

/-- An operator goes on with an equality sign or not at all. -/
theorem operators_cons (h : c :: more ∈ operators) : (more = [] ∧ c ∈ operatorChars) ∨
    (more = ['='] ∧ joinsEquals c) := by
  simp only [operators, List.mem_cons, List.cons.injEq, List.not_mem_nil, or_false] at h
  rcases h with h | h | h | h | h | h | h | h | h | h | h | h | h | h | h <;>
    obtain ⟨rfl, rfl⟩ := h <;> simp <;> decide

theorem mem_operators (h : c ∈ operatorChars) : [c] ∈ operators := by
  have hall : operatorChars.all fun c => [c] ∈ operators := by decide
  exact of_decide_eq_true (List.all_eq_true.mp hall c h)

theorem mem_operators_equals (h : joinsEquals c) : [c, '='] ∈ operators := by
  simp only [joinsEquals, Bool.or_eq_true, beq_iff_eq] at h
  rcases h with ((rfl | rfl) | rfl) | rfl <;> decide

/-- An operator of one character is no part of a longer one. -/
theorem longest_operator (h : joinsEquals c → rest.head? ≠ some '=') :
    Longest .operator [c] rest := by
  rintro more hmore hprefix kind value hspells
  cases hspells with
  | operator hmem =>
    rcases operators_cons hmem with ⟨hnil, -⟩ | ⟨rfl, hjoins⟩
    · exact hmore hnil
    · obtain ⟨cs, rfl⟩ := hprefix
      exact h hjoins rfl

theorem longest_joined : Longest .operator [c, '='] rest := by
  rintro more hmore - kind value hspells
  cases hspells with
  | operator hmem =>
    rcases operators_cons hmem with ⟨hnil, -⟩ | ⟨hequals, -⟩
    · cases hnil
    · exact hmore (List.cons.inj hequals).2

theorem not_spells_nil : ¬ Spells f [] kind value := by
  rintro (_ | ⟨⟨hfront, _⟩⟩ | ⟨⟨hfront, _⟩⟩ | _ | _ | hmem)
  · cases hfront
  · cases hfront
  · revert hmem
    decide

/-- The first character of a token tells its form. -/
theorem of?_of_spells (h : Spells f (c :: cs) kind value) : Form.of? c = some f := by
  unfold Form.of?
  cases h with
  | newline hc => exact if_pos hc
  | number hnumber =>
    have hc : Decimal.isDigit c := hnumber.front
    have hblank := Text.isBlank_of_isDigit hc
    rw [if_neg, if_neg, if_pos hc]
    · rintro (h | rfl)
      · simp [hblank] at h
      · exact absurd hc (by decide)
    · rintro (rfl | rfl) <;> exact absurd hc (by decide)
  | name hname =>
    have hc : Text.startsName c := hname.front
    have hblank := Text.isBlank_of_startsName hc
    have hdigit := Text.isDigit_of_startsName hc
    rw [if_neg, if_neg, if_neg, if_pos hc]
    · simp [hdigit]
    · rintro (h | rfl)
      · simp [hblank] at h
      · exact absurd hc (by decide)
    · rintro (rfl | rfl) <;> exact absurd hc (by decide)
  | quoted hc _ => rcases hc with rfl | rfl <;> decide
  | paren hc =>
    have hall : parenChars.all fun c => Form.of? c = some .paren := by decide
    exact of_decide_eq_true (List.all_eq_true.mp hall c hc)
  | operator hmem =>
    rcases operators_cons hmem with ⟨-, hc⟩ | ⟨-, hc⟩
    · have hall : operatorChars.all fun c => Form.of? c = some .operator := by decide
      exact of_decide_eq_true (List.all_eq_true.mp hall c hc)
    · simp only [joinsEquals, Bool.or_eq_true, beq_iff_eq] at hc
      rcases hc with ((rfl | rfl) | rfl) | rfl <;> decide

/-- A quoted text is closed at one place only. -/
theorem spells_unique {kind' : TokenKind} {value' : Scalar} (h : Spells f cs kind value)
    (h' : Spells f cs kind' value') : kind = kind' ∧ value = value' := by
  cases h with
  | quoted hq hclosed =>
    cases h' with
    | quoted _ hclosed' =>
      have heq := (hclosed.spanText_eq (quote_ne_backslash hq) []).symm.trans
        (hclosed'.spanText_eq (quote_ne_backslash hq) [])
      cases heq
      exact ⟨rfl, rfl⟩
  | _ =>
    cases h'
    exact ⟨rfl, rfl⟩

/-- Two longest tokens of one form at one place are the same text. -/
theorem longest_unique {taken' rest' : List Char} {kind' : TokenKind} {value' : Scalar}
    (h : Spells f taken kind value) (hlong : Longest f taken rest)
    (h' : Spells f taken' kind' value') (hlong' : Longest f taken' rest')
    (heq : taken ++ rest = taken' ++ rest') : taken = taken' := by
  rcases List.append_eq_append_iff.mp heq with ⟨more, rfl, rfl⟩ | ⟨more, rfl, rfl⟩
  · rcases more with - | ⟨d, ds⟩
    · rw [List.append_nil]
    · exact (hlong _ (List.cons_ne_nil d ds) (List.prefix_append _ _) _ _ h').elim
  · rcases more with - | ⟨d, ds⟩
    · rw [List.append_nil]
    · exact (hlong' _ (List.cons_ne_nil d ds) (List.prefix_append _ _) _ _ h).elim

/-- What stands at the start of a text, and what a reading has to make of it. -/
inductive Starts (c : Char) (cs : List Char) :
    Except Complaint (Lexeme × List Char × List Char) → Prop where
  | blank : Text.isBlank c → c ≠ '\n' → Starts c cs (.ok (skipped, [c], cs))
  | comment : c = '#' →
      Starts c cs (.ok (skipped, c :: cs.takeWhile (· != '\n'), cs.dropWhile (· != '\n')))
  | token {f : Form} {kind : TokenKind} {value : Scalar} {taken rest : List Char} :
      Spells f (c :: taken) kind value → taken ++ rest = cs → Longest f (c :: taken) rest →
      Starts c cs (.ok (f.lexeme kind value, c :: taken, rest))
  | stuck {complaint : Complaint} : Stuck (c :: cs) → Starts c cs (.error complaint)

theorem read_starts (c : Char) (cs : List Char) : Starts c cs (read c cs) := by
  unfold read
  -- In the order in which the reader tries the forms; what is left at the end starts no token.
  split
  · next hnewline =>
    exact .token (.newline hnewline) rfl (longest_singleton (.inl rfl) c cs)
  next hnewline =>
  split
  · next hblank => exact .blank hblank fun h => hnewline (.inl h)
  next hblank =>
  split
  · next hsharp => exact .comment hsharp
  next hsharp =>
  split
  · next hdigit =>
    exact .token (.number (isNumber_spanNumber hdigit cs)) (spanNumber_append cs false)
      (longest_spanNumber c cs)
  next hdigit =>
  split
  · next hname =>
    exact .token (.name (isName_takeWhile hname cs)) List.takeWhile_append_dropWhile
      (longest_takeWhile c cs)
  next hname =>
  split
  · next hquote =>
    split
    · next hspan =>
      have hclosed := closes_of_spanText hspan
      exact .token (.quoted hquote hclosed) (spanText_append hspan) (longest_closes hquote hclosed _)
    · next hspan =>
      refine .stuck (.unclosed hquote ?_)
      rintro content taken ⟨rest, rfl⟩ hclosed
      rw [hclosed.spanText_eq (quote_ne_backslash hquote)] at hspan
      cases hspan
  next hquote =>
  split
  · next hparen =>
    exact .token (.paren (List.contains_iff_mem.mp hparen)) rfl (longest_singleton (.inr rfl) c cs)
  next hparen =>
  have hsingle (hc : operatorChars.contains c) (hnext : joinsEquals c → cs.head? ≠ some '=') :
      Starts c cs (.ok (Form.operator.lexeme .operator (.text (String.ofList [c])), [c], cs)) :=
    .token (.operator (mem_operators (List.contains_iff_mem.mp hc))) rfl
      (longest_operator fun h => hnext h)
  have hnone (hc : ¬ operatorChars.contains c) (hbang : c = '!' → cs.head? ≠ some '=') :
      Stuck (c :: cs) := by
    by_cases heq : c = '!'
    · subst heq
      exact .bang (hbang rfl)
    refine .stray (Bool.eq_false_iff.mpr hblank) hsharp fun f more kind value hspells => ?_
    have hform := of?_of_spells hspells
    rw [List.contains_iff_mem] at hc hparen
    simp [Form.of?, *] at hform
  split
  · next rest =>
    split
    · next hjoins =>
      exact .token (.operator (mem_operators_equals hjoins)) rfl longest_joined
    next hjoins =>
    split
    · next hc => exact hsingle hc fun h => (hjoins h).elim
    · next hc =>
      refine .stuck (hnone hc fun h => (hjoins ?_).elim)
      subst h
      rfl
  · next hnext =>
    have hhead : cs.head? ≠ some '=' := by
      intro h
      obtain ⟨rest, rfl⟩ := List.head?_eq_some_iff.mp h
      exact hnext rest rfl
    split
    · next hc => exact hsingle hc fun _ => hhead
    · next hc => exact .stuck (hnone hc fun _ => hhead)

theorem read_blank (hblank : Text.isBlank c) (hc : c ≠ '\n') (cs : List Char) :
    read c cs = .ok (skipped, [c], cs) := by
  unfold read
  rw [if_neg, if_pos hblank]
  rintro (h | rfl)
  · exact hc h
  · exact absurd hblank (by decide)

theorem read_comment (cs : List Char) : read '#' cs =
    .ok (skipped, '#' :: cs.takeWhile (· != '\n'), cs.dropWhile (· != '\n')) := by
  unfold read
  rw [if_neg (by decide), if_neg (by decide), if_pos rfl]

/-- The reader takes the longest token that starts a text. -/
theorem read_spells (h : Spells f (c :: taken) kind value) (hlong : Longest f (c :: taken) rest) :
    read c (taken ++ rest) = .ok (f.lexeme kind value, c :: taken, rest) := by
  have hform := of?_of_spells h
  have hstarts := read_starts c (taken ++ rest)
  generalize read c (taken ++ rest) = result at hstarts
  cases hstarts with
  | blank hblank hc =>
    have hsemicolon : c ≠ ';' := by
      rintro rfl
      exact absurd hblank (by decide)
    simp [Form.of?, hblank, hc, hsemicolon] at hform
  | comment hc =>
    subst hc
    cases hform.symm.trans (by decide : Form.of? '#' = none)
  | token h' heq hlong' =>
    cases hform.symm.trans (of?_of_spells h')
    have htaken := longest_unique h hlong h' hlong' (congrArg (c :: ·) heq.symm)
    obtain ⟨-, rfl⟩ := List.cons.inj htaken
    obtain ⟨rfl, rfl⟩ := spells_unique h h'
    rw [List.append_cancel_left heq]
  | stuck hstuck =>
    cases hstuck with
    | unclosed hq hopen =>
      have hquoted : Form.of? c = some .quoted := by rcases hq with rfl | rfl <;> decide
      cases hform.symm.trans hquoted
      cases h with
      | quoted _ hclosed => exact (hopen _ _ (List.prefix_append _ _) hclosed).elim
    | bang hnext =>
      cases hform.symm.trans (by decide : Form.of? '!' = some .operator)
      cases h with
      | operator hmem =>
        rcases operators_cons hmem with ⟨-, hc⟩ | ⟨rfl, -⟩
        · exact absurd hc (by decide)
        · exact (hnext rfl).elim
    | stray _ _ hnone => exact (hnone _ _ _ _ h).elim

/-- A name is read to its end, where no character stands that goes on with it. -/
theorem read_name (h : IsName (c :: taken)) (hstop : rest.head?.all (! Text.continuesName ·)) :
    read c (taken ++ rest) = .ok (word (nameKind (String.ofList (c :: taken)))
      (.text (String.ofList (c :: taken))), c :: taken, rest) := by
  refine read_spells (.name h) ?_
  rintro more hmore ⟨_, rfl⟩ kind value hspells
  obtain ⟨d, ds, rfl⟩ := List.exists_cons_of_ne_nil hmore
  cases hspells with
  | name hname =>
    have hd := hname.chars d (by simp)
    rw [List.cons_append, List.head?_cons, Option.all_some, hd] at hstop
    cases hstop

end Lumen.Lexeme
