import Lumen.Proofs.Grammar.Append

/-!
# Brackets are nested

Each closing bracket of a program closes the last bracket that is still open, and is of its kind.
The grammar brings this about: what is open before a phrase is open behind it, and nothing else.
-/

namespace Lumen

namespace Token

def closes (t u : Token) : Bool :=
  (u.is .paren "(" && t.is .paren ")") || (u.is .paren "[" && t.is .paren "]") ||
    (u.is .paren openBrace && t.is .paren closeBrace)

/-- The brackets that are open behind the token, the last one first, where those of `opened` are
open before. A bracket may close nothing but the last open one. -/
def nest (opened : List Token) (t : Token) : Option (List Token) :=
  if t.isOpening then some (t :: opened)
  else if t.isClosing then
    match opened with
    | u :: opened => if t.closes u then some opened else none
    | [] => none
  else some opened

end Token

def unclosed (opened ts : List Token) : Option (List Token) := ts.foldlM Token.nest opened

namespace Token

variable {t u : Token} {opened opened' : List Token}

theorem closes_parenthesis (ht : t.is .paren ")") (hu : u.is .paren "(") : t.closes u := by
  rw [closes, ht, hu]
  rfl

theorem closes_square (ht : t.is .paren "]") (hu : u.is .paren "[") : t.closes u := by
  rw [closes, ht, hu, Bool.and_self, Bool.or_true, Bool.true_or]

theorem closes_brace (ht : t.is .paren closeBrace) (hu : u.is .paren openBrace) : t.closes u := by
  rw [closes, ht, hu, Bool.and_self, Bool.or_true]

theorem isOpening_of_closes (h : t.closes u) : u.isOpening := by
  simp only [closes, Bool.or_eq_true, Bool.and_eq_true] at h
  simp only [isOpening, Bool.or_eq_true]
  rcases h with (h | h) | h
  · exact .inl (.inl h.1)
  · exact .inl (.inr h.1)
  · exact .inr h.1

theorem isClosing_of_closes (h : t.closes u) : t.isClosing := by
  simp only [closes, Bool.or_eq_true, Bool.and_eq_true] at h
  simp only [isClosing, Bool.or_eq_true]
  rcases h with (h | h) | h
  · exact .inl (.inl h.2)
  · exact .inl (.inr h.2)
  · exact .inr h.2

theorem nest_opening (h : t.isOpening) : t.nest opened = some (t :: opened) := if_pos h

theorem nest_closing (h : t.closes u) : t.nest (u :: opened) = some opened := by
  have hclosing := isClosing_of_closes h
  unfold nest
  rw [Grammar.not_isOpening_of_isClosing hclosing, if_neg Bool.false_ne_true, if_pos hclosing]
  exact if_pos h

theorem nest_other (hopening : t.isOpening = false) (hclosing : t.isClosing = false) :
    t.nest opened = some opened := by
  unfold nest
  rw [hopening, hclosing]
  rfl

/-- A bracket that closes something closes the last open one. -/
theorem closes_of_nest (hclosing : t.isClosing) (h : t.nest opened = some opened') :
    ∃ u, opened = u :: opened' ∧ t.closes u := by
  unfold nest at h
  rw [Grammar.not_isOpening_of_isClosing hclosing, if_neg Bool.false_ne_true, if_pos hclosing] at h
  cases opened with
  | nil => cases h
  | cons u opened =>
    dsimp only at h
    by_cases hcloses : t.closes u
    · rw [if_pos hcloses] at h
      cases h
      exact ⟨u, rfl, hcloses⟩
    · rw [if_neg hcloses] at h
      cases h

theorem length_of_nest (h : t.nest opened = some opened') :
    (opened'.length : Int) = opened.length + t.bracketStep := by
  by_cases hopening : t.isOpening
  · rw [nest_opening hopening] at h
    cases h
    rw [bracketStep, if_pos hopening, List.length_cons]
    rfl
  · by_cases hclosing : t.isClosing
    · obtain ⟨u, rfl, -⟩ := closes_of_nest hclosing h
      rw [bracketStep, if_neg hopening, if_pos hclosing, List.length_cons]
      omega
    · rw [nest_other (Bool.eq_false_iff.mpr hopening) (Bool.eq_false_iff.mpr hclosing)] at h
      cases h
      rw [bracketStep, if_neg hopening, if_neg hclosing, Int.add_zero]

end Token

section

variable {t u : Token} {opened opened' ts us : List Token}

theorem unclosed_cons : unclosed opened (t :: ts) =
    (t.nest opened).bind fun opened => unclosed opened ts := List.foldlM_cons ..

theorem unclosed_append : unclosed opened (ts ++ us) =
    (unclosed opened ts).bind fun opened => unclosed opened us := List.foldlM_append ..

theorem unclosed_opening (h : t.isOpening) :
    unclosed opened (t :: ts) = unclosed (t :: opened) ts := by
  rw [unclosed_cons, Token.nest_opening h, Option.bind_some]

theorem unclosed_closing (h : t.closes u) :
    unclosed (u :: opened) (t :: ts) = unclosed opened ts := by
  rw [unclosed_cons, Token.nest_closing h, Option.bind_some]

theorem unclosed_of_kind (h : t.kind ≠ .paren) :
    unclosed opened (t :: ts) = unclosed opened ts := by
  rw [unclosed_cons, Token.nest_other (Grammar.isOpening_of_kind h) (Grammar.isClosing_of_kind h),
    Option.bind_some]

theorem unclosed_comma (h : t.is .paren ",") :
    unclosed opened (t :: ts) = unclosed opened ts := by
  rw [unclosed_cons, Token.nest_other, Option.bind_some]
  · simp [Token.isOpening, Token.is_of_is h, Token.openBrace]
  · simp [Token.isClosing, Token.is_of_is h, Token.closeBrace]

/-- As many brackets are open as have been opened and not closed. -/
theorem length_of_unclosed (h : unclosed opened ts = some opened') (eof : Token) :
    (opened'.length : Int) = opened.length + (TokenStream.mk ts eof).openBrackets := by
  induction ts generalizing opened with
  | nil =>
    cases h
    exact (Int.add_zero _).symm
  | cons t ts ih =>
    rw [unclosed_cons, Option.bind_eq_some_iff] at h
    obtain ⟨inner, ht, h⟩ := h
    have hcons : (TokenStream.mk (t :: ts) eof).openBrackets =
        t.bracketStep + (TokenStream.mk ts eof).openBrackets := rfl
    rw [ih h, Token.length_of_nest ht, hcons, Int.add_assoc]

/-- Whatever stands in front of a bracket leaves open what it closes. -/
theorem unclosed_before (h : unclosed opened (ts ++ t :: us) = some opened') :
    ∃ inner, unclosed opened ts = some inner ∧
      (t.isClosing → ∃ u outer, inner = u :: outer ∧ t.closes u) := by
  rw [unclosed_append, Option.bind_eq_some_iff] at h
  obtain ⟨inner, hinner, h⟩ := h
  rw [unclosed_cons, Option.bind_eq_some_iff] at h
  obtain ⟨outer, ht, -⟩ := h
  refine ⟨inner, hinner, fun hclosing => ?_⟩
  obtain ⟨u, rfl, hcloses⟩ := Token.closes_of_nest hclosing ht
  exact ⟨u, outer, rfl, hcloses⟩

end

namespace Grammar

/-- What is open before the tokens up to `rest` is open behind them, and nothing else. -/
def Nested (ts rest : List Token) : Prop := ∀ opened, unclosed opened ts = unclosed opened rest

variable {ts us rest params : List Token} {t u : Token} {k : TokenKind}

theorem Nested.refl (ts : List Token) : Nested ts ts := fun _ => rfl

theorem Nested.trans (h : Nested ts us) (h' : Nested us rest) : Nested ts rest :=
  fun opened => (h opened).trans (h' opened)

/-- A token that is no bracket. -/
theorem Nested.cons (ht : t.kind = k) (hk : k ≠ .paren) (h : Nested ts rest) :
    Nested (t :: ts) rest :=
  fun opened => (unclosed_of_kind (ht ▸ hk)).trans (h opened)

/-- The same inside a phrase. -/
theorem Nested.skip (h : Nested ts (t :: rest)) (ht : t.kind = k) (hk : k ≠ .paren) :
    Nested ts rest := h.trans ((Nested.refl rest).cons ht hk)

theorem Nested.comma (ht : t.is .paren ",") (h : Nested ts rest) : Nested (t :: ts) rest :=
  fun opened => (unclosed_comma ht).trans (h opened)

/-- Brackets around what is nested. -/
theorem Nested.enclosed (h : Nested ts (u :: rest)) (hu : u.closes t) : Nested (t :: ts) rest :=
  fun opened => (unclosed_opening (Token.isOpening_of_closes hu)).trans
    ((h (t :: opened)).trans (unclosed_closing hu))

theorem Newlines.nested (h : Newlines ts rest) : Nested ts rest := by
  induction h with
  | nil => exact .refl _
  | cons ht _ ih => exact ih.cons (kind_of_isNewline ht) nofun

theorem MoreParameters.nested (h : MoreParameters ts rest params) : Nested ts rest := by
  induction h with
  | nil => exact .refl _
  | cons hcomma h₁ hname h₂ _ ih =>
    exact ((h₁.nested.skip hname nofun).trans (h₂.nested.trans ih)).comma hcomma

theorem Parameters.nested (h : Parameters ts rest params) : Nested ts rest := by
  cases h with
  | nil h => exact h.nested
  | cons h₁ hname h₂ hmore =>
    exact (h₁.nested.skip hname nofun).trans (h₂.nested.trans hmore.nested)

theorem Named.nested {name : Option Token} (h : Named ts rest name) : Nested ts rest := by
  cases h with
  | none => exact .refl _
  | some hname => exact (Nested.refl _).cons hname nofun

variable {r : Reading} {φ : Phrase} {n : Parser.Nesting} {y : Yield}

theorem kind_ne_of_bound (h : t.is .operator ":" ∨ t.is .keyword "to") : t.kind ≠ .paren := by
  rcases h with h | h <;> simp [Token.kind_of_is h]

/-- Each phrase closes the brackets that it opens, the last one first. -/
theorem Derives.nested (h : Derives r φ n ts rest y) : Nested ts rest := by
  induction h with
  | noStatements | lastStatement | noChoice | endChain | endSuffixes | lastArgument | endClauses
  | noStep => exact .refl _
  | blockBody _ ih | evaluate _ ih | ternary _ ih | unsigned _ ih => exact ih
  | statements _ _ ih ih' | condition _ _ ih ih' | level _ _ ih ih' | target _ _ ih ih' =>
    exact ih.trans ih'
  | giveBackNothing ht | breakLoop ht | continueLoop ht | null ht =>
    exact (Nested.refl _).cons (Token.kind_of_is ht) nofun
  | number ht | text ht | lookup ht => exact (Nested.refl _).cons ht nofun
  | statementBody ht _ ih | giveBack ht _ _ ih | step ht _ ih =>
    exact ih.cons (Token.kind_of_is ht) nofun
  | sign ht _ ih => exact ih.cons (kind_of_isSign ht) nofun
  | moreStatements ht h _ _ ih ih' =>
    exact (h.nested.trans (ih.trans ih')).cons (kind_of_isNewline ht) nofun
  | assign hname hu _ ih => exact (ih.cons (Token.kind_of_is hu) nofun).cons hname nofun
  | choice ht _ hu _ ih ih' =>
    exact ((ih.skip (Token.kind_of_is hu) nofun).trans ih').cons (Token.kind_of_is ht) nofun
  | chain ht _ _ ih ih' => exact (ih.trans ih').cons (kind_of_joins ht) nofun
  | noArguments h => exact h.nested
  | arguments h _ h' _ ih ih' => exact h.nested.trans (ih.trans (h'.nested.trans ih'))
  | moreArguments ht h _ h' _ ih ih' =>
    exact (h.nested.trans (ih.trans (h'.nested.trans ih'))).comma ht
  | conditional ht _ _ _ ih ih' ih'' =>
    exact (ih.trans (ih'.trans ih'')).cons (Token.kind_of_is ht) nofun
  | elseIf h ht _ _ _ ih ih' ih'' =>
    exact (h.nested.skip (Token.kind_of_is ht) nofun).trans (ih.trans (ih'.trans ih''))
  | otherwise h ht _ ih => exact (h.nested.skip (Token.kind_of_is ht) nofun).trans ih
  | forLoop ht hname hu _ hto _ _ _ ih₁ ih₂ ih₃ ih₄ =>
    have hbounds := ih₁.trans ((ih₂.trans (ih₃.trans ih₄)).cons rfl (kind_ne_of_bound hto))
    exact ((hbounds.cons (Token.kind_of_is hu) nofun).cons hname nofun).cons
      (Token.kind_of_is ht) nofun
  | eachLoop ht hname hu _ _ ih ih' =>
    exact (((ih.trans ih').cons (Token.kind_of_is hu) nofun).cons hname nofun).cons
      (Token.kind_of_is ht) nofun
  | whileLoop ht _ _ ih ih' => exact (ih.trans ih').cons (Token.kind_of_is ht) nofun
  -- The phrases with brackets of their own
  | block ht h _ h' hu ih =>
    exact (h.nested.trans (ih.trans h'.nested)).enclosed (Token.closes_brace hu ht)
  | assignIndex hname hu h _ h' hv hw _ ih ih' =>
    have hbehind := h.nested.trans (ih.trans h'.nested)
    have hindex := hbehind.enclosed (Token.closes_square hv hu)
    exact ((hindex.skip (Token.kind_of_is hw) nofun).trans ih').cons hname nofun
  | call ht _ hu _ ih ih' => exact (ih.enclosed (Token.closes_parenthesis hu ht)).trans ih'
  | index ht h _ h' hu _ ih ih' =>
    have hindex := h.nested.trans (ih.trans h'.nested)
    exact (hindex.enclosed (Token.closes_square hu ht)).trans ih'
  | slice ht h₁ _ h₂ hv h₃ _ h₄ hu _ ih₁ ih₂ ih₃ =>
    have hfrom := (h₁.nested.trans (ih₁.trans h₂.nested)).skip (Token.kind_of_is hv) nofun
    have hto := h₃.nested.trans (ih₂.trans h₄.nested)
    exact ((hfrom.trans hto).enclosed (Token.closes_square hu ht)).trans ih₃
  | parentheses ht h _ h' hu ih =>
    exact (h.nested.trans (ih.trans h'.nested)).enclosed (Token.closes_parenthesis hu ht)
  | list ht _ hu ih => exact ih.enclosed (Token.closes_square hu ht)
  | functionBlock ht hname hu hparams hv _ ih =>
    have hhead := hparams.nested.enclosed (Token.closes_parenthesis hv hu)
    exact (hname.nested.trans (hhead.trans ih)).cons (Token.kind_of_is ht) nofun
  | functionExpression ht hname hu hparams hv hw _ ih =>
    have hhead := hparams.nested.enclosed (Token.closes_parenthesis hv hu)
    exact (hname.nested.trans ((hhead.skip (Token.kind_of_is hw) nofun).trans ih)).cons
      (Token.kind_of_is ht) nofun

theorem Statements.nested {ss : List Node} (h : Statements r n ts ss) : Nested ts [] := by
  obtain ⟨ts₁, ts₂, h₁, h, h₂⟩ := h
  exact h₁.nested.trans (h.nested.trans h₂.nested)

end Grammar

end Lumen
