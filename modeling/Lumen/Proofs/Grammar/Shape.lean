import Lumen.Proofs.Grammar

/-!
# The shape of derivations

How many tokens a phrase takes, which token it starts with, and that it closes the brackets that it
opens.
-/

namespace Lumen

namespace Token

variable {t : Token} {k k' : TokenKind} {s s' : String}

@[grind →] theorem kind_of_is (h : t.is k s) : t.kind = k := by
  rw [Token.is, Bool.and_eq_true, beq_iff_eq] at h
  exact h.1

/-- A token that is one word is no other one. -/
theorem is_of_is (h : t.is k s) (k' : TokenKind) (s' : String) :
    t.is k' s' = (decide (k = k') && decide (s = s')) := by
  rw [Token.is, Bool.and_eq_true, beq_iff_eq] at h
  obtain ⟨rfl, hs⟩ := h
  cases hv : t.value with
  | text u =>
    rw [hv, Scalar.isText_text, beq_iff_eq] at hs
    subst hs
    rw [Token.is, hv, Scalar.isText_text]
    rfl
  | _ => simp [hv, Scalar.isText] at hs

/-- A token that is one of some words is none of the others. -/
theorem not_is_of_mem {words : List (TokenKind × String)} (h : t.is k s) (hmem : (k, s) ∈ words)
    (hnot : (k', s') ∉ words) : t.is k' s' = false := by
  rw [is_of_is h]
  by_cases hks : k = k' ∧ s = s'
  · obtain ⟨rfl, rfl⟩ := hks
    exact (hnot hmem).elim
  · simpa using hks

theorem is_of_kind (h : t.kind = k') (hne : k' ≠ k) (s : String) : t.is k s = false := by
  rw [Token.is, h, beq_false_of_ne hne, Bool.false_and]

theorem isNewline_of_kind (h : t.kind = k) : t.isNewline = decide (k = .newline) := by
  rw [Token.isNewline, h]
  cases k <;> rfl

end Token

namespace Grammar

open Lumen.Parser (Nesting)

theorem Newlines.trans {ts us rest : List Token} (h : Newlines ts us) (h' : Newlines us rest) :
    Newlines ts rest := by
  induction h with
  | nil => exact h'
  | cons ht _ ih => exact .cons ht (ih h')

/-! ## Lengths -/

@[grind →] theorem Newlines.length_le {ts rest : List Token} (h : Newlines ts rest) :
    rest.length ≤ ts.length := by
  induction h with
  | nil => exact Nat.le_refl _
  | cons _ _ ih => exact Nat.le_succ_of_le ih

@[grind →] theorem MoreParameters.length_le {ts rest params : List Token}
    (h : MoreParameters ts rest params) : rest.length ≤ ts.length := by
  induction h with
  | nil => exact Nat.le_refl _
  | cons _ h₁ _ h₂ _ ih =>
    have h₁ := h₁.length_le
    have h₂ := h₂.length_le
    simp only [List.length_cons] at h₁ ⊢
    omega

@[grind →] theorem Parameters.length_le {ts rest params : List Token}
    (h : Parameters ts rest params) : rest.length ≤ ts.length := by
  cases h with
  | nil h => exact h.length_le
  | cons h₁ _ h₂ h₃ =>
    have h₁ := h₁.length_le
    have h₂ := h₂.length_le
    have h₃ := h₃.length_le
    simp only [List.length_cons] at h₁
    omega

@[grind →] theorem Named.length_le {ts rest : List Token} {name : Option Token}
    (h : Named ts rest name) : rest.length ≤ ts.length := by
  cases h with
  | none => exact Nat.le_refl _
  | some _ => exact Nat.le_succ _

def Phrase.isWhole : Phrase → Bool
  | .block | .body | .statement | .expression | .ternary | .level _ | .unary | .suffixed
  | .primary => true
  | _ => false

theorem Level.isWhole_operand (ℓ : Level) : ℓ.operand.isWhole = true := by
  cases ℓ <;> rfl

variable {r : Reading} {φ : Phrase} {n : Nesting} {ts rest : List Token} {y : Yield}

theorem Derives.length (h : Derives r φ n ts rest y) :
    rest.length ≤ ts.length ∧ (φ.isWhole → rest.length < ts.length) := by
  induction h <;> grind -ring -linarith [Phrase.isWhole, Level.isWhole_operand]

theorem Newlines.mem {t : Token} (h : Newlines ts rest) (ht : t ∈ rest) : t ∈ ts := by
  induction h with
  | nil => exact ht
  | cons _ _ ih => exact List.mem_cons_of_mem _ (ih ht)

theorem MoreParameters.mem {t : Token} {params : List Token} (h : MoreParameters ts rest params)
    (ht : t ∈ rest) : t ∈ ts := by
  induction h with
  | nil => exact ht
  | cons _ h₁ _ h₂ _ ih =>
    exact List.mem_cons_of_mem _ (h₁.mem (List.mem_cons_of_mem _ (h₂.mem (ih ht))))

theorem Parameters.mem {t : Token} {params : List Token} (h : Parameters ts rest params)
    (ht : t ∈ rest) : t ∈ ts := by
  cases h with
  | nil h => exact h.mem ht
  | cons h₁ _ h₂ h₃ => exact h₁.mem (List.mem_cons_of_mem _ (h₂.mem (h₃.mem ht)))

theorem Named.mem {t : Token} {name : Option Token} (h : Named ts rest name) (ht : t ∈ rest) :
    t ∈ ts := by
  cases h with
  | none => exact ht
  | some _ => exact List.mem_cons_of_mem _ ht

/-- The tokens behind a phrase are some of those that it started with. -/
theorem Derives.mem {t : Token} (h : Derives r φ n ts rest y) (ht : t ∈ rest) : t ∈ ts := by
  have cons {u : Token} {us : List Token} (h : t ∈ us) : t ∈ u :: us := List.mem_cons_of_mem u h
  induction h with
  | assignIndex _ _ h₁ _ h₂ _ _ _ ih₁ ih₂ =>
    exact cons (cons (h₁.mem (ih₁ (h₂.mem (cons (cons (ih₂ ht)))))))
  | slice _ h₁ _ h₂ _ h₃ _ h₄ _ _ ih₁ ih₂ ih₃ =>
    exact cons (h₁.mem (ih₁ (h₂.mem (cons (h₃.mem (ih₂ (h₄.mem (cons (ih₃ ht)))))))))
  | functionExpression _ h₁ _ h₂ _ _ _ ih =>
    exact cons (h₁.mem (cons (h₂.mem (cons (cons (ih ht))))))
  | _ => grind -ring -linarith [→ Newlines.mem, → Parameters.mem, → Named.mem]

/-! ## Brackets -/

theorem kind_of_joins {ℓ : Level} {t : Token} (h : ℓ.joins t) : t.kind = .operator := by
  obtain ⟨s, _, hs⟩ := List.any_eq_true.mp h
  exact Token.kind_of_is hs

theorem kind_of_isSign {t : Token} (h : isSign t) : t.kind = .operator := by
  obtain ⟨s, _, hs⟩ := List.any_eq_true.mp h
  exact Token.kind_of_is hs

theorem kind_of_isNewline {t : Token} (h : t.isNewline) : t.kind = .newline := eq_of_beq h

/-- The tokens from the bracket on that closes the `depth` open ones. Which bracket closes which is
told by their number alone. -/
def closingAt : (depth : Nat) → List Token → Option (List Token)
  | _, [] => none
  | depth, t :: ts =>
    if t.isOpening then closingAt (depth + 1) ts
    else if t.isClosing then if depth ≤ 1 then some (t :: ts) else closingAt (depth - 1) ts
    else closingAt depth ts

/-- The lookahead asks for what stands behind that bracket. -/
theorem assignsBehind_eq (d : Nat) (ts : List Token) : Parser.assignsBehind d ts =
    (closingAt d ts).any fun found => found.tail.head?.any (·.is .operator "=") := by
  induction ts generalizing d with
  | nil => rfl
  | cons t ts ih =>
    rw [Parser.assignsBehind, closingAt, ih, ih, ih]
    split
    · rfl
    · split
      · split <;> rfl
      · rfl

section

variable {t : Token} {d : Nat}

theorem isOpening_of_kind (h : t.kind ≠ .paren) : t.isOpening = false := by
  simp only [Token.isOpening, Token.is_of_kind rfl h, Bool.or_self]

theorem isClosing_of_kind (h : t.kind ≠ .paren) : t.isClosing = false := by
  simp only [Token.isClosing, Token.is_of_kind rfl h, Bool.or_self]

theorem closingAt_of_kind (h : t.kind ≠ .paren) : closingAt d (t :: ts) = closingAt d ts := by
  rw [closingAt, isOpening_of_kind h, isClosing_of_kind h]
  rfl

theorem closingAt_comma (h : t.is .paren ",") : closingAt d (t :: ts) = closingAt d ts := by
  simp [closingAt, Token.isOpening, Token.isClosing, Token.is_of_is h, Token.openBrace,
    Token.closeBrace]

theorem closingAt_opening (h : t.isOpening) : closingAt d (t :: ts) = closingAt (d + 1) ts := by
  rw [closingAt, if_pos h]

theorem not_isOpening_of_isClosing (h : t.isClosing) : t.isOpening = false := by
  simp only [Token.isClosing, Bool.or_eq_true] at h
  rcases h with (h | h) | h <;>
    simp [Token.isOpening, Token.is_of_is h, Token.openBrace, Token.closeBrace]

theorem closingAt_closing (h : t.isClosing) (hd : 0 < d) :
    closingAt (d + 1) (t :: ts) = closingAt d ts := by
  have hd' : ¬ d + 1 ≤ 1 := by omega
  rw [closingAt, not_isOpening_of_isClosing h, h, if_neg Bool.false_ne_true, if_pos rfl,
    if_neg hd', Nat.add_sub_cancel]

/-- The bracket that closes the last open one. -/
theorem closingAt_last (h : t.isClosing) : closingAt 1 (t :: ts) = some (t :: ts) := by
  rw [closingAt, not_isOpening_of_isClosing h, h]
  rfl

theorem assignsBehind_of_kind (h : t.kind ≠ .paren) :
    Parser.assignsBehind d (t :: ts) = Parser.assignsBehind d ts := by
  rw [assignsBehind_eq, assignsBehind_eq, closingAt_of_kind h]

theorem assignsBehind_opening (h : t.isOpening) :
    Parser.assignsBehind d (t :: ts) = Parser.assignsBehind (d + 1) ts := by
  rw [assignsBehind_eq, assignsBehind_eq, closingAt_opening h]

/-- Behind the bracket that closes the last open one. -/
theorem assignsBehind_last (h : t.isClosing) :
    Parser.assignsBehind 1 (t :: ts) = ts.head?.any (·.is .operator "=") := by
  rw [assignsBehind_eq, closingAt_last h]
  rfl

end

/-- The tokens from `ts` up to `rest` close the brackets that they open, and no others. -/
def Closed (ts rest : List Token) : Prop := ∀ d, 0 < d → closingAt d ts = closingAt d rest

theorem Newlines.closed (h : Newlines ts rest) : Closed ts rest := by
  intro d hd
  induction h with
  | nil => rfl
  | cons ht _ ih =>
    have hne := kind_of_isNewline ht
    rw [closingAt_of_kind (by simp [hne]), ih]

theorem MoreParameters.closed {params : List Token} (h : MoreParameters ts rest params) :
    Closed ts rest := by
  intro d hd
  induction h with
  | nil => rfl
  | cons hcomma h₁ ht h₂ _ ih =>
    rw [closingAt_comma hcomma, h₁.closed d hd, closingAt_of_kind (by simp [ht]), h₂.closed d hd,
      ih]

theorem Parameters.closed {params : List Token} (h : Parameters ts rest params) :
    Closed ts rest := by
  intro d hd
  cases h with
  | nil h => exact h.closed d hd
  | cons h₁ ht h₂ h₃ =>
    rw [h₁.closed d hd, closingAt_of_kind (by simp [ht]), h₂.closed d hd, h₃.closed d hd]

theorem Named.closed {name : Option Token} (h : Named ts rest name) : Closed ts rest := by
  intro d _
  cases h with
  | none => rfl
  | some ht => exact closingAt_of_kind (by simp [ht])

theorem Derives.closed (h : Derives r φ n ts rest y) : Closed ts rest := by
  induction h <;>
    grind -ring -linarith [Closed, kind_of_joins, kind_of_isSign, kind_of_isNewline,
      closingAt_of_kind, closingAt_comma, closingAt_opening, closingAt_closing,
      → Newlines.closed, → Parameters.closed, → Named.closed, Token.isOpening, Token.isClosing]

/-- Whatever is open in front of the tokens, the lookahead from `ts` and from `rest` agree. -/
def Balanced (ts rest : List Token) : Prop :=
  ∀ d, 0 < d → Parser.assignsBehind d ts = Parser.assignsBehind d rest

theorem Closed.balanced (h : Closed ts rest) : Balanced ts rest := by
  intro d hd
  rw [assignsBehind_eq, assignsBehind_eq, h d hd]

theorem Newlines.balanced (h : Newlines ts rest) : Balanced ts rest := h.closed.balanced

theorem Derives.balanced (h : Derives r φ n ts rest y) : Balanced ts rest := h.closed.balanced

/-! ## First tokens -/

def isLiteral (t : Token) : Bool := t.kind == .number || t.kind == .text || t.kind == .identifier

def Phrase.firstWords : Phrase → List (TokenKind × String)
  | .primary | .suffixed => primaryWords
  | .unary | .level _ | .ternary | .expression => signWords ++ primaryWords
  | .statement => statementWords ++ signWords ++ primaryWords
  | _ => []
where
  primaryWords := [(.keyword, "null"), (.keyword, "if"), (.keyword, "for"), (.keyword, "each"),
    (.keyword, "while"), (.keyword, "func"), (.paren, "("), (.paren, "[")]
  signWords := [(.operator, "-"), (.operator, "+"), (.operator, "not")]
  statementWords := [(.keyword, "return"), (.keyword, "break"), (.keyword, "continue")]

def Phrase.Opens (φ : Phrase) (t : Token) : Prop :=
  isLiteral t ∨ ∃ word ∈ φ.firstWords, t.is word.1 word.2

theorem Phrase.Opens.not_is {t : Token} (h : φ.Opens t) (k : TokenKind) (s : String)
    (hk : k ∉ [.number, .text, .identifier]) (hword : (k, s) ∉ φ.firstWords) :
    t.is k s = false := by
  simp only [List.mem_cons, List.not_mem_nil, or_false, not_or] at hk
  obtain ⟨hnumber, htext, hname⟩ := hk
  rcases h with h | ⟨word, hmem, hw⟩
  · simp only [isLiteral, Bool.or_eq_true, beq_iff_eq] at h
    rcases h with (h | h) | h
    · exact Token.is_of_kind h (Ne.symm hnumber) s
    · exact Token.is_of_kind h (Ne.symm htext) s
    · exact Token.is_of_kind h (Ne.symm hname) s
  · exact Token.not_is_of_mem hw hmem hword

theorem Phrase.Opens.kind_ne {t : Token} {k : TokenKind} (h : φ.Opens t)
    (hk : k = .newline ∨ k = .eof) : t.kind ≠ k := by
  intro hkind
  rcases h with h | ⟨word, hmem, hw⟩
  · rcases hk with rfl | rfl <;> simp [isLiteral, hkind] at h
  · have hword : ∀ word ∈ φ.firstWords, word.1 ≠ .newline ∧ word.1 ≠ .eof := by
      cases φ <;> simp only [Phrase.firstWords] <;> decide
    have hfirst := (Token.kind_of_is hw).symm.trans hkind
    rcases hk with rfl | rfl
    · exact (hword word hmem).1 hfirst
    · exact (hword word hmem).2 hfirst

theorem Phrase.Opens.not_isNewline {t : Token} (h : φ.Opens t) : t.isNewline = false :=
  beq_false_of_ne (h.kind_ne (.inl rfl))

theorem Phrase.Opens.of_subset {ψ : Phrase} {t : Token} (h : φ.Opens t)
    (hsub : φ.firstWords ⊆ ψ.firstWords) : ψ.Opens t := by
  rcases h with h | ⟨word, hmem, hw⟩
  · exact .inl h
  · exact .inr ⟨word, hsub hmem, hw⟩

theorem Level.opens_operand (ℓ : Level) {t : Token} (h : ℓ.operand.Opens t) :
    (Phrase.level ℓ).Opens t := by
  apply h.of_subset
  cases ℓ <;> exact fun _ hw => hw

theorem Phrase.opens_of_is {t : Token} {k : TokenKind} {s : String} (h : t.is k s)
    (hword : (k, s) ∈ φ.firstWords) : φ.Opens t := .inr ⟨(k, s), hword, h⟩

/-- Statements and expressions start with a token that tells them from what may stand before. -/
theorem Derives.opens (h : Derives r φ n ts rest y) (hφ : φ.firstWords ≠ []) :
    ∃ t ts', ts = t :: ts' ∧ φ.Opens t := by
  have head {φ : Phrase} {t : Token} {ts : List Token} (ht : φ.Opens t) :
      ∃ u us, t :: ts = u :: us ∧ φ.Opens u := ⟨t, ts, rfl, ht⟩
  have part {φ ψ : Phrase} {ts : List Token} (h : ∃ t ts', ts = t :: ts' ∧ φ.Opens t)
      (hsub : φ.firstWords ⊆ ψ.firstWords) : ∃ t ts', ts = t :: ts' ∧ ψ.Opens t := by
    obtain ⟨t, ts', he, ht⟩ := h
    exact ⟨t, ts', he, ht.of_subset hsub⟩
  induction h with
  | giveBackNothing ht | giveBack ht | breakLoop ht | continueLoop ht =>
    exact head (Phrase.opens_of_is ht (by decide))
  | null ht | parentheses ht | list ht | conditional ht | forLoop ht | eachLoop ht
  | whileLoop ht | functionBlock ht | functionExpression ht =>
    exact head (Phrase.opens_of_is ht (by decide))
  | number ht | text ht | lookup ht | assign ht | assignIndex ht =>
    exact head (.inl (by simp [isLiteral, ht]))
  | sign ht _ _ =>
    obtain ⟨s, hs, ht⟩ := List.any_eq_true.mp ht
    simp only [List.mem_cons, List.not_mem_nil, or_false] at hs
    rcases hs with rfl | rfl | rfl <;> exact head (Phrase.opens_of_is ht (by decide))
  | evaluate _ ih | ternary _ ih | unsigned _ ih => exact part (ih (by decide)) (by decide)
  | condition _ _ ih _ | target _ _ ih _ => exact part (ih (by decide)) (by decide)
  | @level r n ℓ ts ts₁ rest a e _ _ ih _ =>
    have hne : ℓ.operand.firstWords ≠ [] := by cases ℓ <;> decide
    obtain ⟨t, ts', he, ht⟩ := ih hne
    exact ⟨t, ts', he, ℓ.opens_operand ht⟩
  | _ => exact (hφ rfl).elim

/-! ## Phrases without tails -/

section

variable {e : Node}

theorem Reading.ends (hr : r ≠ .greedy) (τ : Tail) (ts : List Token) : r.Ends τ ts :=
  fun h => (hr h).elim

theorem Derives.level_of_operand (hr : r ≠ .greedy) (ℓ : Level)
    (h : Derives r ℓ.operand n ts rest (.node e)) : Derives r (.level ℓ) n ts rest (.node e) :=
  .level h (.endChain (r.ends hr _ _))

theorem Derives.level_of_primary (hr : r ≠ .greedy) (ℓ : Level)
    (h : Derives r .primary n ts rest (.node e)) : Derives r (.level ℓ) n ts rest (.node e) := by
  have hunary : Derives r .unary n ts rest (.node e) :=
    .unsigned (.target h (.endSuffixes (r.ends hr _ _)))
  have hpower := level_of_operand hr .power hunary
  have hmultiplicative := level_of_operand hr .multiplicative hpower
  have hadditive := level_of_operand hr .additive hmultiplicative
  have hrelational := level_of_operand hr .relational hadditive
  have hequality := level_of_operand hr .equality hrelational
  cases ℓ with
  | logical => exact level_of_operand hr .logical hequality
  | equality => exact hequality
  | relational => exact hrelational
  | additive => exact hadditive
  | multiplicative => exact hmultiplicative
  | power => exact hpower

theorem Derives.expression_of_level (hr : r ≠ .greedy)
    (h : Derives r (.level .logical) n ts rest (.node e)) :
    Derives r .expression n ts rest (.node e) :=
  .ternary (.condition h (.noChoice (r.ends hr _ _)))

theorem Derives.expression_of_primary (hr : r ≠ .greedy)
    (h : Derives r .primary n ts rest (.node e)) : Derives r .expression n ts rest (.node e) :=
  (h.level_of_primary hr .logical).expression_of_level hr

end

end Grammar

end Lumen
