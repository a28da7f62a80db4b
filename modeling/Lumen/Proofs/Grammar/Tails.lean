import Lumen.Proofs.Grammar.Shape

/-!
# Where tails may end

No token could carry on two different tails, so it is always clear which of the open phrases a token
belongs to if it is to belong to one. Before a token that carries on no tail at all every phrase
ends in the same place, however it is read.
-/

namespace Lumen.Grammar

variable {ts rest : List Token} {t : Token}

theorem Level.joins_iff (ℓ : Level) (t : Token) :
    ℓ.joins t ↔ ∃ s ∈ ℓ.operators, t.is .operator s := by
  rw [joins, List.any_eq_true]

/-- A token that is another word joins no operands. -/
theorem Level.not_joins (ℓ : Level) {k : TokenKind} {s : String} (h : t.is k s)
    (hs : k = .operator → s ∉ ℓ.operators) : ℓ.joins t = false := by
  rw [Bool.eq_false_iff]
  intro hj
  obtain ⟨s', hs', ht⟩ := (ℓ.joins_iff t).mp hj
  rw [Token.is_of_is h, Bool.and_eq_true, decide_eq_true_eq, decide_eq_true_eq] at ht
  obtain ⟨hk, rfl⟩ := ht
  exact hs hk hs'

theorem Level.operators_disjoint (ℓ ℓ' : Level) :
    ∀ s ∈ ℓ.operators, s ∈ ℓ'.operators → ℓ = ℓ' := by
  cases ℓ <;> cases ℓ' <;> decide

/-- What else a program writes as an operator joins no operands. -/
theorem Level.not_joins_sign (ℓ : Level) {s : String} (h : t.is .operator s)
    (hs : s ∈ ["?", ":", "="]) : ℓ.joins t = false := by
  apply ℓ.not_joins h
  intro _ hmem
  simp only [List.mem_cons, List.not_mem_nil, or_false] at hs
  rcases hs with rfl | rfl | rfl <;> revert hmem <;> cases ℓ <;> decide

/-- An operator has one level. -/
theorem Level.eq_of_joins {ℓ ℓ' : Level} (h : ℓ.joins t) (h' : ℓ'.joins t) : ℓ = ℓ' := by
  obtain ⟨s, hs, ht⟩ := (ℓ.joins_iff t).mp h
  obtain ⟨s', hs', ht'⟩ := (ℓ'.joins_iff t).mp h'
  rw [Token.is_of_is ht, Bool.and_eq_true, decide_eq_true_eq, decide_eq_true_eq] at ht'
  obtain ⟨-, rfl⟩ := ht'
  exact Level.operators_disjoint ℓ ℓ' s hs hs'

namespace Tail

theorem starts_chain {ℓ : Level} (h : ℓ.joins t) : (chain ℓ).starts (t :: ts) := h

theorem starts_choice (h : t.is .operator "?") : choice.starts (t :: ts) := h

theorem starts_suffixes (h : t.is .paren "(" ∨ t.is .paren "[") : suffixes.starts (t :: ts) := by
  rcases h with h | h <;> simp [starts, h]

end Tail

theorem Newlines.dropWhile (h : Newlines ts rest) :
    ts.dropWhile Token.isNewline = rest.dropWhile Token.isNewline := by
  induction h with
  | nil => rfl
  | cons ht _ ih => rw [List.dropWhile_cons_of_pos ht, ih]

theorem Newlines.starts_clauses (h : Newlines ts rest) :
    Tail.clauses.starts ts = Tail.clauses.starts rest := by
  rw [Tail.starts, Tail.starts, h.dropWhile]

theorem starts_clauses_cons (h : t.isNewline = false) :
    Tail.clauses.starts (t :: ts) = (t.is .keyword "elif" || t.is .keyword "else") := by
  rw [Tail.starts, List.dropWhile_cons_of_neg (by simp [h])]
  rfl

theorem Newlines.starts_clauses_of (h : Newlines ts (t :: rest))
    (ht : t.is .keyword "elif" ∨ t.is .keyword "else") : Tail.clauses.starts ts := by
  have hnewline : t.isNewline = false := by
    rcases ht with ht | ht <;> exact Token.isNewline_of_kind (Token.kind_of_is ht)
  rw [h.starts_clauses, starts_clauses_cons hnewline, Bool.or_eq_true]
  exact ht

def Tail.Accepts : Tail → Token → Prop
  | chain ℓ, t => ℓ.joins t
  | choice, t => t.is .operator "?"
  | suffixes, t => t.is .paren "(" ∨ t.is .paren "["
  | clauses, t => t.isNewline ∨ t.is .keyword "elif" ∨ t.is .keyword "else"

theorem Tail.accepts_of_starts {τ : Tail} (h : τ.starts (t :: ts)) : τ.Accepts t := by
  cases τ with
  | chain ℓ => exact h
  | choice => exact h
  | suffixes => simpa [starts, Accepts] using h
  | clauses =>
    cases ht : t.isNewline with
    | true => exact .inl ht
    | false =>
      rw [starts_clauses_cons ht, Bool.or_eq_true] at h
      exact .inr h

theorem Tail.eq_of_accepts {τ τ' : Tail} (h : τ.Accepts t) (h' : τ'.Accepts t) : τ = τ' := by
  have hchoice (ℓ : Level) (h : t.is .operator "?") : ℓ.joins t = false :=
    ℓ.not_joins_sign h (by decide)
  cases τ <;> cases τ' <;> simp only [Accepts] at h h' <;>
    grind -ring -linarith [kind_of_joins, kind_of_isNewline, Level.eq_of_joins]

/-- No tokens could carry on two tails. -/
theorem Tail.eq_of_starts {τ τ' : Tail} (h : τ.starts ts) (h' : τ'.starts ts) : τ = τ' := by
  cases ts with
  | nil => cases τ <;> simp [starts] at h
  | cons t ts => exact eq_of_accepts (accepts_of_starts h) (accepts_of_starts h')

/-- No tail could be carried on by the tokens. -/
def Barrier (ts : List Token) : Prop := ∀ τ : Tail, τ.starts ts = false

theorem barrier_nil : Barrier [] := by
  intro τ
  cases τ <;> rfl

theorem barrier_of_not_accepts (h : ∀ τ : Tail, ¬ τ.Accepts t) : Barrier (t :: ts) := by
  intro τ
  rw [Bool.eq_false_iff]
  exact fun hs => h τ (Tail.accepts_of_starts hs)

/-- The words that stand behind a phrase and carry on none of its tails. -/
def barrierWords : List (TokenKind × String) :=
  [(.paren, ")"), (.paren, "]"), (.paren, Token.openBrace), (.paren, Token.closeBrace),
    (.paren, ","), (.operator, ":"), (.operator, "="), (.keyword, "to"), (.keyword, "by")]

theorem not_accepts_of_is {k : TokenKind} {s : String} (h : t.is k s) (hw : (k, s) ∈ barrierWords)
    (τ : Tail) : ¬ τ.Accepts t := by
  have hnot (k' : TokenKind) (s' : String) (hw' : (k', s') ∉ barrierWords) :
      t.is k' s' = false := Token.not_is_of_mem h hw hw'
  have hnewline : t.isNewline = false := by
    rw [Token.isNewline_of_kind (Token.kind_of_is h)]
    revert hw
    cases k <;> simp [barrierWords]
  cases τ with
  | chain ℓ =>
    intro hj
    obtain ⟨s', hs', ht⟩ := (ℓ.joins_iff t).mp hj
    have hw' : ∀ s' ∈ ℓ.operators, (.operator, s') ∉ barrierWords := by cases ℓ <;> decide
    rw [hnot _ _ (hw' s' hs')] at ht
    exact Bool.false_ne_true ht
  | choice => simp [Tail.Accepts, hnot .operator "?" (by decide)]
  | suffixes =>
    simp [Tail.Accepts, hnot .paren "(" (by decide),
      hnot .paren "[" (by decide)]
  | clauses =>
    simp [Tail.Accepts, hnewline, hnot .keyword "elif" (by decide),
      hnot .keyword "else" (by decide)]

theorem barrier_of_is {k : TokenKind} {s : String} (h : t.is k s) (hw : (k, s) ∈ barrierWords) :
    Barrier (t :: ts) := barrier_of_not_accepts (not_accepts_of_is h hw)

/-- Behind a newline there could only be a further case. -/
theorem barrier_of_isNewline (ht : t.isNewline) (h : Tail.clauses.starts (t :: ts) = false) :
    Barrier (t :: ts) := by
  have hk := kind_of_isNewline ht
  intro τ
  cases τ with
  | clauses => exact h
  | chain ℓ =>
    rw [Bool.eq_false_iff]
    intro hj
    cases (kind_of_joins hj).symm.trans hk
  | choice => simp [Tail.starts, Token.is_of_kind hk]
  | suffixes => simp [Tail.starts, Token.is_of_kind hk]

/-- Newlines before a token that carries on no tail carry on none either. -/
theorem Newlines.barrier (h : Newlines ts rest) (hrest : Barrier rest) : Barrier ts := by
  cases h with
  | nil => exact hrest
  | @cons t ts rest ht h =>
    apply barrier_of_isNewline ht
    rw [Newlines.starts_clauses (.cons ht h)]
    exact hrest .clauses

/-- No statement carries on what stands behind newlines before it. -/
theorem barrier_of_opens {u : Token} {φ : Phrase} (ht : t.isNewline) (h : Newlines ts (u :: rest))
    (hu : φ.Opens u) (hφ : ∀ s ∈ ["elif", "else"], (.keyword, s) ∉ φ.firstWords) :
    Barrier (t :: ts) := by
  apply barrier_of_isNewline ht
  rw [Newlines.starts_clauses (.cons ht h), starts_clauses_cons hu.not_isNewline,
    hu.not_is _ _ (by decide) (hφ "elif" (by decide)),
    hu.not_is _ _ (by decide) (hφ "else" (by decide)), Bool.or_self]

/-! ## Expressions that end -/

/-- Nothing that belongs to an expression stands first. -/
def Quiet (ts : List Token) : Prop := ∀ τ : Tail, τ ≠ .clauses → τ.starts ts = false

section

variable {n : Parser.Nesting} {e : Node}

theorem Barrier.quiet (h : Barrier ts) : Quiet ts := fun τ _ => h τ

theorem quiet_of_is {k : TokenKind} {s : String} (h : t.is k s)
    (hw : (k, s) ∈ barrierWords ∨ (k, s) ∈ [(.keyword, "elif"), (.keyword, "else")]) :
    Quiet (t :: ts) := by
  rcases hw with hw | hw
  · exact (barrier_of_is h hw).quiet
  · have ht : Tail.clauses.starts (t :: ts) := by
      apply Newlines.starts_clauses_of .nil
      simp only [List.mem_cons, List.not_mem_nil, or_false, Prod.mk.injEq] at hw
      rcases hw with ⟨rfl, rfl⟩ | ⟨rfl, rfl⟩
      · exact .inl h
      · exact .inr h
    intro τ hτ
    rw [Bool.eq_false_iff]
    exact fun hs => hτ (Tail.eq_of_starts hs ht)

theorem ends_of_quiet (h : Quiet ts) {τ : Tail} (hτ : τ ≠ .clauses) :
    Reading.greedy.Ends τ ts := fun _ => h τ hτ

/-- Tokens that carry on one tail carry on no other. -/
theorem ends_of_starts_other {τ τ' : Tail} (h : τ.starts ts) (hne : τ' ≠ τ) :
    Reading.greedy.Ends τ' ts := by
  intro _
  rw [Bool.eq_false_iff]
  exact fun hs => hne (Tail.eq_of_starts hs h)

theorem Derives.operand_of_unary (ℓ : Level) (h : Derives .greedy .unary n ts rest (.node e))
    (hends : ∀ ℓ' ≠ ℓ, Reading.greedy.Ends (.chain ℓ') rest) :
    Derives .greedy ℓ.operand n ts rest (.node e) := by
  have climb (ℓ' : Level) (hne : ℓ' ≠ ℓ) (h : Derives .greedy ℓ'.operand n ts rest (.node e)) :
      Derives .greedy (.level ℓ') n ts rest (.node e) := .level h (.endChain (hends ℓ' hne))
  cases ℓ with
  | power => exact h
  | multiplicative => exact climb .power (by decide) h
  | additive => exact climb .multiplicative (by decide) (climb .power (by decide) h)
  | relational =>
    have h := climb .multiplicative (by decide) (climb .power (by decide) h)
    exact climb .additive (by decide) h
  | equality =>
    have h := climb .multiplicative (by decide) (climb .power (by decide) h)
    exact climb .relational (by decide) (climb .additive (by decide) h)
  | logical =>
    have h := climb .multiplicative (by decide) (climb .power (by decide) h)
    have h := climb .relational (by decide) (climb .additive (by decide) h)
    exact climb .equality (by decide) h

/-- The levels above one that has been derived are left without further operands. -/
theorem Derives.expression_of_greedy_level (ℓ : Level)
    (h : Derives .greedy (.level ℓ) n ts rest (.node e)) (hrest : Quiet rest) :
    Derives .greedy .expression n ts rest (.node e) := by
  have climb (ℓ' : Level) (h : Derives .greedy ℓ'.operand n ts rest (.node e)) :
      Derives .greedy (.level ℓ') n ts rest (.node e) :=
    .level h (.endChain (ends_of_quiet hrest (by simp)))
  have hlogical : Derives .greedy (.level .logical) n ts rest (.node e) := by
    cases ℓ with
    | logical => exact h
    | equality => exact climb .logical h
    | relational => exact climb .logical (climb .equality h)
    | additive => exact climb .logical (climb .equality (climb .relational h))
    | multiplicative =>
      exact climb .logical (climb .equality (climb .relational (climb .additive h)))
    | power =>
      have h := climb .relational (climb .additive (climb .multiplicative h))
      exact climb .logical (climb .equality h)
  exact .ternary (.condition hlogical (.noChoice (ends_of_quiet hrest (by simp))))

theorem Derives.expression_of_unary (h : Derives .greedy .unary n ts rest (.node e))
    (hrest : Quiet rest) : Derives .greedy .expression n ts rest (.node e) :=
  expression_of_greedy_level .power (.level h (.endChain (ends_of_quiet hrest (by simp)))) hrest

theorem Derives.unary_of_primary (h : Derives .greedy .primary n ts rest (.node e))
    (hrest : Reading.greedy.Ends .suffixes rest) : Derives .greedy .unary n ts rest (.node e) :=
  .unsigned (.target h (.endSuffixes hrest))

end

end Lumen.Grammar
