import Lumen.Run

/-!
# Parsing with more nesting allowed

A parser that may nest less is cut off where the text is nested too deep, and otherwise takes the
same tokens and comes to the same end. No rule catches the failure, so there is one lemma for each
rule, given the same of what parses nested phrases.
-/

namespace Lumen

namespace Parser

variable {α β : Type} {eof : Token} {rules rules' : Rules} {n : Nesting}

/-- `x` ends as `y` does unless it finds the tokens nested too deep. -/
def CutOff (x y : Parser α) : Prop := ∀ ts, GivesUp x ts ∨ x.run ts = y.run ts

namespace CutOff

variable {x x' y y' : Parser α}

theorem refl (x : Parser α) : CutOff x x := fun _ => .inr rfl

theorem giveUp : CutOff (Parser.giveUp eof) y := fun _ => .inl ⟨_, rfl⟩

theorem bind {f f' : α → Parser β} (hx : CutOff x x') (hf : ∀ a, CutOff (f a) (f' a)) :
    CutOff (x >>= f) (x' >>= f') := by
  intro ts
  rcases hx ts with hx | hx
  · exact .inl hx.bind
  · rw [GivesUp, StateT.run_bind, StateT.run_bind, ← hx]
    cases x.run ts with
    | error e => exact .inr rfl
    | ok r => exact hf r.1 r.2

/-- What is parsed first is no nested phrase. -/
theorem next {f f' : α → Parser β} (hf : ∀ a, CutOff (f a) (f' a)) :
    CutOff (x >>= f) (x >>= f') := (refl x).bind hf

/-- What is left to do parses nothing. -/
theorem last {f : α → Parser β} (hx : CutOff x x') : CutOff (x >>= f) (x' >>= f) :=
  hx.bind fun _ => refl _

theorem ite {c : Prop} [Decidable c] (hx : CutOff x x') (hy : CutOff y y') :
    CutOff (if c then x else y) (if c then x' else y') := by
  split
  · exact hx
  · exact hy

/-- Both ways go on in the same manner. -/
theorem joined {γ : Type} {c : Prop} [Decidable c] {x₀ : Parser β} {y₀ : Parser γ}
    (hx : CutOff x x') :
    CutOff (if c then x₀ >>= fun _ => x else y₀ >>= fun _ => x)
      (if c then x₀ >>= fun _ => x' else y₀ >>= fun _ => x') :=
  ite (next fun _ => hx) (next fun _ => hx)

end CutOff

/-- The nested phrases are cut off, if anything is. -/
structure Rules.CutOff (rules rules' : Rules) : Prop where
  expression : ∀ n, Parser.CutOff (rules.expression n) (rules'.expression n)
  unary : ∀ n, Parser.CutOff (rules.unary n) (rules'.unary n)

theorem cutOff_statements {statement statement' : Parser Node} (h : CutOff statement statement')
    (close : Option String) (fuel : List Token) :
    CutOff (statements eof statement close fuel) (statements eof statement' close fuel) := by
  induction fuel with
  | nil => exact .refl _
  | cons _ fuel ih =>
    refine .next fun closed => .next fun atEnd => .ite (.refl _) (h.bind fun first => ?_)
    refine .next fun newline => .next fun closed => .ite ?_ ?_
    · exact .next fun _ => ih.last
    · exact .next fun _ => .next fun _ => ih.last

theorem cutOff_chain {operand operand' : Parser Node} (h : CutOff operand operand')
    (ops : List String) (fuel : List Token) (left : Node) :
    CutOff (chain eof operand ops fuel left) (chain eof operand' ops fuel left) := by
  induction fuel generalizing left with
  | nil => exact .refl _
  | cons _ fuel ih =>
    exact .next fun t => .ite (.next fun op => h.bind fun right => ih _) (.refl _)

section

variable (h : rules.CutOff rules')
include h

/-! ## Statements -/

theorem cutOff_statement : CutOff (statement eof rules n) (statement eof rules' n) := by
  refine .next fun t => .ite (.ite (.next fun _ => ?_) ?_) (.ite (.refl _) (.ite (.refl _) ?_))
  · exact .next fun _ => .next fun _ => .ite (.refl _) (h.expression n).last
  · exact .next fun _ => .next fun _ => .ite (.refl _) (h.expression n).last
  · exact h.expression n

theorem cutOff_statementList (close : Option String) :
    CutOff (statementList eof rules n close) (statementList eof rules' n close) :=
  .next fun _ => .next fun fuel => cutOff_statements (cutOff_statement h) close fuel

theorem cutOff_block : CutOff (block eof rules n) (block eof rules' n) :=
  .next fun _ => (cutOff_statementList h _).last

theorem cutOff_body : CutOff (body eof rules n) (body eof rules' n) := by
  refine .next fun _ => .ite (cutOff_block h) (.next fun _ => .ite ?_ (.refl _))
  exact .next fun _ => cutOff_statement h

/-! ## Expressions -/

theorem cutOff_binary (tighter : List (List String)) :
    CutOff (binary eof rules n tighter) (binary eof rules' n tighter) := by
  induction tighter with
  | nil => exact h.unary n
  | cons ops tighter ih =>
    exact ih.bind fun first => .next fun fuel => cutOff_chain ih ops fuel first

theorem cutOff_ternary : CutOff (ternary eof rules n) (ternary eof rules' n) := by
  refine (cutOff_binary h levels).bind fun condition => .next fun _ => .ite ?_ (.refl _)
  refine .next fun _ => (h.expression n).bind fun left => .next fun _ => ?_
  exact (h.expression n).last

theorem cutOff_bracketed : CutOff (bracketed rules n) (bracketed rules' n) :=
  .next fun _ => (h.expression n).last

theorem cutOff_expression : CutOff (expression eof rules n) (expression eof rules' n) := by
  refine .next fun ts => ?_
  split
  · refine .ite (.next fun _ => (h.expression n).last) (.ite ?_ (cutOff_ternary h))
    refine .next fun _ => (cutOff_bracketed h).bind fun index => .next fun _ => .next fun _ => ?_
    exact (h.expression n).last
  · exact cutOff_ternary h

theorem cutOff_moreArguments (fuel : List Token) :
    CutOff (moreArguments eof rules n fuel) (moreArguments eof rules' n fuel) := by
  induction fuel with
  | nil => exact .refl _
  | cons _ fuel ih =>
    refine .next fun _ => .ite (.next fun _ => ?_) (.refl _)
    exact (cutOff_bracketed h).bind fun e => ih.last

theorem cutOff_arguments (close : String) :
    CutOff (arguments eof rules n close) (arguments eof rules' n close) := by
  refine .next fun _ => .next fun _ => .ite (.refl _) ?_
  exact (cutOff_bracketed h).bind fun first => .next fun fuel => (cutOff_moreArguments h fuel).last

theorem cutOff_postfixes (fuel : List Token) (node : Node) :
    CutOff (postfixes eof rules n fuel node) (postfixes eof rules' n fuel node) := by
  induction fuel generalizing node with
  | nil => exact .refl _
  | cons _ fuel ih =>
    refine .next fun _ => .ite ?_ (.next fun _ => .ite ?_ (.refl _))
    · refine .next fun _ => (cutOff_arguments h ")").bind fun args => .next fun closing => ?_
      exact ih _
    · refine .next fun _ => (cutOff_bracketed h).bind fun index => .next fun _ => .ite ?_ ?_
      · exact .next fun _ => (cutOff_bracketed h).bind fun upTo => .next fun closing => ih _
      · exact .next fun closing => ih _

/-! ## Phrases that stand for themselves -/

theorem cutOff_moreCases (fuel : List Token) :
    CutOff (moreCases eof rules n fuel) (moreCases eof rules' n fuel) := by
  induction fuel with
  | nil => exact .refl _
  | cons _ fuel ih =>
    refine .next fun ts => .ite ?_ (.ite ?_ (.refl _))
    · refine .next fun _ => .next fun _ => (h.expression n).bind fun condition => ?_
      exact (cutOff_body h).bind fun guarded => ih.last
    · exact .next fun _ => .next fun _ => (cutOff_body h).last

theorem cutOff_conditional : CutOff (conditional eof rules n) (conditional eof rules' n) := by
  refine .next fun word => (h.expression n).bind fun condition => ?_
  refine (cutOff_body h).bind fun guarded => .next fun fuel => ?_
  exact (cutOff_moreCases h fuel).last

theorem cutOff_forLoop : CutOff (forLoop eof rules n) (forLoop eof rules' n) := by
  refine .next fun word => .next fun name => .next fun _ => (h.expression n).bind fun first => ?_
  refine .next fun _ => .next fun _ => .joined ((h.expression n).bind fun last => ?_)
  refine .next fun _ => .ite ?_ (cutOff_body h).last
  exact .next fun _ => (h.expression n).bind fun step => (cutOff_body h).last

theorem cutOff_eachLoop : CutOff (eachLoop eof rules n) (eachLoop eof rules' n) := by
  refine .next fun word => .next fun name => .next fun _ => (h.expression n).bind fun iterable => ?_
  exact (cutOff_body h).last

theorem cutOff_whileLoop : CutOff (whileLoop eof rules n) (whileLoop eof rules' n) :=
  .next fun _ => (h.expression n).bind fun _ => (cutOff_body h).last

theorem cutOff_function : CutOff (function eof rules) (function eof rules') := by
  refine .next fun word => .next fun named => .ite (.next fun name => ?_) ?_
  all_goals
    refine .next fun params => .next fun _ => .ite ?_ (.next fun _ => .ite ?_ (.refl _))
    · exact .next fun _ => (h.expression .functionBody).last
    · exact (cutOff_block h).last

theorem cutOff_primary : CutOff (primary eof rules n) (primary eof rules' n) := by
  refine .next fun t => .ite (.refl _) (.ite (.refl _) (.ite (.refl _) (.ite (.refl _) ?_)))
  refine .ite (cutOff_conditional h) (.ite (cutOff_forLoop h) (.ite (cutOff_eachLoop h) ?_))
  refine .ite (cutOff_whileLoop h) (.ite (cutOff_function h) (.ite ?_ (.ite ?_ (.refl _))))
  · exact .next fun _ => (cutOff_bracketed h).last
  · exact .next fun _ => (cutOff_arguments h "]").last

theorem cutOff_unary : CutOff (unary eof rules n) (unary eof rules' n) := by
  refine .next fun t => .ite (.next fun op => (h.unary n).last) ?_
  exact (cutOff_primary h).bind fun node => .next fun fuel => cutOff_postfixes h fuel node

theorem cutOff_program : CutOff (program eof rules) (program eof rules') :=
  .next fun _ => (cutOff_statementList h none).last

end

/-! ## Whole programs -/

theorem cutOff_upTo (eof : Token) {depth depth' : Nat} (hle : depth ≤ depth') :
    (Rules.upTo eof depth).CutOff (Rules.upTo eof depth') := by
  -- The induction is on what may nest less; what may nest more is opened as often.
  induction depth generalizing depth' with
  | zero => exact ⟨fun _ => .giveUp, fun _ => .giveUp⟩
  | succ depth ih =>
    obtain ⟨depth', rfl⟩ := Nat.exists_eq_add_of_le' (Nat.zero_lt_of_lt hle)
    have ih := ih (Nat.le_of_succ_le_succ hle)
    exact ⟨fun _ => cutOff_expression ih, fun _ => cutOff_unary ih⟩

end Parser

namespace Node

/-- A program that is not nested too deep is the same one, or refused alike, where more nesting is
allowed. -/
theorem ofTokens_of_le {depth depth' : Nat} (hle : depth ≤ depth') {s : TokenStream}
    (h : ¬ TooDeep (ofTokens depth s)) :
    ofTokens depth' s = ofTokens depth s := by
  have hrules := Parser.cutOff_upTo s.eof hle
  unfold ofTokens at h ⊢
  rcases Parser.cutOff_program hrules s.tokens with ⟨span, hdeep⟩ | hsame
  · rw [hdeep] at h
    exact (h ⟨span, rfl⟩).elim
  · rw [hsame]

theorem ofSource_of_le {limits limits' : Limits} (hle : limits.nesting ≤ limits'.nesting)
    {source file : String}
    (h : ¬ TooDeep (ofSource limits source file)) :
    ofSource limits' source file = ofSource limits source file := by
  have hbind (limits : Limits) : ofSource limits source file =
      (TokenStream.ofSource source file).bind (ofTokens limits.nesting) := rfl
  rw [hbind limits] at h
  rw [hbind limits, hbind limits']
  cases hs : TokenStream.ofSource source file with
  -- Both are the same refusal; `rfl` would compare the two parsers first.
  | error d => simp only [Except.bind]
  | ok s =>
    rw [hs] at h
    exact ofTokens_of_le hle h

end Node

end Lumen
