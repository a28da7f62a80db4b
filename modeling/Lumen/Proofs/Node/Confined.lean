import Lumen.Proofs.Parser.Soundness
import Lumen.Run

/-!
# Statements that stay inside

A node is confined if every `break` and `continue` that is no part of a function in it stands in a
loop of it, and every `return` in a function of it, as far as the nesting does not allow them. What
derives from the grammar is confined.
-/

namespace Lumen

open Lumen.Parser (Nesting)

/-- No signal leaves the node but those that the nesting allows. The body of a function may be
anything. -/
inductive Node.Confined : Nesting → Node → Prop where
  | number {n t} : Confined n (.number t)
  | text {n t} : Confined n (.text t)
  | null {n t} : Confined n (.null t)
  | list {n es p q} : (∀ e ∈ es, Confined n e) → Confined n (.list es p q)
  | block {n ss p q} : (∀ s ∈ ss, Confined n s) → Confined n (.block ss p q)
  | ternary {n c a b} : Confined n c → Confined n a → Confined n b →
      Confined n (.ternary c a b)
  | binary {n a op b} : Confined n a → Confined n b → Confined n (.binary a op b)
  | unary {n op e} : Confined n e → Confined n (.unary op e)
  | lookup {n t} : Confined n (.lookup t)
  | assign {n t e} : Confined n e → Confined n (.assign t e)
  | index {n e i j q} : Confined n e → Confined n i → (∀ e ∈ j, Confined n e) →
      Confined n (.index e i j q)
  | assignIndex {n t i e} : Confined n i → Confined n e → Confined n (.assignIndex t i e)
  | conditional {n cases otherwise p q} :
      (∀ g ∈ cases, Confined n g.1) → (∀ g ∈ cases, Confined n g.2) →
      (∀ e ∈ otherwise, Confined n e) → Confined n (.conditional cases otherwise p q)
  | forLoop {n t a b step body p q} : Confined n a → Confined n b → (∀ e ∈ step, Confined n e) →
      Confined n.loopBody body → Confined n (.forLoop t a b step body p q)
  | eachLoop {n t e body p q} : Confined n e → Confined n.loopBody body →
      Confined n (.eachLoop t e body p q)
  | whileLoop {n c body p q} : Confined n c → Confined n.loopBody body →
      Confined n (.whileLoop c body p q)
  | breakLoop {n t} : n.inLoop → Confined n (.breakLoop t)
  | continueLoop {n t} : n.inLoop → Confined n (.continueLoop t)
  | function {n name params body isExpression p q} :
      Confined n (.function name params body isExpression p q)
  | call {n e args q} : Confined n e → (∀ e ∈ args, Confined n e) → Confined n (.call e args q)
  | giveBack {n value p q} : n.inFunction → (∀ e ∈ value, Confined n e) →
      Confined n (.giveBack value p q)

namespace Grammar

def Yield.Confined (n : Nesting) : Yield → Prop
  | .node e => e.Confined n
  | .nodes es => ∀ e ∈ es, Node.Confined n e
  | .optional value => ∀ e ∈ value, Node.Confined n e
  | .clauses cases otherwise =>
    (∀ g ∈ cases, Node.Confined n g.1 ∧ Node.Confined n g.2) ∧ ∀ e ∈ otherwise, Node.Confined n e

def Phrase.Confined (n : Nesting) : Phrase → Prop
  | .chain _ e | .choice e | .suffixes e => Node.Confined n e
  | _ => True

theorem Level.confined_operand (ℓ : Level) (n : Nesting) : ℓ.operand.Confined n := by
  cases ℓ <;> trivial

theorem confined_none {n : Nesting} : ∀ e ∈ (none : Option Node), e.Confined n :=
  fun _ he => nomatch he

theorem confined_some {n : Nesting} {e : Node} (h : e.Confined n) :
    ∀ f ∈ some e, f.Confined n := by
  intro f hf
  exact Option.some.inj hf ▸ h

theorem confined_cons {n : Nesting} {e : Node} {es : List Node} (h : e.Confined n)
    (hes : ∀ f ∈ es, f.Confined n) : ∀ f ∈ e :: es, f.Confined n := by
  intro f hf
  rcases List.mem_cons.mp hf with rfl | hf
  · exact h
  · exact hes f hf

/-- What derives from a phrase is confined as the nesting of the phrase says. -/
theorem Derives.confined {r : Reading} {φ : Phrase} {n : Nesting} {ts rest : List Token}
    {y : Yield} (h : Derives r φ n ts rest y) (hφ : φ.Confined n) : y.Confined n := by
  induction h with
  | noStatements | lastStatement | noArguments | lastArgument => exact fun e he => nomatch he
  | statements _ _ ih₁ ih₂ => exact confined_cons (ih₁ trivial) (ih₂ trivial)
  | moreStatements _ _ _ _ ih₁ ih₂ => exact confined_cons (ih₁ trivial) (ih₂ trivial)
  | arguments _ _ _ _ ih₁ ih₂ => exact confined_cons (ih₁ trivial) (ih₂ trivial)
  | moreArguments _ _ _ _ _ ih₁ ih₂ => exact confined_cons (ih₁ trivial) (ih₂ trivial)
  | block _ _ _ _ _ ih => exact .block (ih trivial)
  | blockBody _ ih | statementBody _ _ ih | evaluate _ ih | ternary _ ih | unsigned _ ih =>
    exact ih trivial
  | giveBackNothing _ hn _ => exact .giveBack hn confined_none
  | giveBack _ hn _ ih => exact .giveBack hn (confined_some (ih trivial))
  | breakLoop _ hn => exact .breakLoop hn
  | continueLoop _ hn => exact .continueLoop hn
  | assign _ _ _ ih => exact .assign (ih trivial)
  | assignIndex _ _ _ _ _ _ _ _ ih₁ ih₂ => exact .assignIndex (ih₁ trivial) (ih₂ trivial)
  | condition _ _ ih₁ ih₂ => exact ih₂ (ih₁ trivial)
  | noChoice _ | endChain _ | endSuffixes _ => exact hφ
  | choice _ _ _ _ ih₁ ih₂ => exact .ternary hφ (ih₁ trivial) (ih₂ trivial)
  | level _ _ ih₁ ih₂ => exact ih₂ (ih₁ (Level.confined_operand _ _))
  | chain _ _ _ ih₁ ih₂ => exact ih₂ (.binary hφ (ih₁ (Level.confined_operand _ _)))
  | sign _ _ ih => exact .unary (ih trivial)
  | target _ _ ih₁ ih₂ => exact ih₂ (ih₁ trivial)
  | call _ _ _ _ ih₁ ih₂ => exact ih₂ (.call hφ (ih₁ trivial))
  | index _ _ _ _ _ _ ih₁ ih₂ => exact ih₂ (.index hφ (ih₁ trivial) confined_none)
  | slice _ _ _ _ _ _ _ _ _ _ ih₁ ih₂ ih₃ =>
    exact ih₃ (.index hφ (ih₁ trivial) (confined_some (ih₂ trivial)))
  | number _ => exact .number
  | text _ => exact .text
  | null _ => exact .null
  | lookup _ => exact .lookup
  | parentheses _ _ _ _ _ ih => exact ih trivial
  | list _ _ _ ih => exact .list (ih trivial)
  | conditional _ _ _ _ ih₁ ih₂ ih₃ =>
    obtain ⟨hcases, hotherwise⟩ := ih₃ trivial
    refine .conditional (fun g hg => ?_) (fun g hg => ?_) hotherwise
    · rcases List.mem_cons.mp hg with rfl | hg
      · exact ih₁ trivial
      · exact (hcases g hg).1
    · rcases List.mem_cons.mp hg with rfl | hg
      · exact ih₂ trivial
      · exact (hcases g hg).2
  | endClauses _ => exact ⟨fun g hg => (List.not_mem_nil hg).elim, confined_none⟩
  | elseIf _ _ _ _ _ ih₁ ih₂ ih₃ =>
    obtain ⟨hcases, hotherwise⟩ := ih₃ trivial
    refine ⟨fun g hg => ?_, hotherwise⟩
    rcases List.mem_cons.mp hg with rfl | hg
    · exact ⟨ih₁ trivial, ih₂ trivial⟩
    · exact hcases g hg
  | otherwise _ _ _ ih =>
    exact ⟨fun g hg => (List.not_mem_nil hg).elim, confined_some (ih trivial)⟩
  | forLoop _ _ _ _ _ _ _ _ ih₁ ih₂ ih₃ ih₄ =>
    exact .forLoop (ih₁ trivial) (ih₂ trivial) (ih₃ trivial) (ih₄ trivial)
  | noStep => exact confined_none
  | step _ _ ih => exact confined_some (ih trivial)
  | eachLoop _ _ _ _ _ ih₁ ih₂ => exact .eachLoop (ih₁ trivial) (ih₂ trivial)
  | whileLoop _ _ _ ih₁ ih₂ => exact .whileLoop (ih₁ trivial) (ih₂ trivial)
  | functionBlock | functionExpression => exact .function

end Grammar

/-! ## What the parser accepts -/

theorem TokenStream.kind_eof_ofSource {source file : String} {s : TokenStream}
    (h : TokenStream.ofSource source file = .ok s) : s.eof.kind = .eof := by
  unfold TokenStream.ofSource at h
  cases hscan : scan (Position.first file) source.toList with
  | error d => rw [hscan] at h; cases h
  | ok r =>
    rw [hscan] at h
    obtain rfl := Except.ok.inj h
    rfl

namespace Parser

/-- The rules that return one node. -/
inductive NodeRule where
  | statement | block | body | expression | ternary
  | level (ℓ : Grammar.Level)
  | unary | primary | conditional | forLoop | eachLoop | whileLoop | function

def NodeRule.parse (eof : Token) (rules : Rules) (n : Nesting) : NodeRule → Parser Node
  | statement => Parser.statement eof rules n
  | block => Parser.block eof rules n
  | body => Parser.body eof rules n
  | expression => Parser.expression eof rules n
  | ternary => Parser.ternary eof rules n
  | level ℓ => binary eof rules n (operatorsFrom ℓ)
  | unary => Parser.unary eof rules n
  | primary => Parser.primary eof rules n
  | conditional => Parser.conditional eof rules n
  | forLoop => Parser.forLoop eof rules n
  | eachLoop => Parser.eachLoop eof rules n
  | whileLoop => Parser.whileLoop eof rules n
  | function => Parser.function eof rules

variable {eof : Token} {rules : Rules} {n : Nesting} {ts : List Token}

theorem ensures_confined (heof : eof.kind = .eof) (hrules : Sound rules) (rule : NodeRule) :
    Ensures (rule.parse eof rules n) ts fun e _ => e.Confined n := by
  cases rule with
  | statement => exact (ensures_statement heof hrules).mono fun _ _ h => h.confined trivial
  | block => exact (ensures_block heof hrules).mono fun _ _ h => h.confined trivial
  | body => exact (ensures_body heof hrules).mono fun _ _ h => h.confined trivial
  | expression => exact (ensures_expression heof hrules).mono fun _ _ h => h.confined trivial
  | ternary => exact (ensures_ternary heof hrules).mono fun _ _ h => h.confined trivial
  | level ℓ => exact (ensures_binary heof hrules ℓ ts).mono fun _ _ h => h.confined trivial
  | unary => exact (ensures_unary heof hrules).mono fun _ _ h => h.confined trivial
  | primary => exact (ensures_primary heof hrules).mono fun _ _ h => h.confined trivial
  | conditional => exact (ensures_conditional heof hrules).mono fun _ _ h => h.confined trivial
  | forLoop => exact (ensures_forLoop heof hrules).mono fun _ _ h => h.confined trivial
  | eachLoop => exact (ensures_eachLoop heof hrules).mono fun _ _ h => h.confined trivial
  | whileLoop => exact (ensures_whileLoop heof hrules).mono fun _ _ h => h.confined trivial
  | function => exact (ensures_function heof hrules).mono fun _ _ h => h.confined trivial

end Parser

theorem Node.confined_ofSource {limits : Limits} {source file : String} {program : Node}
    (h : Node.ofSource limits source file = .ok program) : program.Confined .program := by
  unfold Node.ofSource at h
  cases hs : TokenStream.ofSource source file with
  | error d => rw [hs] at h; cases h
  | ok s =>
    rw [hs] at h
    have heof := TokenStream.kind_eof_ofSource hs
    obtain ⟨rest, hrun⟩ := Parser.run_of_ofTokens h
    have hprogram : Parser.Ensures (Parser.program s.eof (Parser.Rules.upTo s.eof limits.nesting))
        s.tokens fun block _ => block.Confined .program := by
      refine Parser.Ensures.bind (Parser.ensures_peek ?_)
      have hrules := Parser.sound_upTo heof limits.nesting
      refine Parser.Ensures.bind ((Parser.ensures_statementList heof hrules).mono ?_)
      rintro ss rest ⟨ts₁, ts₂, -, hss, -⟩
      exact Parser.Ensures.pure (.block (hss.confined trivial))
    exact hprogram _ _ hrun

end Lumen
