import Lumen.Node.Parser

/-!
# The grammar of programs

Which tokens make a program, and the tree that they make. `Derives` relates the tokens in front of
a phrase to those behind it and to what the phrase yields, one constructor for each alternative of
the grammar. Several phrases may end although the next token could carry them on; a reading says
which of their derivations count.
-/

namespace Lumen.Grammar

open Lumen.Parser (Nesting)

/-- The levels of binary operators, from the loosest to the tightest. -/
inductive Level where
  | logical | equality | relational | additive | multiplicative | power
deriving DecidableEq, Repr

namespace Level

def operators : Level → List String
  | logical => ["and", "or"]
  | equality => ["==", "!="]
  | relational => ["<", ">", "<=", ">="]
  | additive => ["+", "-"]
  | multiplicative => ["*", "/", "%"]
  | power => ["^"]

def joins (ℓ : Level) (t : Token) : Bool := ℓ.operators.any (t.is .operator ·)

end Level

def isSign (t : Token) : Bool := ["-", "+", "not"].any (t.is .operator ·)

/-- The parts of a phrase that may be left out at its end. -/
inductive Tail where
  /-- Further operands of a level. -/
  | chain (ℓ : Level)
  /-- The two branches behind a condition. -/
  | choice
  /-- Calls and index reads. -/
  | suffixes
  /-- Further cases of a conditional. -/
  | clauses
deriving DecidableEq, Repr

def Tail.starts (τ : Tail) (ts : List Token) : Bool :=
  match τ with
  | chain ℓ => ts.head?.any ℓ.joins
  | choice => ts.head?.any (·.is .operator "?")
  | suffixes => ts.head?.any fun t => t.is .paren "(" || t.is .paren "["
  | clauses =>
    (ts.dropWhile Token.isNewline).head?.any fun t => t.is .keyword "elif" || t.is .keyword "else"

/-- Behind a `return` without a value: the statement or the whole text ends. -/
def endsStatement (ts : List Token) : Bool :=
  ts.head?.all fun t => t.isNewline || t.kind == .eof || t.is .paren Token.closeBrace ||
    t.is .keyword "elif" || t.is .keyword "else"

/-- Which derivations count. -/
inductive Reading where
  /-- All of them. -/
  | free
  /-- A `return` has no value only where its statement ends, and the expression of a function that
  stands in a loop is read greedily. -/
  | natural
  /-- Every tail is as long as it can be. -/
  | greedy
deriving DecidableEq, Repr

namespace Reading

def Ends (r : Reading) (τ : Tail) (ts : List Token) : Prop := r = greedy → τ.starts ts = false

def Returns (r : Reading) (ts : List Token) : Prop := r = free ∨ endsStatement ts

/-- How the expression of a function is read that stands where `n` says. -/
def within (r : Reading) (n : Nesting) : Reading :=
  if r = natural ∧ n.inLoop then greedy else r

end Reading

inductive Phrase where
  | statements
  /-- Statements behind newlines. -/
  | moreStatements
  | block | body | statement | expression | ternary
  | level (ℓ : Level)
  /-- The tail of the level behind its first operands. -/
  | chain (ℓ : Level) (left : Node)
  | choice (condition : Node)
  | unary
  /-- A phrase that stands for itself with calls and index reads behind it. -/
  | suffixed
  | suffixes (target : Node)
  | primary | arguments
  /-- Arguments behind commas. -/
  | moreArguments
  | clauses
  /-- The step of a counting loop, if there is one. -/
  | step

def Level.operand : Level → Phrase
  | logical => .level equality
  | equality => .level relational
  | relational => .level additive
  | additive => .level multiplicative
  | multiplicative => .level power
  | power => .unary

/-- What a phrase yields. -/
inductive Yield where
  | node (n : Node)
  | nodes (ns : List Node)
  | optional (n : Option Node)
  | clauses (cases : List (Node × Node)) (otherwise : Option Node)

/-- Any number of newlines. -/
inductive Newlines : List Token → List Token → Prop where
  | nil {ts} : Newlines ts ts
  | cons {t ts rest} : t.isNewline → Newlines ts rest → Newlines (t :: ts) rest

/-- Names with commas between them. -/
inductive MoreParameters : List Token → List Token → List Token → Prop where
  | nil {ts} : MoreParameters ts ts []
  | cons {comma t ts₁ ts₂ ts₃ rest params} : comma.is .paren "," → Newlines ts₁ (t :: ts₂) →
      t.kind = .identifier → Newlines ts₂ ts₃ → MoreParameters ts₃ rest params →
      MoreParameters (comma :: ts₁) rest (t :: params)

inductive Parameters : List Token → List Token → List Token → Prop where
  | nil {ts rest} : Newlines ts rest → Parameters ts rest []
  | cons {t ts ts₁ ts₂ rest params} : Newlines ts (t :: ts₁) → t.kind = .identifier →
      Newlines ts₁ ts₂ → MoreParameters ts₂ rest params → Parameters ts rest (t :: params)

/-- A name, if there is one. -/
inductive Named : List Token → List Token → Option Token → Prop where
  | none {ts} : Named ts ts none
  | some {t ts} : t.kind = .identifier → Named (t :: ts) ts (some t)

def lastBody (guarded : Node) (cases : List (Node × Node)) (otherwise : Option Node) : Node :=
  otherwise.getD ((cases.getLast?.map Prod.snd).getD guarded)

/-- The phrase leads from the tokens `ts` to the tokens `rest` and yields `y`. -/
inductive Derives : Reading → Phrase → Nesting → (ts rest : List Token) → (y : Yield) → Prop where
  -- Statements
  | noStatements {r n ts} : Derives r .statements n ts ts (.nodes [])
  | statements {r n ts ts₁ rest s ss} : Derives r .statement n ts ts₁ (.node s) →
      Derives r .moreStatements n ts₁ rest (.nodes ss) →
      Derives r .statements n ts rest (.nodes (s :: ss))
  | lastStatement {r n ts} : Derives r .moreStatements n ts ts (.nodes [])
  | moreStatements {r n t ts ts₁ ts₂ rest s ss} : t.isNewline → Newlines ts ts₁ →
      Derives r .statement n ts₁ ts₂ (.node s) →
      Derives r .moreStatements n ts₂ rest (.nodes ss) →
      Derives r .moreStatements n (t :: ts) rest (.nodes (s :: ss))
  | block {r n t ts ts₁ ts₂ u rest ss} : t.is .paren Token.openBrace → Newlines ts ts₁ →
      Derives r .statements n ts₁ ts₂ (.nodes ss) → Newlines ts₂ (u :: rest) →
      u.is .paren Token.closeBrace →
      Derives r .block n (t :: ts) rest (.node (.block ss t.start u.stop))
  | blockBody {r n ts rest b} : Derives r .block n ts rest (.node b) →
      Derives r .body n ts rest (.node b)
  | statementBody {r n t ts rest s} : t.is .operator ":" →
      Derives r .statement n ts rest (.node s) → Derives r .body n (t :: ts) rest (.node s)
  | giveBackNothing {r n t rest} : t.is .keyword "return" → n.inFunction → r.Returns rest →
      Derives r .statement n (t :: rest) rest (.node (.giveBack none t.start t.stop))
  | giveBack {r n t ts rest e} : t.is .keyword "return" → n.inFunction →
      Derives r .expression n ts rest (.node e) →
      Derives r .statement n (t :: ts) rest (.node (.giveBack (some e) t.start e.stop))
  | breakLoop {r n t rest} : t.is .keyword "break" → n.inLoop →
      Derives r .statement n (t :: rest) rest (.node (.breakLoop t))
  | continueLoop {r n t rest} : t.is .keyword "continue" → n.inLoop →
      Derives r .statement n (t :: rest) rest (.node (.continueLoop t))
  | evaluate {r n ts rest e} : Derives r .expression n ts rest (.node e) →
      Derives r .statement n ts rest (.node e)
  -- Expressions
  | assign {r n t u ts rest e} : t.kind = .identifier → u.is .operator "=" →
      Derives r .expression n ts rest (.node e) →
      Derives r .expression n (t :: u :: ts) rest (.node (.assign t e))
  | assignIndex {r n t u ts ts₁ ts₂ v w ts₃ rest i e} : t.kind = .identifier → u.is .paren "[" →
      Newlines ts ts₁ → Derives r .expression n ts₁ ts₂ (.node i) →
      Newlines ts₂ (v :: w :: ts₃) → v.is .paren "]" → w.is .operator "=" →
      Derives r .expression n ts₃ rest (.node e) →
      Derives r .expression n (t :: u :: ts) rest (.node (.assignIndex t i e))
  | ternary {r n ts rest e} : Derives r .ternary n ts rest (.node e) →
      Derives r .expression n ts rest (.node e)
  | condition {r n ts ts₁ rest c e} : Derives r (.level .logical) n ts ts₁ (.node c) →
      Derives r (.choice c) n ts₁ rest (.node e) → Derives r .ternary n ts rest (.node e)
  | noChoice {r n ts c} : r.Ends .choice ts → Derives r (.choice c) n ts ts (.node c)
  | choice {r n t ts u ts₁ rest c a b} : t.is .operator "?" →
      Derives r .expression n ts (u :: ts₁) (.node a) → u.is .operator ":" →
      Derives r .expression n ts₁ rest (.node b) →
      Derives r (.choice c) n (t :: ts) rest (.node (.ternary c a b))
  | level {r n ℓ ts ts₁ rest a e} : Derives r ℓ.operand n ts ts₁ (.node a) →
      Derives r (.chain ℓ a) n ts₁ rest (.node e) → Derives r (.level ℓ) n ts rest (.node e)
  | endChain {r n ℓ ts a} : r.Ends (.chain ℓ) ts → Derives r (.chain ℓ a) n ts ts (.node a)
  | chain {r n ℓ t ts ts₁ rest a b e} : ℓ.joins t → Derives r ℓ.operand n ts ts₁ (.node b) →
      Derives r (.chain ℓ (.binary a t b)) n ts₁ rest (.node e) →
      Derives r (.chain ℓ a) n (t :: ts) rest (.node e)
  | sign {r n t ts rest e} : isSign t → Derives r .unary n ts rest (.node e) →
      Derives r .unary n (t :: ts) rest (.node (.unary t e))
  | unsigned {r n ts rest e} : Derives r .suffixed n ts rest (.node e) →
      Derives r .unary n ts rest (.node e)
  | target {r n ts ts₁ rest a e} : Derives r .primary n ts ts₁ (.node a) →
      Derives r (.suffixes a) n ts₁ rest (.node e) → Derives r .suffixed n ts rest (.node e)
  | endSuffixes {r n ts a} : r.Ends .suffixes ts → Derives r (.suffixes a) n ts ts (.node a)
  | call {r n t ts u ts₁ rest a args e} : t.is .paren "(" →
      Derives r .arguments n ts (u :: ts₁) (.nodes args) → u.is .paren ")" →
      Derives r (.suffixes (.call a args u.stop)) n ts₁ rest (.node e) →
      Derives r (.suffixes a) n (t :: ts) rest (.node e)
  | index {r n t ts ts₁ ts₂ u ts₃ rest a i e} : t.is .paren "[" → Newlines ts ts₁ →
      Derives r .expression n ts₁ ts₂ (.node i) → Newlines ts₂ (u :: ts₃) → u.is .paren "]" →
      Derives r (.suffixes (.index a i none u.stop)) n ts₃ rest (.node e) →
      Derives r (.suffixes a) n (t :: ts) rest (.node e)
  | slice {r n t ts ts₁ ts₂ v ts₃ ts₄ ts₅ u ts₆ rest a i j e} : t.is .paren "[" →
      Newlines ts ts₁ → Derives r .expression n ts₁ ts₂ (.node i) → Newlines ts₂ (v :: ts₃) →
      v.is .operator ":" → Newlines ts₃ ts₄ → Derives r .expression n ts₄ ts₅ (.node j) →
      Newlines ts₅ (u :: ts₆) → u.is .paren "]" →
      Derives r (.suffixes (.index a i (some j) u.stop)) n ts₆ rest (.node e) →
      Derives r (.suffixes a) n (t :: ts) rest (.node e)
  | noArguments {r n ts rest} : Newlines ts rest → Derives r .arguments n ts rest (.nodes [])
  | arguments {r n ts ts₁ ts₂ ts₃ rest e es} : Newlines ts ts₁ →
      Derives r .expression n ts₁ ts₂ (.node e) → Newlines ts₂ ts₃ →
      Derives r .moreArguments n ts₃ rest (.nodes es) →
      Derives r .arguments n ts rest (.nodes (e :: es))
  | lastArgument {r n ts} : Derives r .moreArguments n ts ts (.nodes [])
  | moreArguments {r n t ts ts₁ ts₂ ts₃ rest e es} : t.is .paren "," → Newlines ts ts₁ →
      Derives r .expression n ts₁ ts₂ (.node e) → Newlines ts₂ ts₃ →
      Derives r .moreArguments n ts₃ rest (.nodes es) →
      Derives r .moreArguments n (t :: ts) rest (.nodes (e :: es))
  -- Phrases that stand for themselves
  | number {r n t rest} : t.kind = .number →
      Derives r .primary n (t :: rest) rest (.node (.number t))
  | text {r n t rest} : t.kind = .text → Derives r .primary n (t :: rest) rest (.node (.text t))
  | null {r n t rest} : t.is .keyword "null" →
      Derives r .primary n (t :: rest) rest (.node (.null t))
  | lookup {r n t rest} : t.kind = .identifier →
      Derives r .primary n (t :: rest) rest (.node (.lookup t))
  | parentheses {r n t ts ts₁ ts₂ u rest e} : t.is .paren "(" → Newlines ts ts₁ →
      Derives r .expression n ts₁ ts₂ (.node e) → Newlines ts₂ (u :: rest) → u.is .paren ")" →
      Derives r .primary n (t :: ts) rest (.node e)
  | list {r n t ts u rest es} : t.is .paren "[" →
      Derives r .arguments n ts (u :: rest) (.nodes es) → u.is .paren "]" →
      Derives r .primary n (t :: ts) rest (.node (.list es t.start u.stop))
  | conditional {r n t ts ts₁ ts₂ rest c b cases otherwise} : t.is .keyword "if" →
      Derives r .expression n ts ts₁ (.node c) → Derives r .body n ts₁ ts₂ (.node b) →
      Derives r .clauses n ts₂ rest (.clauses cases otherwise) →
      Derives r .primary n (t :: ts) rest
        (.node (.conditional ((c, b) :: cases) otherwise t.start
          (lastBody b cases otherwise).stop))
  | endClauses {r n ts} : r.Ends .clauses ts → Derives r .clauses n ts ts (.clauses [] none)
  | elseIf {r n ts t ts₁ ts₂ ts₃ rest c b cases otherwise} : Newlines ts (t :: ts₁) →
      t.is .keyword "elif" → Derives r .expression n ts₁ ts₂ (.node c) →
      Derives r .body n ts₂ ts₃ (.node b) →
      Derives r .clauses n ts₃ rest (.clauses cases otherwise) →
      Derives r .clauses n ts rest (.clauses ((c, b) :: cases) otherwise)
  | otherwise {r n ts t ts₁ rest b} : Newlines ts (t :: ts₁) → t.is .keyword "else" →
      Derives r .body n ts₁ rest (.node b) →
      Derives r .clauses n ts rest (.clauses [] (some b))
  | forLoop {r n t name u ts v ts₁ ts₂ ts₃ rest a b step body} : t.is .keyword "for" →
      name.kind = .identifier → u.is .operator "=" →
      Derives r .expression n ts (v :: ts₁) (.node a) → v.is .operator ":" ∨ v.is .keyword "to" →
      Derives r .expression n ts₁ ts₂ (.node b) → Derives r .step n ts₂ ts₃ (.optional step) →
      Derives r .body n.loopBody ts₃ rest (.node body) →
      Derives r .primary n (t :: name :: u :: ts) rest
        (.node (.forLoop name a b step body t.start body.stop))
  | noStep {r n ts} : Derives r .step n ts ts (.optional none)
  | step {r n t ts rest e} : t.is .keyword "by" → Derives r .expression n ts rest (.node e) →
      Derives r .step n (t :: ts) rest (.optional (some e))
  | eachLoop {r n t name u ts ts₁ rest e body} : t.is .keyword "each" → name.kind = .identifier →
      u.is .keyword "in" → Derives r .expression n ts ts₁ (.node e) →
      Derives r .body n.loopBody ts₁ rest (.node body) →
      Derives r .primary n (t :: name :: u :: ts) rest
        (.node (.eachLoop name e body t.start body.stop))
  | whileLoop {r n t ts ts₁ rest c body} : t.is .keyword "while" →
      Derives r .expression n ts ts₁ (.node c) →
      Derives r .body n.loopBody ts₁ rest (.node body) →
      Derives r .primary n (t :: ts) rest (.node (.whileLoop c body t.start body.stop))
  | functionBlock {r n t ts u ts₁ v ts₂ rest name params body} : t.is .keyword "func" →
      Named ts (u :: ts₁) name → u.is .paren "(" → Parameters ts₁ (v :: ts₂) params →
      v.is .paren ")" → Derives r .block .functionBody ts₂ rest (.node body) →
      Derives r .primary n (t :: ts) rest
        (.node (.function name params body false t.start body.stop))
  | functionExpression {r n t ts u ts₁ v w ts₂ rest name params body} : t.is .keyword "func" →
      Named ts (u :: ts₁) name → u.is .paren "(" → Parameters ts₁ (v :: w :: ts₂) params →
      v.is .paren ")" → w.is .operator ":" →
      Derives (r.within n) .expression .functionBody ts₂ rest (.node body) →
      Derives r .primary n (t :: ts) rest
        (.node (.function name params body true t.start body.stop))

/-- The tokens of the text are a program, and `block` is its tree. -/
inductive Program (r : Reading) (s : TokenStream) : Node → Prop where
  | mk {ts rest ss} : Newlines s.tokens ts → Derives r .statements .program ts rest (.nodes ss) →
      Newlines rest [] → Program r s (.block ss (s.tokens.headD s.eof).start s.eof.stop)

end Lumen.Grammar
