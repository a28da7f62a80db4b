import Lumen.Proofs.Grammar
import Lumen.Proofs.Node.Move

/-!
# Writing programs down

The words of a program, which are tokens without their places. What is written is canonical: every
expression inside another node stands in round brackets of its own, newlines stand between
statements, and a `return` without a value has one behind it.
-/

namespace Lumen

open Lumen.Parser (Nesting)

abbrev Word := TokenKind × Scalar

def Token.word (t : Token) : Word := (t.kind, t.value)

namespace Word

def keyword (s : String) : Word := (.keyword, .text s)

def operator (s : String) : Word := (.operator, .text s)

def bracket (s : String) : Word := (.paren, .text s)

def newline : Word := (.newline, .null)

def enclose (ws : List Word) : List Word := bracket "(" :: (ws ++ [bracket ")"])

/-- What stands behind a condition or in a loop. A single expression stands in brackets, so that no
`elif` or `else` behind it becomes a part of it. -/
def ofBody (body : Node) (ws : List Word) : List Word :=
  match body with
  | .block .. => ws
  | .breakLoop _ | .continueLoop _ | .giveBack .. => operator ":" :: ws
  | _ => operator ":" :: enclose ws

def parameters : List Token → List Word
  | [] => []
  | t :: ts => t.word :: ts.flatMap fun u => [bracket ",", u.word]

end Word

namespace Node

open Word

mutual

def words : Node → List Word
  | number t | text t | null t | lookup t | breakLoop t | continueLoop t => [t.word]
  | list elements _ _ => bracket "[" :: (wordsOfArguments elements ++ [bracket "]"])
  | block statements _ _ =>
    bracket Token.openBrace :: (wordsOfStatements statements ++ [bracket Token.closeBrace])
  | ternary condition left right =>
    enclose condition.words ++
      operator "?" :: (enclose left.words ++ operator ":" :: enclose right.words)
  | binary left op right => enclose left.words ++ op.word :: enclose right.words
  | unary op operand => op.word :: enclose operand.words
  | assign t value => t.word :: operator "=" :: enclose value.words
  | index target i upTo _ =>
    enclose target.words ++
      bracket "[" :: (enclose i.words ++ (wordsBehind (operator ":") upTo ++ [bracket "]"]))
  | assignIndex t i value =>
    t.word :: bracket "[" ::
      (enclose i.words ++ bracket "]" :: operator "=" :: enclose value.words)
  | conditional cases otherwise _ _ => wordsOfCases "if" cases ++ wordsOfElse otherwise
  | forLoop t first last step body _ _ =>
    keyword "for" :: t.word :: operator "=" ::
      (enclose first.words ++ operator ":" ::
        (enclose last.words ++ (wordsBehind (keyword "by") step ++ ofBody body body.words)))
  | eachLoop t iterable body _ _ =>
    keyword "each" :: t.word :: keyword "in" :: (enclose iterable.words ++ ofBody body body.words)
  | whileLoop condition body _ _ =>
    keyword "while" :: (enclose condition.words ++ ofBody body body.words)
  | function name params body isExpression _ _ =>
    keyword "func" :: ((name.map Token.word).toList ++ bracket "(" :: (parameters params ++
      bracket ")" :: (if isExpression then operator ":" :: enclose body.words else body.words)))
  | call callee args _ =>
    enclose callee.words ++ bracket "(" :: (wordsOfArguments args ++ [bracket ")"])
  | giveBack none _ _ => [keyword "return", newline]
  | giveBack (some value) _ _ => keyword "return" :: enclose value.words

def wordsOfArguments : List Node → List Word
  | [] => []
  | e :: es => enclose e.words ++ wordsOfMoreArguments es

def wordsOfMoreArguments : List Node → List Word
  | [] => []
  | e :: es => bracket "," :: (enclose e.words ++ wordsOfMoreArguments es)

def wordsOfStatements : List Node → List Word
  | [] => []
  | s :: ss => s.words ++ wordsOfMoreStatements ss

def wordsOfMoreStatements : List Node → List Word
  | [] => []
  | s :: ss => newline :: (s.words ++ wordsOfMoreStatements ss)

def wordsBehind (w : Word) : Option Node → List Word
  | none => []
  | some e => w :: enclose e.words

def wordsOfCases (start : String) : List (Node × Node) → List Word
  | [] => []
  | (condition, body) :: cases =>
    keyword start :: (enclose condition.words ++ (ofBody body body.words ++ wordsOfCases "elif" cases))

def wordsOfElse : Option Node → List Word
  | none => []
  | some body => keyword "else" :: ofBody body body.words

end

def programWords : Node → List Word
  | block statements _ _ => wordsOfStatements statements
  | e => e.words

/-- What a node is asked to be where it stands. -/
inductive Role where
  | expression
  /-- `return`, `break` or `continue`. -/
  | jump
  | statement | body | block

/-- The node can be written where the role and the nesting say. -/
inductive WellFormed : Role → Nesting → Node → Prop where
  | number {n t} : t.kind = .number → WellFormed .expression n (.number t)
  | text {n t} : t.kind = .text → WellFormed .expression n (.text t)
  | null {n t} : t.is .keyword "null" → WellFormed .expression n (.null t)
  | lookup {n t} : t.kind = .identifier → WellFormed .expression n (.lookup t)
  | list {n es p q} : (∀ e ∈ es, WellFormed .expression n e) →
      WellFormed .expression n (.list es p q)
  | ternary {n c a b} : WellFormed .expression n c → WellFormed .expression n a →
      WellFormed .expression n b → WellFormed .expression n (.ternary c a b)
  | binary {n a op b} (ℓ : Grammar.Level) : ℓ.joins op → WellFormed .expression n a →
      WellFormed .expression n b → WellFormed .expression n (.binary a op b)
  | unary {n op e} : Grammar.isSign op → WellFormed .expression n e →
      WellFormed .expression n (.unary op e)
  | assign {n t e} : t.kind = .identifier → WellFormed .expression n e →
      WellFormed .expression n (.assign t e)
  | index {n e i j q} : WellFormed .expression n e → WellFormed .expression n i →
      (∀ e ∈ j, WellFormed .expression n e) → WellFormed .expression n (.index e i j q)
  | assignIndex {n t i e} : t.kind = .identifier → WellFormed .expression n i →
      WellFormed .expression n e → WellFormed .expression n (.assignIndex t i e)
  | conditional {n c b cases otherwise p q} : WellFormed .expression n c → WellFormed .body n b →
      (∀ g ∈ cases, WellFormed .expression n g.1) → (∀ g ∈ cases, WellFormed .body n g.2) →
      (∀ e ∈ otherwise, WellFormed .body n e) →
      WellFormed .expression n (.conditional ((c, b) :: cases) otherwise p q)
  | forLoop {n t a b step body p q} : t.kind = .identifier → WellFormed .expression n a →
      WellFormed .expression n b → (∀ e ∈ step, WellFormed .expression n e) →
      WellFormed .body n.loopBody body → WellFormed .expression n (.forLoop t a b step body p q)
  | eachLoop {n t e body p q} : t.kind = .identifier → WellFormed .expression n e →
      WellFormed .body n.loopBody body → WellFormed .expression n (.eachLoop t e body p q)
  | whileLoop {n c body p q} : WellFormed .expression n c → WellFormed .body n.loopBody body →
      WellFormed .expression n (.whileLoop c body p q)
  | functionBlock {n name params body p q} : (∀ t ∈ name, t.kind = .identifier) →
      (∀ t ∈ params, t.kind = .identifier) → WellFormed .block .functionBody body →
      WellFormed .expression n (.function name params body false p q)
  | functionExpression {n name params body p q} : (∀ t ∈ name, t.kind = .identifier) →
      (∀ t ∈ params, t.kind = .identifier) → WellFormed .expression .functionBody body →
      WellFormed .expression n (.function name params body true p q)
  | call {n e args q} : WellFormed .expression n e → (∀ e ∈ args, WellFormed .expression n e) →
      WellFormed .expression n (.call e args q)
  | breakLoop {n t} : t.is .keyword "break" → n.inLoop → WellFormed .jump n (.breakLoop t)
  | continueLoop {n t} : t.is .keyword "continue" → n.inLoop →
      WellFormed .jump n (.continueLoop t)
  | giveBack {n value p q} : n.inFunction → (∀ e ∈ value, WellFormed .expression n e) →
      WellFormed .jump n (.giveBack value p q)
  | jumpStatement {n s} : WellFormed .jump n s → WellFormed .statement n s
  | evaluate {n e} : WellFormed .expression n e → WellFormed .statement n e
  | jumpBody {n s} : WellFormed .jump n s → WellFormed .body n s
  | expressionBody {n e} : WellFormed .expression n e → WellFormed .body n e
  | blockBody {n b} : WellFormed .block n b → WellFormed .body n b
  | block {n ss p q} : (∀ s ∈ ss, WellFormed .statement n s) → WellFormed .block n (.block ss p q)

end Node

end Lumen
