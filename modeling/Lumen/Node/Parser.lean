import Lumen.Diagnostic
import Lumen.Node

/-!
# From tokens to a program

Recursive descent over the tokens that are left, with one rule for each phrase of the language.
Every nested phrase goes through an expression or a unary expression, so those two tie the knot:
the rules are written against whatever parses nested phrases, and `Rules.upTo` ties them by
recursion on the nesting that is still allowed. A rule that repeats takes the tokens that are left
when it starts as its fuel: each round takes a token, so there are never more rounds than that. The
first phrase that does not fit ends the parse.
-/

namespace Lumen

namespace Parser

/-- Why there is no program. -/
inductive Failure where
  | refused (d : Diagnostic)
  /-- The source is nested deeper than allowed at the token that has this span. -/
  | tooDeep (s : Span)

end Parser

/-- Takes some of the tokens that are left, or fails. -/
abbrev Parser (α : Type) := StateT (List Token) (Except Parser.Failure) α

namespace Parser

/-- The statements that may stand here beside expressions. -/
structure Nesting where
  inLoop : Bool
  inFunction : Bool
deriving DecidableEq, Repr

namespace Nesting

def program : Nesting := ⟨false, false⟩

def loopBody (n : Nesting) : Nesting := ⟨true, n.inFunction⟩

/-- A function body starts outside all loops. -/
def functionBody : Nesting := ⟨false, true⟩

end Nesting

/-- What parses nested phrases. -/
structure Rules where
  expression : Nesting → Parser Node
  unary : Nesting → Parser Node

def levels : List (List String) :=
  [["and", "or"], ["==", "!="], ["<", ">", "<=", ">="], ["+", "-"], ["*", "/", "%"], ["^"]]

def unaryOperators : List String := ["-", "+", "not"]

def isOperatorOf (ops : List String) (t : Token) : Bool := ops.any (t.is .operator ·)

/-- The bracket that closes the `depth` open ones is followed by an assignment sign. -/
def assignsBehind : (depth : Nat) → List Token → Bool
  | _, [] => false
  | depth, t :: ts =>
    if t.isOpening then assignsBehind (depth + 1) ts
    else if t.isClosing then
      if depth ≤ 1 then ts.head?.any (·.is .operator "=") else assignsBehind (depth - 1) ts
    else assignsBehind depth ts

section

variable (eof : Token)

/-- The next token; behind the last one there is the end of the text. -/
def peek : Parser Token := do return (← get).headD eof

def advance : Parser Token := do
  match ← get with
  | [] => return eof
  | t :: ts =>
    set ts
    return t

def sees (kind : TokenKind) (s : String) : Parser Bool := do return (← peek eof).is kind s

def seesKind (kind : TokenKind) : Parser Bool := do return (← peek eof).kind == kind

def refuse {α : Type} (c : Complaint) : Parser α := do
  let t ← peek eof
  throw (.refused (Diagnostic.onSpan c t.span))

def giveUp {α : Type} : Parser α := do
  let t ← peek eof
  throw (.tooDeep t.span)

def consume (kind : TokenKind) (s : String) : Parser Token := do
  if ← sees eof kind s then advance eof else refuse eof (.expected ("'" ++ s ++ "'"))

def consumeIdentifier (what : String) : Parser Token := do
  if ← seesKind eof .identifier then advance eof else refuse eof (.expected what)

def skipNewlines : Parser Unit := modify (·.dropWhile Token.isNewline)

/-- Statements up to a closing brace, or up to the end of the text if `close` is none. -/
def statements (statement : Parser Node) (close : Option String) :
    (fuel : List Token) → Parser (List Node)
  | [] => return []
  | _ :: fuel => do
    let closed : Parser Bool :=
      match close with
      | some s => sees eof .paren s
      | none => seesKind eof .eof
    if (← closed) || (← seesKind eof .eof) then return []
    let first ← statement
    unless (← seesKind eof .newline) || (← closed) do
      refuse eof (.expected "a newline or ';' between statements")
    skipNewlines
    return first :: (← statements statement close fuel)

/-- The next token cannot start the value that a `return` gives back. -/
def endsReturn : Parser Bool := do
  let t ← peek eof
  return t.kind == .newline || t.kind == .eof || t.is .paren Token.closeBrace ||
    t.is .keyword "elif" || t.is .keyword "else"

variable (self : Rules)

def statement (n : Nesting) : Parser Node := do
  let t ← peek eof
  if t.is .keyword "return" then
    if !n.inFunction then refuse eof (.outsideFunction "return")
    let _ ← advance eof
    if ← endsReturn eof then return .giveBack none t.start t.stop
    let value ← self.expression n
    return .giveBack (some value) t.start value.stop
  else if t.is .keyword "break" then
    if !n.inLoop then refuse eof (.outsideLoop "break")
    return .breakLoop (← advance eof)
  else if t.is .keyword "continue" then
    if !n.inLoop then refuse eof (.outsideLoop "continue")
    return .continueLoop (← advance eof)
  else self.expression n

def statementList (n : Nesting) (close : Option String) : Parser (List Node) := do
  skipNewlines
  statements eof (statement eof self n) close (← get)

def block (n : Nesting) : Parser Node := do
  let opening ← consume eof .paren Token.openBrace
  let body ← statementList eof self n (some Token.closeBrace)
  let closing ← consume eof .paren Token.closeBrace
  return .block body opening.start closing.stop

/-- A block, or a colon and one statement. -/
def body (n : Nesting) : Parser Node := do
  if ← sees eof .paren Token.openBrace then block eof self n
  else if ← sees eof .operator ":" then
    let _ ← advance eof
    statement eof self n
  else refuse eof (.expected "'\x7b' or ':'")

/-- Operands joined to `left` by operators of one level, from the left. -/
def chain (operand : Parser Node) (ops : List String) : (fuel : List Token) → Node → Parser Node
  | [], left => return left
  | _ :: fuel, left => do
    if isOperatorOf ops (← peek eof) then
      let op ← advance eof
      let right ← operand
      chain operand ops fuel (.binary left op right)
    else return left

def binary (n : Nesting) : List (List String) → Parser Node
  | [] => self.unary n
  | ops :: tighter => do
    let first ← binary n tighter
    chain eof (binary n tighter) ops (← get) first

def ternary (n : Nesting) : Parser Node := do
  let condition ← binary eof self n levels
  if ← sees eof .operator "?" then
    let _ ← advance eof
    let left ← self.expression n
    let _ ← consume eof .operator ":"
    let right ← self.expression n
    return .ternary condition left right
  else return condition

def bracketed (n : Nesting) : Parser Node := do
  skipNewlines
  let e ← self.expression n
  skipNewlines
  return e

/-- An assignment to a name or to an element of a named list, or any other expression. -/
def expression (n : Nesting) : Parser Node := do
  match ← get with
  | t :: u :: rest =>
    if t.kind == .identifier && u.is .operator "=" then
      set rest
      return .assign t (← self.expression n)
    else if t.kind == .identifier && u.is .paren "[" && assignsBehind 0 (u :: rest) then
      set rest
      let index ← bracketed self n
      let _ ← consume eof .paren "]"
      let _ ← consume eof .operator "="
      return .assignIndex t index (← self.expression n)
    else ternary eof self n
  | _ => ternary eof self n

def moreArguments (n : Nesting) : (fuel : List Token) → Parser (List Node)
  | [] => return []
  | _ :: fuel => do
    if ← sees eof .paren "," then
      let _ ← advance eof
      let e ← bracketed self n
      return e :: (← moreArguments n fuel)
    else return []

def arguments (n : Nesting) (close : String) : Parser (List Node) := do
  skipNewlines
  if ← sees eof .paren close then return []
  let first ← bracketed self n
  return first :: (← moreArguments eof self n (← get))

def postfixes (n : Nesting) : (fuel : List Token) → Node → Parser Node
  | [], node => return node
  | _ :: fuel, node => do
    if ← sees eof .paren "(" then
      let _ ← advance eof
      let args ← arguments eof self n ")"
      let closing ← consume eof .paren ")"
      postfixes n fuel (.call node args closing.stop)
    else if ← sees eof .paren "[" then
      let _ ← advance eof
      let index ← bracketed self n
      let mut upTo := none
      if ← sees eof .operator ":" then
        let _ ← advance eof
        upTo := some (← bracketed self n)
      let closing ← consume eof .paren "]"
      postfixes n fuel (.index node index upTo closing.stop)
    else return node

def moreCases (n : Nesting) : (fuel : List Token) → Parser (List (Node × Node) × Option Node)
  | [] => return ([], none)
  | _ :: fuel => do
    let next := ((← get).dropWhile Token.isNewline).headD eof
    if next.is .keyword "elif" then
      skipNewlines
      let _ ← advance eof
      let condition ← self.expression n
      let guarded ← body eof self n
      let (cases, otherwise) ← moreCases n fuel
      return ((condition, guarded) :: cases, otherwise)
    else if next.is .keyword "else" then
      skipNewlines
      let _ ← advance eof
      return ([], some (← body eof self n))
    else return ([], none)

def conditional (n : Nesting) : Parser Node := do
  let word ← consume eof .keyword "if"
  let condition ← self.expression n
  let guarded ← body eof self n
  let (cases, otherwise) ← moreCases eof self n (← get)
  let last := otherwise.getD ((cases.getLast?.map Prod.snd).getD guarded)
  return .conditional ((condition, guarded) :: cases) otherwise word.start last.stop

def forLoop (n : Nesting) : Parser Node := do
  let word ← consume eof .keyword "for"
  let name ← consumeIdentifier eof "an identifier"
  let _ ← consume eof .operator "="
  let first ← self.expression n
  if (← sees eof .operator ":") || (← sees eof .keyword "to") then
    let _ ← advance eof
  else refuse eof (.expected "':' or 'to'")
  let last ← self.expression n
  let mut step := none
  if ← sees eof .keyword "by" then
    let _ ← advance eof
    step := some (← self.expression n)
  let body ← body eof self n.loopBody
  return .forLoop name first last step body word.start body.stop

def eachLoop (n : Nesting) : Parser Node := do
  let word ← consume eof .keyword "each"
  let name ← consumeIdentifier eof "an identifier"
  let _ ← consume eof .keyword "in"
  let iterable ← self.expression n
  let body ← body eof self n.loopBody
  return .eachLoop name iterable body word.start body.stop

def whileLoop (n : Nesting) : Parser Node := do
  let word ← consume eof .keyword "while"
  let condition ← self.expression n
  let body ← body eof self n.loopBody
  return .whileLoop condition body word.start body.stop

def moreParameters : (fuel : List Token) → Parser (List Token)
  | [] => return []
  | _ :: fuel => do
    if ← sees eof .paren "," then
      let _ ← advance eof
      skipNewlines
      let t ← consumeIdentifier eof "a parameter name"
      skipNewlines
      return t :: (← moreParameters fuel)
    else return []

def parameters : Parser (List Token) := do
  let _ ← consume eof .paren "("
  skipNewlines
  let mut params := []
  if !(← sees eof .paren ")") then
    let first ← consumeIdentifier eof "a parameter name"
    skipNewlines
    params := first :: (← moreParameters eof (← get))
  let _ ← consume eof .paren ")"
  return params

def function : Parser Node := do
  let word ← consume eof .keyword "func"
  let mut name := none
  if ← seesKind eof .identifier then name := some (← advance eof)
  let params ← parameters eof
  if ← sees eof .operator ":" then
    let _ ← advance eof
    let body ← self.expression .functionBody
    return .function name params body true word.start body.stop
  else if ← sees eof .paren Token.openBrace then
    let body ← block eof self .functionBody
    return .function name params body false word.start body.stop
  else refuse eof (.expected "'\x7b' or ':'")

def primary (n : Nesting) : Parser Node := do
  let t ← peek eof
  if t.kind == .number then return .number (← advance eof)
  else if t.kind == .text then return .text (← advance eof)
  else if t.kind == .identifier then return .lookup (← advance eof)
  else if t.is .keyword "null" then return .null (← advance eof)
  else if t.is .keyword "if" then conditional eof self n
  else if t.is .keyword "for" then forLoop eof self n
  else if t.is .keyword "each" then eachLoop eof self n
  else if t.is .keyword "while" then whileLoop eof self n
  else if t.is .keyword "func" then function eof self
  else if t.is .paren "(" then
    let _ ← advance eof
    let e ← bracketed self n
    let _ ← consume eof .paren ")"
    return e
  else if t.is .paren "[" then
    let _ ← advance eof
    let elements ← arguments eof self n "]"
    let closing ← consume eof .paren "]"
    return .list elements t.start closing.stop
  else if t.kind == .eof then refuse eof .unexpectedEnd
  else refuse eof (.unexpectedToken t.value.display)

/-- A sign before a unary expression, or a phrase with calls and index reads behind it. -/
def unary (n : Nesting) : Parser Node := do
  let t ← peek eof
  if isOperatorOf unaryOperators t then
    let op ← advance eof
    return .unary op (← self.unary n)
  else
    let node ← primary eof self n
    postfixes eof self n (← get) node

end

/-- The rules for phrases that are nested at most `depth` deep. -/
def Rules.upTo (eof : Token) : (depth : Nat) → Rules
  | 0 => ⟨fun _ => giveUp eof, fun _ => giveUp eof⟩
  | depth + 1 => ⟨Parser.expression eof (upTo eof depth), Parser.unary eof (upTo eof depth)⟩

def GivesUp {α : Type} (x : Parser α) (ts : List Token) : Prop :=
  ∃ s, x.run ts = .error (.tooDeep s)

theorem GivesUp.bind {α β : Type} {x : Parser α} {f : α → Parser β} {ts : List Token}
    (h : GivesUp x ts) : GivesUp (x >>= f) ts := by
  obtain ⟨s, h⟩ := h
  exact ⟨s, by rw [StateT.run_bind, h]; rfl⟩

def program (eof : Token) (self : Rules) : Parser Node := do
  let first ← peek eof
  let body ← statementList eof self .program none
  return .block body first.start eof.stop

end Parser

namespace Node

/-- The program that a text's tokens make, if nothing in it is nested more than `depth` deep. -/
def ofTokens (depth : Nat) (s : TokenStream) : Except Diagnostic Node :=
  match (Parser.program s.eof (Parser.Rules.upTo s.eof depth)).run s.tokens with
  | .ok (node, _) => .ok node
  | .error (.refused d) => .error d
  | .error (.tooDeep span) => .error (Diagnostic.onSpan .nestingExceeded span)

def TooDeep (r : Except Diagnostic Node) : Prop :=
  ∃ s, r = .error (Diagnostic.onSpan .nestingExceeded s)

end Node

end Lumen
