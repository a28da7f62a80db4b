import Lumen.Builtin
import Lumen.Decimal.Reader
import Lumen.Tree.Reading

/-!
# Evaluation

A part of a program document is evaluated in a scope and has a value or none. The rules for the
kinds of node are written against an evaluator for the parts inside them; `evaluate` ties the knot
by recursion on the depth that is still allowed, which is handed down and not used up. What does not
go on in the ordinary way, a signal of a loop or a function as well as a failure, stops everything
up to the rule that knows what to do about it. A rule reads a field where it needs it and not
before, so what is wrong with a document shows in its turn.
-/

namespace Lumen

/-- Evaluates a part of a document in a scope. -/
abbrev Evaluator := Tree → ScopeId → Exec (Option Value)

namespace Eval

def nameOf (t : Tree) : Exec Scalar := Exec.ofDocument t.name

def goesOn (body : Exec (Option Value)) : Exec Bool := do
  match ← Exec.attempt body with
  | .ok _ | .error .continueLoop => return true
  | .error .breakLoop => return false
  | .error e => throw e

def failAt {α : Type} (c : Complaint) (n : Tree) : Exec α := do
  Exec.fail (Diagnostic.onSpan c (← Exec.ofDocument n.span))

section

variable (rounds room : Nat) (ev : Evaluator)

def operand (n : Tree) (c : ScopeId) : Exec Value := do return Value.orNull (← ev n c)

def operands (c : ScopeId) : List Tree → Exec (List Value)
  | [] => return []
  | n :: ns => do
    let v ← operand ev n c
    return v :: (← operands c ns)

/-- The statements one after another; the value is the last one's. -/
def sequence (c : ScopeId) : Option Value → List Tree → Exec (Option Value)
  | last, [] => return last
  | _, n :: ns => do
    let v ← ev n c
    sequence c v ns

def block (c : ScopeId) (statements : Tree) : Exec (Option Value) := do
  sequence ev c none (← Exec.ofDocument statements.items)

def placed (p : Payload) (n : Tree) : Exec (Option Value) := do
  return some ⟨p, ← Exec.ofDocument n.span⟩

/-- The double that a number token holds. A document may write it as an integer or as a text. -/
def numberOf (j : Json) : Except Fault Float :=
  match j with
  | .scalar (.bool b) => .ok (if b then 1 else 0)
  | .scalar (.int i) => Json.asFloat i
  | .scalar (.float x) => .ok x
  | .scalar (.text t) =>
    match Decimal.ofText? t with
    | some x => .ok x
    | none => .error (.unreadableNumber t)
  | j => .error (.noNumber j.typeName)

def numberLiteral (t n : Tree) : Exec (Option Value) := do
  let j ← Exec.ofDocument t.value
  let x ← Exec.ofDocument (numberOf j)
  placed (.number x) n

def textLiteral (t n : Tree) : Exec (Option Value) := do
  match ← Exec.ofDocument t.value with
  | .scalar (.text s) => placed (.text s) n
  | j => placed (.datum j) n

def listLiteral (c : ScopeId) (elements n : Tree) : Exec (Option Value) := do
  let values ← operands ev c (← Exec.ofDocument elements.items)
  let v ← Exec.newList values.toArray
  placed v.payload n

def resultAt (v : Value) (n : Tree) : Exec (Option Value) := do
  let s ← Exec.ofDocument n.span
  return some (← Exec.ofExcept (v.copyTo s))

/-- The right operand comes first. -/
def binary (c : ScopeId) (left op right n : Tree) : Exec (Option Value) := do
  let b ← operand ev right c
  let a ← operand ev left c
  let symbol ← nameOf op
  match symbol.text?.bind Operator.ofSymbol? with
  | none => failAt (.unexpectedOperator symbol.display) n
  | some o => resultAt (← Exec.located n.span (o.apply a b)) n

/-- A sign or a negation applied to a value. Any other operator leaves it as it is. -/
def signed (sign : Json) (a : Value) : Exec Value := do
  match sign with
  | .scalar s =>
    if s.isText "-" then Operator.mul.apply a (Value.number (-1))
    else if s.isText "not" then Exec.ofDocument a.negation
    else return a
  | _ => return a

def unary (c : ScopeId) (op operand n : Tree) : Exec (Option Value) := do
  let a ← Eval.operand ev operand c
  let sign ← Exec.ofDocument op.value
  resultAt (← Exec.located n.span (signed sign a)) n

def ternary (c : ScopeId) (condition left right : Tree) : Exec (Option Value) := do
  if ← Exec.holds (← operand ev condition c) then ev left c else ev right c

/-- A name that is not bound reads as null. -/
def lookup (c : ScopeId) (t n : Tree) : Exec (Option Value) := do
  let name ← nameOf t
  match (← Exec.store).lookup c name with
  | none => placed .null n
  | some v => resultAt v n

def assign (c : ScopeId) (t value : Tree) : Exec (Option Value) := do
  let v ← operand ev value c
  let name ← nameOf t
  Exec.updateStore (·.bind c name v)
  Exec.noteValue room 2 v fun text => "assign " ++ name.display ++ " = " ++ text
  return some v

def indexOperand (c : ScopeId) (complaint : Complaint) (i n : Tree) : Exec Value := do
  let v ← operand ev i c
  if v.payload.isNumber then return v else Exec.located n.span (failAt complaint i)

def upToOperand (c : ScopeId) (upTo n : Tree) : Exec (Option Value) := do
  if upTo.isNull then return none else return some (← indexOperand ev c .upToNotNumber upTo n)

def index (c : ScopeId) (target i upTo n : Tree) : Exec (Option Value) := do
  let t ← operand ev target c
  let i ← indexOperand ev c .indexNotNumber i n
  let j ← upToOperand ev c upTo n
  match t.payload with
  | .list l => return some (← Exec.located n.span (Exec.access l i j))
  | _ => Exec.located n.span (Exec.fail (Diagnostic.onSpan (.notIndexable t.kind) t.span))

/-- The list is looked up first, so what the operands do to the name does not matter. -/
def assignIndex (c : ScopeId) (t i value n : Tree) : Exec (Option Value) := do
  let name ← nameOf t
  match ((← Exec.store).lookup c name).map Value.payload with
  | some (.list l) =>
    let index ← operand ev i c
    let v ← operand ev value c
    if !index.payload.isNumber then Exec.located n.span (failAt .indexNotNumber i)
    Exec.located n.span (Exec.assign l index v)
    let slot ← Exec.text .written room index
    Exec.noteValue room 2 v fun text =>
      "assign " ++ name.display ++ "[" ++ slot ++ "] = " ++ text
    return some v
  | _ => Exec.located n.span (failAt .notAssignable t)

/-- The body of the first case whose condition holds, or else the last one. -/
def cases (c : ScopeId) (otherwise : Tree) : List Tree → Exec (Option Value)
  | [] => do
    if otherwise.isNull then return none
    Exec.note 3 fun _ => "if: taking else"
    ev otherwise c
  | guarded :: rest => do
    let condition ← Exec.ofDocument guarded.condition
    if ← Exec.holds (← operand ev condition c) then
      let start ← Exec.ofDocument condition.start
      Exec.note 3 fun _ => "if: taking case at " ++ start.describe
      ev (← Exec.ofDocument guarded.body) c
    else cases c otherwise rest

def conditional (c : ScopeId) (guarded otherwise : Tree) : Exec (Option Value) := do
  cases ev c otherwise (← Exec.ofDocument guarded.items)

def whileRounds (c : ScopeId) (condition body : Tree) : (fuel : Nat) → Exec Unit
  | 0 => throw .endless
  | fuel + 1 => do
    if ← Exec.holds (← operand ev condition c) then
      if ← goesOn (ev body c) then whileRounds c condition body fuel

def bound (c : ScopeId) (word : String) (n : Tree) : Exec Float := do
  let v ← operand ev n c
  match v.payload with
  | .number x => return x
  | _ => Exec.located n.span (failAt (.boundNotNumber word) n)

def stepOf (c : ScopeId) (step n : Tree) : Exec Float := do
  if step.isNull then return 1
  let x ← bound ev c "by" step
  if x == 0 then Exec.located n.span (failAt .zeroStep step) else return x

/-- The cursor has not passed the last value. -/
def withinBound (cursor last step : Float) : Bool :=
  if step > 0 then cursor ≤ last else cursor ≥ last

/-- Rounds of a counting loop, whose cursor nothing in the program can change; `fuel` bounds their
number. Behind the last round the name is unbound, behind a broken one it stays bound. -/
def countRounds (c : ScopeId) (name : Scalar) (last step : Float) (body : Tree) :
    (fuel : Nat) → (cursor : Float) → Exec Unit
  | 0, _ => throw .endless
  | fuel + 1, cursor => do
    if withinBound cursor last step then
      Exec.updateStore (·.bind c name (Value.number cursor))
      Exec.note 3 fun _ => "for: " ++ name.display ++ " = " ++ Decimal.floatText cursor
      if ← goesOn (ev body c) then countRounds c name last step body fuel (cursor + step)
    else Exec.updateStore (·.unbind c name)

def forLoop (c : ScopeId) (t first last step body n : Tree) : Exec (Option Value) := do
  let cursor ← bound ev c "=" first
  let last ← bound ev c ":" last
  let step ← stepOf ev c step n
  let name ← nameOf t
  countRounds ev c name last step body rounds cursor
  return none

/-- Rounds over the elements of a list from slot `i` on. Each looks whether the list still has its
slot and reads it when it starts; `fuel` bounds their number. -/
def eachRounds (c : ScopeId) (name : Scalar) (l : ListId) (body : Tree) :
    (fuel i : Nat) → Exec Unit
  | 0, _ => throw .endless
  | fuel + 1, i => do
    match ((← Exec.store).elements l)[i]? with
    | none => return ()
    | some v =>
      Exec.updateStore (·.bind c name v)
      Exec.noteValue room 3 v fun text => "each: " ++ name.display ++ " = " ++ text
      if ← goesOn (ev body c) then eachRounds c name l body fuel (i + 1)

/-- A list that got longer could keep the loop going, for `rounds` rounds more than it had slots. -/
def eachLoop (c : ScopeId) (t iterable body n : Tree) : Exec (Option Value) := do
  let v ← operand ev iterable c
  match v.payload with
  | .list l =>
    let name ← nameOf t
    let size := ((← Exec.store).elements l).size
    eachRounds room ev c name l body (rounds + size + 1) 0
    Exec.updateStore (·.unbind c name)
    return none
  | _ => Exec.located n.span (failAt .notIterable iterable)

/-- The name of a function, which may have none. A name that is no scalar binds nothing. -/
def functionName (t : Tree) : Except Fault Json := if t.isNull then .ok .null else t.value

def parameterNames (i : Nat) : List Json → Except Fault (List String)
  | [] => .ok []
  | .scalar (.text s) :: rest => do
    let names ← parameterNames (i + 1) rest
    .ok (s :: names)
  | j :: _ => .error (.parameterName i j.typeName)

def bindFunction (c : ScopeId) (name : Json) (v : Value) : Exec Unit :=
  match name with
  | .scalar .null => return ()
  | .scalar s => Exec.updateStore (·.bind c s v)
  | j => throw (.fault (.notAName j.typeName))

/-- A function keeps the scope in which it is defined, and is bound there if it has a name. -/
def function (c : ScopeId) (t params body isExpression n : Tree) : Exec (Option Value) := do
  let name ← Exec.ofDocument (functionName t)
  let params ← Exec.ofDocument (do (← params.items).mapM Tree.value)
  let s ← Exec.ofDocument n.span
  let names := parameterNames 0 params
  let f : Closure :=
    ⟨name.scalar?.getD .null, names.toOption.getD [], body, isExpression.truthy, c⟩
  let v : Value := ⟨.function f, s⟩
  bindFunction c name v
  let names ← Exec.ofDocument names
  Exec.note 2 fun _ =>
    "define function " ++ f.displayName ++ "(" ++ String.intercalate ", " names ++ ")"
  return some v

def bindAll (c : ScopeId) (params : List String) (args : List Value) : Exec Unit :=
  Exec.updateStore fun s => (params.zip args).foldl (fun s (name, v) => s.bind c (.text name) v) s

/-- Calls a function of the program in a new scope below the one it was defined in. Signals end
here: the caller only sees a value. -/
def callClosure (f : Closure) (place : Span) (args : List Value) : Exec Value := do
  if args.length ≠ f.params.length then
    Exec.fail
      (Diagnostic.onSpan (.argumentCount f.displayName f.params.length args.length) place)
  let inner ← Exec.newScope ⟨f.displayName, some f.scope, []⟩
  bindAll inner f.params args
  match ← Exec.attempt (ev f.body inner) with
  | .ok v => return if f.isExpression then Value.orNull v else Value.null
  | .error (.giveBack v) => return v
  | .error .breakLoop | .error .continueLoop => return Value.null
  | .error e => throw e

/-- Calls a value. Calling a list reads it. -/
def callValue (v : Value) (args : List Value) : Exec Value :=
  match v.payload with
  | .builtin b => b.call room v.span args
  | .function f => callClosure ev f v.span args
  | .list l =>
    match args with
    | [i] => Exec.access l i none
    | [i, j] => Exec.access l i (some j)
    | _ => Exec.fail (Diagnostic.onSpan .indexArguments v.span)
  | p => Exec.fail (Diagnostic.onSpan (.notCallable p.kind) v.span)

def call (c : ScopeId) (callee args n : Tree) : Exec (Option Value) := do
  let v ← operand ev callee c
  let args ← operands ev c (← Exec.ofDocument args.items)
  Exec.noteValue room 2 v fun text =>
    "call " ++ text ++ " with " ++ toString args.length ++ " argument(s)"
  resultAt (← Exec.located n.span (callValue room ev v args)) n

def giveBack (c : ScopeId) (value n : Tree) : Exec (Option Value) := do
  if value.isNull then throw (.giveBack (Value.null.place (← Exec.ofDocument n.span)))
  throw (.giveBack (← operand ev value c))

/-- The rule for each kind of node. What is no node cannot be evaluated. -/
def step (n : Tree) (c : ScopeId) : Exec (Option Value) :=
  match n with
  | .node .number [t] => numberLiteral t n
  | .node .text [t] => textLiteral t n
  | .node .null _ => placed .null n
  | .node .list [elements, _, _] => listLiteral ev c elements n
  | .node .block [statements, _, _] => block ev c statements
  | .node .ternary [condition, left, right] => ternary ev c condition left right
  | .node .binary [left, op, right] => binary ev c left op right n
  | .node .unary [op, operand] => unary ev c op operand n
  | .node .lookup [t] => lookup c t n
  | .node .assign [t, value] => assign room ev c t value
  | .node .index [target, i, upTo, _] => index ev c target i upTo n
  | .node .assignIndex [t, i, value] => assignIndex room ev c t i value n
  | .node .conditional [guarded, otherwise, _, _] => conditional ev c guarded otherwise
  | .node .forLoop [t, first, last, step, body, _, _] =>
    forLoop rounds ev c t first last step body n
  | .node .eachLoop [t, iterable, body, _, _] => eachLoop rounds room ev c t iterable body n
  | .node .whileLoop [condition, body, _, _] => do
    whileRounds ev c condition body rounds
    return none
  | .node .breakLoop _ => throw .breakLoop
  | .node .continueLoop _ => throw .continueLoop
  | .node .function [t, params, body, isExpression, _, _] =>
    function c t params body isExpression n
  | .node .call [callee, args, _] => call room ev c callee args n
  | .node .giveBack [value, _, _] => giveBack ev c value n
  | .node .guarded _ => throw (.fault (.notEvaluable n.typeName))
  | .node _ _ => throw (.fault .malformed)
  | n => throw (.fault (.notEvaluable n.typeName))

end

end Eval

/-- Evaluates parts that are nested less than `room` deep, with loops of up to `rounds` rounds. -/
def evaluate (rounds : Nat) : (room : Nat) → Evaluator
  | 0 => fun _ _ => throw .exhausted
  | room + 1 => Eval.step rounds room (evaluate rounds room)

end Lumen
