import Lumen.Shell

/-!
# A workbench for values

Values by hand: they are made from terms, kept in named registers, and asked for what they can do,
one request at a time. A register and a slot of a list hold an object and not a copy, so giving an
object another place shows wherever it is held; the built-in functions are objects of their own.
-/

namespace Lumen

/-- How a value is made. -/
inductive Term where
  | register (name : String)
  | number (x : Float)
  | text (s : String)
  /-- A text that holds something else. -/
  | datum (j : Json)
  | list (items : List Term)
  | null
  | base
  /-- What the root scope binds the name to. -/
  | global (name : String)
  /-- The value of a program. -/
  | source (text : String)
  /-- The object of a term, moved to another place. -/
  | placed (t : Term) (start stop : Option Position)
deriving Inhabited

structure Workbench where
  limits : Limits
  machine : Machine
  objects : Array Value
  /-- The object in each register. -/
  registers : List (String × Nat)
  /-- The objects of built-in functions that have been asked for. -/
  globals : List (String × Nat)
  /-- The objects in the slots of lists that have been looked into. -/
  contents : List (ListId × List Nat)
  /-- The scopes that have been made, by name. -/
  scopes : List (String × ScopeId)

/-- An action at the workbench. -/
abbrev Bench (α : Type) := ExceptT Stop (StateM Workbench) α

namespace Bench

/-- What a value is asked for. -/
inductive Request where
  | operate (o : Operator)
  | negate
  | isTrue
  | content
  | copy
  | access
  | assign
  | call
deriving DecidableEq, Repr

/-- What a request gives. -/
inductive Answer where
  /-- An object. -/
  | object (id : Nat)
  | truth (b : Bool)
  /-- What a number or a text holds, or nothing. -/
  | content (j : Json)
  /-- The elements of a list. -/
  | elements (values : List Value)
  /-- The result of a call. -/
  | called (result : Except Diagnostic Value)

def start (limits : Limits) (input : String) : Workbench :=
  ⟨limits, Machine.initial input 0, #[], [], [], [], []⟩

def onMachine {α : Type} (x : Exec α) : Bench α := fun w =>
  let (result, m) := x.run.run w.machine
  (result, { w with machine := m })

def newObject (v : Value) : Bench Nat := do
  let w ← get
  set { w with objects := w.objects.push v }
  return w.objects.size

def value (id : Nat) : Bench Value := do return (← get).objects.getD id Value.null

def fill (l : ListId) (ids : List Nat) : Bench Unit :=
  modify fun w => { w with contents := (l, ids) :: w.contents.filter (·.1 != l) }

def slots (l : ListId) : Bench (List Nat) := do
  let w ← get
  match w.contents.lookup l with
  | some ids => return ids
  | none =>
    let ids ← (w.machine.store.elements l).toList.mapM newObject
    fill l ids
    return ids

def newList (ids : List Nat) : Bench Nat := do
  let values ← ids.mapM value
  let v ← onMachine (Exec.newList values.toArray)
  if let .list l := v.payload then fill l ids
  newObject v

/-- What is in the slots of lists is not known any more, since a program may have changed it. -/
def forget : Bench Unit := modify fun w => { w with contents := [] }

def move (id : Nat) (s : Span) : Bench Unit := do
  modify fun w => { w with objects := w.objects.modify id (·.place s) }
  let v ← value id
  for (l, ids) in (← get).contents do
    for (other, i) in ids.zipIdx do
      if other = id then onMachine (Exec.updateStore (·.setElement l i v))

def named (name : String) (table : List (String × Nat)) : Bench Nat :=
  match table.lookup name with
  | some id => return id
  | none => throw (.fault (.missingField name))

def keep (name : String) (id : Nat) : Bench Unit :=
  modify fun w => { w with registers := (name, id) :: w.registers }

/-- The object that the root scope binds a name to. Asked for twice, a built-in function is the
same object. -/
def global (name : String) : Bench Nat := do
  let w ← get
  let v := Value.orNull (w.machine.store.bound? Store.root (.text name))
  match w.globals.lookup name, Store.isUntouched v (.text name) with
  | some id, true => return id
  | _, untouched =>
    let id ← newObject v
    if untouched then modify fun w => { w with globals := (name, id) :: w.globals }
    return id

def runSource (text : String) : Bench Value := do
  let w ← get
  let (outcome, m) := w.machine.runSource w.limits text Shell.fileName
  set { w with machine := m }
  forget
  match outcome with
  | .value v => return Value.orNull v
  | .failure d => throw (.failure d)
  | .exit code => throw (.exit code)
  | .fault f => throw (.fault f)
  | .exhausted => throw .exhausted
  | .endless => throw .endless

mutual

def object : Term → Bench Nat
  | .register name => do named name (← get).registers
  | .number x => newObject (Value.number x)
  | .text s => newObject (Value.text s)
  | .datum j => newObject (Value.unplaced (.datum j))
  | .list items => do newList (← objects items)
  | .null => newObject Value.null
  | .base => newObject (Value.unplaced .base)
  | .global name => global name
  | .source text => do newObject (← runSource text)
  | .placed t start stop => do
    let id ← object t
    move id (Span.make start stop)
    return id

def objects : List Term → Bench (List Nat)
  | [] => return []
  | t :: ts => do
    let id ← object t
    return id :: (← objects ts)

end

def content (v : Value) : Bench Answer := do
  match v.payload with
  | .number x => return .content (.float x)
  | .text s => return .content (.text s)
  | .datum j => return .content j
  | .list l => do return .elements ((← get).machine.store.elements l).toList
  | _ => return .content .null

def holds (v : Value) : Bench Bool := onMachine (Exec.holds v)

/-- Applies an operator. The logical operators give one of the operands, if not zero. -/
def operate (o : Operator) (a b : Nat) : Bench Answer := do
  let v ← value a
  let w ← value b
  match o with
  | .and => if (← holds v) then if (← holds w) then return .object b
  | .or =>
    if ← holds v then return .object a
    if ← holds w then return .object b
  | .add =>
    if let (.list l, .list m) := (v.payload, w.payload) then
      return .object (← newList ((← slots l) ++ (← slots m)))
  | _ => pure ()
  return .object (← newObject (← onMachine (o.apply v w)))

def needList (v : Value) : Bench ListId :=
  match v.payload with
  | .list l => return l
  | _ => throw (.fault .malformed)

def call (v : Value) (args : List Value) : Bench Answer := do
  let limits := (← get).limits
  let room := limits.stack
  let result ← onMachine (Exec.attempt (Eval.callValue room (evaluate limits.rounds room) v args))
  if let .function _ := v.payload then forget
  match result with
  | .ok v => return .called (.ok v)
  | .error (.failure d) => return .called (.error d)
  | .error e => throw e

def ask (r : Request) (on : Nat) (args : List Nat) : Bench Answer := do
  let v ← value on
  match r, args with
  | .operate o, [b] => operate o on b
  | .negate, [] => return .object (← newObject (← onMachine (Exec.ofDocument v.negation)))
  | .isTrue, [] => return .truth (← holds v)
  | .content, [] => content v
  | .copy, [] => return .object (← newObject (← onMachine (Exec.ofExcept (v.copyTo v.span))))
  | .access, [i] => do
    let l ← needList v
    let ids ← slots l
    let i ← onMachine (Exec.ofExcept (Value.checkIndex ids.length (ids.length - 1) (← value i)))
    return .object (ids.getD i on)
  | .access, [i, j] => do
    let l ← needList v
    let ids ← slots l
    let (i, j) ← onMachine (Exec.ofExcept (Value.checkSlice ids.length (← value i) (← value j)))
    return .object (← newList ((ids.take j).drop i))
  | .assign, [i, x] => do
    let l ← needList v
    let ids ← slots l
    let i ← onMachine (Exec.ofExcept (Value.checkIndex ids.length (ids.length - 1) (← value i)))
    onMachine (Exec.updateStore (·.setElement l i (← value x)))
    fill l (ids.set i x)
    return .object x
  | .call, args => do call v (← args.mapM value)
  | _, _ => throw (.fault .malformed)

/-- Makes a scope, below another one if `parent` names one. -/
def newScope (key name : String) (parent : Option String) : Bench Scope := do
  let parent ← parent.mapM fun p => do named p (← get).scopes
  let scope : Scope := ⟨name, parent, []⟩
  let id ← onMachine (Exec.newScope scope)
  modify fun w => { w with scopes := (key, id) :: w.scopes }
  return scope

def scope (key : String) : Bench ScopeId := do named key (← get).scopes

end Bench

end Lumen
