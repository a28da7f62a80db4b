import Lumen.Diagnostic
import Lumen.Fault
import Lumen.Store.Display

/-!
# The state of a run

A machine is the store of a program together with what it has still to read, what it has printed
and what the trace says. Actions on a machine keep its state whatever way they end.
-/

namespace Lumen

/-- How much nesting a run may use. Nothing of a program's behaviour depends on the numbers but
whether it is refused for being nested too deep. -/
structure Limits where
  /-- How deep phrases may nest in a source. -/
  nesting : Nat
  /-- How deep evaluation may nest, and a document that is read. -/
  stack : Nat
  /-- How often a loop may go round. -/
  rounds : Nat

namespace Limits

def standard : Limits := ⟨450, 450, 1000000000000000000⟩

end Limits

structure Machine where
  store : Store
  /-- What is left to read. -/
  input : List Char
  /-- What has been printed. -/
  output : String
  /-- The lines of the trace. -/
  trace : Array String
  /-- The trace has the messages up to this level. -/
  verbosity : Nat

namespace Machine

def initial (input : String) (verbosity : Nat) : Machine :=
  ⟨Store.initial, input.toList, "", #[], verbosity⟩

def traceText (m : Machine) : String := String.join (m.trace.toList.map (· ++ "\n"))

def print (m : Machine) (s : String) : Machine := { m with output := m.output ++ s }

/-- The next line of the input without its end. Behind the last line there are empty ones. -/
def nextLine (m : Machine) : String := String.ofList (m.input.takeWhile (· != '\n'))

def dropLine (m : Machine) : Machine :=
  { m with input := (m.input.dropWhile (· != '\n')).drop 1 }

/-- Adds a line to the trace if the trace goes down to its level. -/
def note (m : Machine) (level : Nat) (message : Unit → String) : Machine :=
  if level ≤ m.verbosity then { m with trace := m.trace.push (message ()) } else m

end Machine

/-- Why evaluation does not go on to the next step. -/
inductive Stop where
  /-- The function gives back a value. -/
  | giveBack (v : Value)
  | breakLoop
  | continueLoop
  | failure (d : Diagnostic)
  /-- The program ends the whole run. -/
  | exit (code : Int)
  | fault (f : Fault)
  /-- Evaluation is nested deeper than allowed. -/
  | exhausted
  /-- A loop went round more often than allowed. -/
  | endless

/-- What has no text for want of room ends evaluation like everything that is nested too deep. -/
def Stop.ofObstacle : Obstacle → Stop
  | .tooDeep => exhausted
  | .fault f => fault f

/-- An action on a machine. -/
abbrev Exec (α : Type) := ExceptT Stop (StateM Machine) α

namespace Exec

variable {α : Type}

def attempt (x : Exec α) : Exec (Except Stop α) := ExceptT.lift x.run

def ofExcept (x : Except Stop α) : Exec α := ExceptT.mk (pure x)

def ofDocument (x : Except Fault α) : Exec α := ofExcept (x.mapError .fault)

def update (f : Machine → Machine) : Exec Unit := modify f

def updateStore (f : Store → Store) : Exec Unit :=
  modify fun m => { m with store := f m.store }

def store : Exec Store := do return (← get).store

def fail (d : Diagnostic) : Exec α := throw (.failure d)

def located (s : Except Fault Span) (x : Exec α) : Exec α := do
  match ← attempt x with
  | .ok a => return a
  | .error (.failure d) =>
    if d.isUnplaced then fail (Diagnostic.onSpan d.complaint (← ofDocument s)) else fail d
  | .error e => throw e

def newList (elements : Array Value) : Exec Value :=
  modifyGet fun m =>
    (Value.unplaced (.list m.store.nextList), { m with store := m.store.addList elements })

def newScope (scope : Scope) : Exec ScopeId :=
  modifyGet fun m => (m.store.nextScope, { m with store := m.store.addScope scope })

/-- The text of a value, for which there has to be room. -/
def text (form : Form) (room : Nat) (v : Value) : Exec String := do
  match (← store).text? form room v with
  | .ok s => return s
  | .error o => throw (.ofObstacle o)

def note (level : Nat) (message : Unit → String) : Exec Unit := update (·.note level message)

/-- Adds a message about a value to the trace. The value's text needs room even where the trace
leaves the message out. -/
def noteValue (room level : Nat) (v : Value) (message : String → String) : Exec Unit := do
  let s ← store
  match s.obstacle? .written room v with
  | none => note level fun _ => message (s.textWithin .written room v)
  | some o => throw (.ofObstacle o)

end Exec

end Lumen
