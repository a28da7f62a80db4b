import Lumen.Store

/-!
# Values as text

Two forms of a value: as a program prints it, and as a program would write it, with quotes around
texts. A list shows its elements, so the text of a list that holds itself would not end; such a
value has no text, whatever room there is for nesting. Nor has a text that holds something else.
-/

namespace Lumen

/-- How texts are shown. -/
inductive Form where
  /-- As they are. -/
  | printed
  /-- Between quotes. -/
  | written
deriving DecidableEq, Repr

/-- A text between quotes, so that the lexer reads it back. -/
def writtenText (s : String) : String :=
  "\"" ++ String.ofList (s.toList.flatMap fun c =>
    if c = '\\' ∨ c = '"' then ['\\', c] else [c]) ++ "\""

/-- Why a value has no text. -/
inductive Obstacle where
  /-- It nests deeper than there is room. -/
  | tooDeep
  | fault (f : Fault)

namespace Store

/-- The first thing that keeps a value from having a text. -/
def obstacle? (s : Store) (form : Form) : (room : Nat) → Value → Option Obstacle
  | 0, _ => some .tooDeep
  | room + 1, v =>
    match v.payload with
    | .list l => (s.elements l).toList.findSome? (s.obstacle? form room)
    | .datum j =>
      match form with
      | .printed => some (.fault (.unprintable j.typeName))
      | .written => some (.fault .malformed)
    | _ => none

/-- The text of a value. What lies deeper than `room` is left out. -/
def textWithin (s : Store) (form : Form) : (room : Nat) → Value → String
  | 0, _ => ""
  | room + 1, v =>
    match v.payload with
    | .number x => Decimal.numberText x
    | .text t =>
      match form with
      | .printed => t
      | .written => writtenText t
    | .datum j => j.display
    | .list l =>
      "[" ++ String.intercalate ", " ((s.elements l).toList.map (s.textWithin form room)) ++ "]"
    | .null => "null"
    | .function f => "<function " ++ f.displayName ++ ">"
    | .builtin b => "<builtin " ++ b.name ++ ">"
    | .base => "<value>"

def text? (s : Store) (form : Form) (room : Nat) (v : Value) : Except Obstacle String :=
  match s.obstacle? form room v with
  | none => .ok (s.textWithin form room v)
  | some o => .error o

end Store

end Lumen
