import Lumen.Tree

/-!
# Reading a program document

What evaluation asks the parts of a document for. A part is asked for a field by its name, whatever
kind of node it is, and what has no such field is at fault. Nothing is asked for before it is
needed, so a document may be wrong wherever its program does not get.
-/

namespace Lumen.Tree

def isNull : Tree → Bool
  | scalar .null => true
  | _ => false

def truthy : Tree → Bool
  | scalar s => s.truthy
  | list items => !items.isEmpty
  | _ => true

/-- The parts of a list; a text is a list of its characters. -/
def items : Tree → Except Fault (List Tree)
  | list items => .ok items
  | scalar (.text s) => .ok (s.toList.map fun c => scalar (.text c.toString))
  | t => .error (.notAList t.typeName)

/-- The value of a token. Nodes that have a field of that name give it too. -/
def value : Tree → Except Fault Json
  | token _ v _ _ => .ok v
  | node .assign [_, v] | node .assignIndex [_, _, v] | node .giveBack [v, _, _] => .ok v.toJson
  | _ => .error .malformed

def name (t : Tree) : Except Fault Scalar :=
  match t.value with
  | .ok (.scalar s) => .ok s
  | .ok j => .error (.notAName j.typeName)
  | .error e => .error e

def condition : Tree → Except Fault Tree
  | node .guarded [c, _] | node .ternary [c, _, _] | node .whileLoop [c, _, _, _] => .ok c
  | _ => .error .malformed

def body : Tree → Except Fault Tree
  | node .guarded [_, b] | node .whileLoop [_, b, _, _] => .ok b
  | _ => .error .malformed

def mark : Tree → Mark
  | scalar .null => .none
  | position p => p.toMark
  | _ => .other

mutual

/-- Where the text of a part starts. A node that does not say so starts with its first part. -/
def start : Tree → Except Fault Mark
  | token _ _ p _ => .ok p.toMark
  | node kind fields =>
    match kind, fields with
    | .list, [_, p, _] | .block, [_, p, _] | .conditional, [_, _, p, _]
    | .forLoop, [_, _, _, _, _, p, _] | .eachLoop, [_, _, _, p, _] | .whileLoop, [_, _, p, _]
    | .function, [_, _, _, _, p, _] | .giveBack, [_, p, _] => .ok p.mark
    | .guarded, _ => .error .malformed
    | _, fields => firstStart fields
  | _ => .error .malformed

def firstStart : List Tree → Except Fault Mark
  | [] => .error .malformed
  | t :: _ => t.start

end

mutual

def stop : Tree → Except Fault Mark
  | token _ _ _ q => .ok q.toMark
  | node kind fields =>
    match kind, fields with
    | .list, [_, _, q] | .block, [_, _, q] | .conditional, [_, _, _, q]
    | .forLoop, [_, _, _, _, _, _, q] | .eachLoop, [_, _, _, _, q] | .whileLoop, [_, _, _, q]
    | .function, [_, _, _, _, _, q] | .giveBack, [_, _, q] | .index, [_, _, _, q]
    | .call, [_, _, q] => .ok q.mark
    | .guarded, _ => .error .malformed
    | _, fields => lastStop fields
  | _ => .error .malformed

def lastStop : List Tree → Except Fault Mark
  | [] => .error .malformed
  | [t] => t.stop
  | _ :: ts => lastStop ts

end

def span (t : Tree) : Except Fault Span := do
  let start ← t.start
  let stop ← t.stop
  Span.join start stop

end Lumen.Tree
