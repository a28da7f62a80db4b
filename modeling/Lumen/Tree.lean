import Lumen.Node.Kind
import Lumen.Token

/-!
# Program documents

The form in which a program is written to a document and read back. Here a node is its kind and its
fields in a fixed order, and a field may hold anything that a document can hold: whether it is of
the right shape shows only when the program runs. A document is accepted exactly if every object in
it is a position, a token or a node with all its fields; what else an object holds does not matter.
Reading and writing go down a level at a time and end where there is no room for another.
-/

namespace Lumen

/-- What a program document holds. -/
inductive Tree where
  | scalar (s : Scalar)
  | list (items : List Tree)
  | position (place : Place)
  | token (kind : TokenKind) (value : Json) (start stop : Place)
  | node (kind : NodeKind) (fields : List Tree)
deriving Inhabited

namespace Tree

def typeName : Tree → String
  | scalar s => s.typeName
  | list _ => "list"
  | position _ => "Position"
  | token .. => "Token"
  | node kind _ => kind.name

def tokenKind (j : Json) : Except Fault TokenKind :=
  match j with
  | .scalar s =>
    match s.text?.bind TokenKind.ofName? with
    | some k => .ok k
    | none => .error (.unknownTokenKind s.displayQuoted)
  | j => .error (.notAName j.typeName)

def nodeKind (j : Json) : Except Fault NodeKind :=
  match j with
  | .scalar s =>
    match s.text?.bind NodeKind.ofName? with
    | some k => .ok k
    | none => .error (.unknownNode s.display)
  | j => .error (.notAName j.typeName)

def marker (fields : List (String × Json)) (key : String) : Json := (fields.lookup key).getD .null

def tokenOfJson (fields : List (String × Json)) : Except Fault Tree := do
  let object := Json.object fields
  let kind ← tokenKind (← object.need "kind")
  let value ← object.need "value"
  let start ← Place.ofJson (← object.need "pos_start")
  let stop ← Place.ofJson (← object.need "pos_end")
  .ok (token kind value start stop)

/-- The fields of an object, each read before the next one is asked for. -/
def readFields (read : Json → Except Fault Tree) (object : Json) (keys : List String) :
    Except Fault (List Tree) :=
  keys.mapM fun key => do read (← object.need key)

/-- The program document that a JSON document holds, or the first thing that is wrong with it. There
is room for `depth` levels. -/
def ofJson : (depth : Nat) → Json → Except Fault Tree
  | 0, _ => .error .documentTooDeep
  | _ + 1, .scalar s => .ok (scalar s)
  | depth + 1, .list items => do
    let items ← items.mapM (ofJson depth)
    .ok (list items)
  | depth + 1, .object fields =>
    match marker fields "__type__" with
    | .scalar (.text "Position") => do
      let place ← Place.ofJson (← (Json.object fields).need "value")
      .ok (position place)
    | .scalar (.text "Token") => tokenOfJson fields
    | _ => do
      let kind ← nodeKind (marker fields "type")
      let fields ← readFields (ofJson depth) (.object fields) kind.fields
      .ok (node kind fields)

mutual

def toJson : Tree → Json
  | scalar s => .scalar s
  | list items => .list (toItems items)
  | position place => .object [("__type__", .text "Position"), ("value", place.toJson)]
  | token kind value start stop =>
    .object [("__type__", .text "Token"), ("kind", .text kind.name), ("value", value),
      ("pos_start", start.toJson), ("pos_end", stop.toJson)]
  | node kind fields =>
    .object (("type", .text kind.name) :: kind.fields.zip (toItems fields))

def toItems : List Tree → List Json
  | [] => []
  | t :: ts => toJson t :: toItems ts

end

def write : (depth : Nat) → Tree → Except Fault Json
  | 0, _ => .error .documentTooDeep
  | depth + 1, list items => do
    let items ← items.mapM (write depth)
    .ok (.list items)
  | depth + 1, node kind fields => do
    let fields ← fields.mapM (write depth)
    .ok (.object (("type", .text kind.name) :: kind.fields.zip fields))
  | _ + 1, t => .ok t.toJson

end Tree

end Lumen
