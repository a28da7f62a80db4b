import Lumen.Json
import Lumen.Operator

/-!
# Arithmetic of documents

What can be computed with the parts of a document as they stand: numbers are added, multiplied and
ordered across their kinds, lists are joined, repeated and ordered by their first difference.
-/

namespace Lumen.Json

def length? : Json → Option Nat
  | scalar (.text s) => some s.length
  | scalar _ => none
  | list items => some items.length
  | object fields => some fields.length

def asFloat (i : Int) : Except Fault Float :=
  if (Float.ofInt i).isInf then .error .integerTooLarge else .ok (Float.ofInt i)

def plus (a b : Json) : Except Fault Json :=
  match a, b with
  | scalar (.text s), scalar (.text t) => .ok (text (s ++ t))
  | scalar (.text _), b => .error (.notJoined "str" b.typeName)
  | list xs, list ys => .ok (list (xs ++ ys))
  | list _, b => .error (.notJoined "list" b.typeName)
  | scalar (.float x), scalar (.float y) => .ok (float (x + y))
  | scalar x, scalar y =>
    match x, x.integer?, y, y.integer? with
    | _, some i, _, some j => .ok (int (i + j))
    | .float x, _, _, some j => do return float (x + (← asFloat j))
    | _, some i, .float y, _ => do return float ((← asFloat i) + y)
    | _, _, _, _ => .error (.operandTypes "+" a.typeName b.typeName)
  | a, b => .error (.operandTypes "+" a.typeName b.typeName)

/-- A number times an integer, or a list again and again. -/
def times (a : Json) (n : Int) : Except Fault Json :=
  match a with
  | scalar (.float x) => do return float (x * (← asFloat n))
  | list xs => .ok (list (List.replicate n.toNat xs).flatten)
  | scalar x =>
    match x.integer? with
    | some i => .ok (int (i * n))
    | none => .error (.operandTypes "*" a.typeName "int")
  | a => .error (.operandTypes "*" a.typeName "int")

mutual

/-- The same data: numbers by their values, objects whatever the order of their fields. -/
def same : Json → Json → Bool
  | scalar x, scalar y => x.equals y
  | list xs, list ys => sameItems xs ys
  | object fs, object gs => fs.length == gs.length && sameFields fs gs
  | _, _ => false

def sameItems : List Json → List Json → Bool
  | [], [] => true
  | x :: xs, y :: ys => same x y && sameItems xs ys
  | _, _ => false

/-- Each of the first fields is among the second ones. -/
def sameFields : List (String × Json) → List (String × Json) → Bool
  | [], _ => true
  | (key, x) :: fs, gs => (gs.lookup key).any (same x) && sameFields fs gs

end

def compared (o : Operator) (below above equal : Bool) : Bool :=
  match o with
  | .lt => below
  | .le => below || equal
  | .gt => above
  | .ge => above || equal
  | _ => false

mutual

def ordered (o : Operator) (a b : Json) : Except Fault Bool :=
  match a, b with
  | scalar x, scalar y =>
    match x.below? y, y.below? x with
    | some below, some above => .ok (compared o below above (x.equals y))
    | _, _ => .error (.unordered o.symbol x.typeName y.typeName)
  | list xs, list ys => orderedItems o xs ys
  | a, b => .error (.unordered o.symbol a.typeName b.typeName)

/-- The first two items that differ decide, or else the lengths. -/
def orderedItems (o : Operator) : List Json → List Json → Except Fault Bool
  | x :: xs, y :: ys => if same x y then orderedItems o xs ys else ordered o x y
  | xs, ys => .ok (compared o (xs.isEmpty && !ys.isEmpty) (!xs.isEmpty && ys.isEmpty)
      (xs.isEmpty && ys.isEmpty))

end

end Lumen.Json
