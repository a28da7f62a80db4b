import Lumen.Fault
import Lumen.Scalar

/-!
# Documents

JSON documents as data. An integer and a double stay apart, and the fields of an object keep the
order in which they were written.
-/

namespace Lumen

inductive Json where
  | scalar (s : Scalar)
  | list (items : List Json)
  | object (fields : List (String × Json))
deriving Inhabited

namespace Json

def null : Json := scalar .null
def bool (b : Bool) : Json := scalar (.bool b)
def int (i : Int) : Json := scalar (.int i)
def float (x : Float) : Json := scalar (.float x)
def text (s : String) : Json := scalar (.text s)

def typeName : Json → String
  | scalar s => s.typeName
  | list _ => "list"
  | object _ => "dict"

def field? (j : Json) (key : String) : Option Json :=
  match j with
  | object fields => fields.lookup key
  | _ => none

def scalar? : Json → Option Scalar
  | scalar s => some s
  | _ => none

def need (j : Json) (key : String) : Except Fault Json :=
  match j with
  | object fields =>
    match fields.lookup key with
    | some v => .ok v
    | none => .error (.missingField key)
  | j => .error (.notAnObject j.typeName)

/-- Adds a field or, if there is one of that name, replaces it where it stands. -/
def putField (key : String) (value : Json) : List (String × Json) → List (String × Json)
  | [] => [(key, value)]
  | (k, v) :: rest => if k = key then (k, value) :: rest else (k, v) :: putField key value rest

mutual

def displayQuoted : Json → String
  | scalar s => s.displayQuoted
  | list items => "[" ++ String.intercalate ", " (displayItems items) ++ "]"
  | object fields => "\x7b" ++ String.intercalate ", " (displayFields fields) ++ "\x7d"

def displayItems : List Json → List String
  | [] => []
  | j :: js => displayQuoted j :: displayItems js

def displayFields : List (String × Json) → List String
  | [] => []
  | (key, j) :: rest => (Text.quoted key ++ ": " ++ displayQuoted j) :: displayFields rest

end

def display : Json → String
  | scalar s => s.display
  | j => j.displayQuoted

end Json

end Lumen
