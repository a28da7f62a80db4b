import Lumen.Tree
import Lumen.Value.Kind

/-!
# Values

What a program computes with. A list is a reference to its elements in the store, so all copies of
a list share them; a function keeps the scope in which it was defined.
-/

namespace Lumen

/-- A scope of the store. -/
abbrev ScopeId := Nat

/-- The elements of a list in the store. -/
abbrev ListId := Nat

/-- The functions that every program finds. -/
inductive Builtin where
  | print | println | scan | len | trim | upper | lower | replace | append | prepend | shift | pop
  | exit
deriving DecidableEq, Repr

namespace Builtin

def all : List Builtin :=
  [print, println, scan, len, trim, upper, lower, replace, append, prepend, shift, pop, exit]

def name : Builtin → String
  | print => "print"
  | println => "println"
  | scan => "scan"
  | len => "len"
  | trim => "trim"
  | upper => "upper"
  | lower => "lower"
  | replace => "replace"
  | append => "append"
  | prepend => "prepend"
  | shift => "shift"
  | pop => "pop"
  | exit => "exit"

def arity? : Builtin → Option Nat
  | len | trim | upper | lower | shift | pop => some 1
  | replace => some 3
  | print | println | scan | append | prepend | exit => none

theorem mem_all (b : Builtin) : b ∈ all := by cases b <;> decide

end Builtin

/-- A function of the program with the scope in which it was defined. -/
structure Closure where
  /-- Null, if the function has no name. -/
  name : Scalar
  params : List String
  body : Tree
  /-- The body is an expression whose value the function gives back. -/
  isExpression : Bool
  scope : ScopeId

namespace Closure

def displayName (f : Closure) : String :=
  if f.name.truthy then f.name.display else "<anonymous>"

end Closure

/-- A value without its place. -/
inductive Payload where
  | number (x : Float)
  | text (s : String)
  /-- What a document holds in the place of a text. It is a text to all who do not look at it. -/
  | datum (j : Json)
  | list (id : ListId)
  | null
  | function (f : Closure)
  | builtin (b : Builtin)
  | base

/-- A value and the part of the source that it comes from. -/
structure Value where
  payload : Payload
  span : Span

namespace Payload

def kind : Payload → Value.Kind
  | number _ => .number
  | text _ | datum _ => .text
  | list _ => .list
  | null => .null
  | function _ => .function
  | builtin _ => .builtin
  | base => .base

/-- A condition holds for all but null, zero and the empty text. -/
def isTrue : Payload → Bool
  | number x => x != 0
  | text s => s != ""
  | null => false
  | _ => true

/-- Two numbers, two texts or two nulls may be equal; nothing else is equal to anything. -/
def equals : Payload → Payload → Bool
  | number x, number y => x == y
  | text s, text t => s == t
  | null, null => true
  | _, _ => false

def isNumber : Payload → Bool
  | number _ => true
  | _ => false

def data? : Payload → Option Json
  | text s => some (.text s)
  | datum j => some j
  | _ => none

def isDatum : Payload → Bool
  | datum _ => true
  | _ => false

end Payload

namespace Value

def unplaced (p : Payload) : Value := ⟨p, Span.none⟩

def number (x : Float) : Value := unplaced (.number x)

def text (s : String) : Value := unplaced (.text s)

def null : Value := unplaced .null

/-- Truth as a number. -/
def ofBool (b : Bool) : Value := number (if b then 1 else 0)

def kind (v : Value) : Kind := v.payload.kind

def isTrue (v : Value) : Bool := v.payload.isTrue

def place (v : Value) (s : Span) : Value := ⟨v.payload, s⟩

/-- What has no value reads as null where a value is needed. -/
def orNull (v : Option Value) : Value := v.getD null

@[simp] theorem orNull_none : orNull none = null := rfl

@[simp] theorem orNull_some (v : Value) : orNull (some v) = v := rfl

end Value

instance : Inhabited Value := ⟨Value.null⟩

end Lumen
