import Lumen.Decimal.Layout
import Lumen.Text.Quoted

/-!
# Scalars

The simple contents of a token and of a document: nothing, a truth value, an integer, a double or
a text. Integers and doubles are told apart, since a document writes them differently.
-/

namespace Lumen

inductive Scalar where
  | null
  | bool (b : Bool)
  | int (i : Int)
  | float (x : Float)
  | text (s : String)
deriving DecidableEq, Inhabited

namespace Scalar

def typeName : Scalar → String
  | null => "NoneType"
  | bool _ => "bool"
  | int _ => "int"
  | float _ => "float"
  | text _ => "str"

def display : Scalar → String
  | null => "None"
  | bool true => "True"
  | bool false => "False"
  | int i => toString i
  | float x => Decimal.floatText x
  | text s => s

def displayQuoted : Scalar → String
  | text s => Text.quoted s
  | s => s.display

/-- The integer that a truth value or an integer stands for. -/
def integer? : Scalar → Option Int
  | bool b => some (if b then 1 else 0)
  | int i => some i
  | _ => none

def text? : Scalar → Option String
  | text s => some s
  | _ => none

def sameNumber (i : Int) (x : Float) : Bool :=
  Double.isWhole x && Double.truncate x == i

/-- Equality across the kinds of number; a truth value equals zero or one. -/
def equals : Scalar → Scalar → Bool
  | null, null => true
  | text s, text t => s == t
  | float x, float y => x == y
  | float x, b => b.integer?.any (sameNumber · x)
  | a, float y => a.integer?.any (sameNumber · y)
  | a, b =>
    match a.integer?, b.integer? with
    | some i, some j => i == j
    | _, _ => false

def intBelow (i : Int) (x : Float) : Bool :=
  if x.isFinite then
    let t := Double.truncate x
    i < t || (i == t && x > 0 && !Double.isWhole x)
  else x > 0

def belowInt (x : Float) (i : Int) : Bool :=
  if x.isFinite then
    let t := Double.truncate x
    t < i || (t == i && x < 0 && !Double.isWhole x)
  else x < 0

/-- The order of numbers across their kinds, and of texts. No other two scalars have one. -/
def below? : Scalar → Scalar → Option Bool
  | text s, text t => some (s < t)
  | float x, float y => some (x < y)
  | float x, b => b.integer?.map (belowInt x)
  | a, float y => a.integer?.map (intBelow · y)
  | a, b => do
    let i ← a.integer?
    let j ← b.integer?
    some (i < j)

/-- What the scalar is as a name: numbers and truth values that are equal are one name. -/
def key : Scalar → Scalar
  | bool b => int (if b then 1 else 0)
  | float x => if Double.isWhole x then int (Double.truncate x) else float x
  | s => s

/-- A condition on a scalar holds for all but nothing, zero and the empty text. -/
def truthy : Scalar → Bool
  | null => false
  | bool b => b
  | int i => i != 0
  | float x => x != 0
  | text s => s != ""

def isText (a : Scalar) (s : String) : Bool :=
  match a with
  | text t => t == s
  | _ => false

@[simp] theorem isText_text (t s : String) : (text t).isText s = (t == s) := rfl

@[simp] theorem isText_null (s : String) : null.isText s = false := rfl

@[simp] theorem key_text (s : String) : (text s).key = text s := rfl

end Scalar

end Lumen
