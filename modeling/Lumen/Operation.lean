import Lumen.Machine
import Lumen.Text.Blank
import Lumen.Text.Case

/-!
# What values can do

The operators on values, and reading and writing the elements of a list. Equality, truth and the
logical operators are defined on all values; the others refuse operands that they make no sense
for, each at the operand that is to blame.
-/

namespace Lumen

namespace Value

def refuse {α : Type} (c : Complaint) (v : Value) : Except Stop α :=
  .error (.failure (Diagnostic.onSpan c v.span))

def needNumber (v : Value) : Except Stop Float :=
  match v.payload with
  | .number x => .ok x
  | _ => refuse .expectedNumber v

def illegal {α : Type} (o : Operator) (v : Value) : Except Stop α :=
  refuse (.illegalOperation o.symbol v.kind) v

def needDivisor (v : Value) : Except Stop Float := do
  let y ← v.needNumber
  if y == 0 then refuse .divisionByZero v else .ok y

/-- The arithmetic of numbers; for the other operators there is none. -/
def numberOperation (o : Operator) (x : Float) (b : Value) : Except Stop Value :=
  match o with
  | .add => do return number (x + (← b.needNumber))
  | .sub => do return number (x - (← b.needNumber))
  | .mul => do return number (x * (← b.needNumber))
  | .div => do return number (x / (← b.needDivisor))
  | .mod => do
    match Double.remainder? x (← b.needDivisor) with
    | some r => .ok (number r)
    | none => .error (.fault .infiniteRemainder)
  | .pow => do return number (Double.power x (← b.needNumber))
  | _ => illegal o (number x)

/-- The counts that fit a machine word with a sign are below this one and not below its negation. -/
def countLimit : Int := 0x8000000000000000

def isBeyondCount (count : Int) : Bool := count < -countLimit || countLimit ≤ count

/-- A text that needs `size` units of room. It is not made before the size is known to fit. -/
def grown (growth : Growth) (size : Nat) (s : Unit → String) : Except Stop Value :=
  if countLimit ≤ size then .error (.fault (.tooLong growth)) else .ok (text (s ()))

/-- Either there is room for the text, or it is too long. -/
theorem grown_cases (growth : Growth) (size : Nat) (s : Unit → String) :
    grown growth size s = .ok (text (s ())) ∨
      grown growth size s = .error (.fault (.tooLong growth)) := by
  unfold grown
  split
  · exact .inr rfl
  · exact .inl rfl

/-- A text again and again; a negative count makes none. -/
def repeated (s : String) (count : Int) : Except Stop Value :=
  if isBeyondCount count then .error (.fault .repeatCount)
  else if s = "" then .ok (text "")
  else
    grown .repetition (s.length * count.toNat) fun _ =>
      String.join (List.replicate count.toNat s)

/-- Texts are joined and repeated. -/
def textOperation (o : Operator) (a : Value) (s : String) (b : Value) : Except Stop Value :=
  match o with
  | .add =>
    match b.payload with
    | .text t => grown .concatenation (s.length + t.length) fun _ => s ++ t
    | _ => refuse .textConcatenation b
  | .mul => do
    let y ← b.needNumber
    if y.isFinite then repeated s (Double.truncate y) else refuse .expectedFinite b
  | _ => illegal o a

def arithmetic (o : Operator) (a b : Value) : Except Stop Value :=
  match a.payload with
  | .number x => numberOperation o x b
  | .text s => textOperation o a s b
  | .list _ => if o = .add then refuse .listConcatenation a else illegal o a
  | _ => illegal o a

/-- Refuses at what lies from the start of one value to the end of another. -/
def refuseBetween {α : Type} (c : Complaint) (a b : Value) : Except Stop α :=
  match Span.join a.span.start b.span.stop with
  | .ok s => .error (.failure (Diagnostic.onSpan c s))
  | .error f => .error (.fault f)

/-- Refuses to order two values, at both or, if they are of one kind, at the left one. -/
def incomparable {α : Type} (a b : Value) : Except Stop α :=
  let c := Complaint.incomparable a.kind b.kind
  if a.kind = b.kind then refuse c a else refuseBetween c a b

def ordered (numbers : Float → Float → Bool) (texts : String → String → Bool) (a b : Value) :
    Except Stop Value :=
  match a.payload, b.payload with
  | .number x, .number y => .ok (ofBool (numbers x y))
  | .text s, .text t => .ok (ofBool (texts s t))
  | _, _ => incomparable a b

def equals (a b : Value) : Value := ofBool (a.payload.equals b.payload)

def differs (a b : Value) : Value := ofBool (!a.payload.equals b.payload)

def both (a b : Value) : Value := if a.isTrue && b.isTrue then b else ofBool false

def either (a b : Value) : Value :=
  if a.isTrue then a else if b.isTrue then b else ofBool false

def operate (o : Operator) (a b : Value) : Except Stop Value :=
  match o with
  | .eq => .ok (equals a b)
  | .ne => .ok (differs a b)
  | .gt => ordered (fun x y => x > y) (fun s t => t < s) a b
  | .ge => ordered (fun x y => x ≥ y) (fun s t => t ≤ s) a b
  | .lt => ordered (fun x y => x < y) (fun s t => s < t) a b
  | .le => ordered (fun x y => x ≤ y) (fun s t => s ≤ t) a b
  | .and => .ok (both a b)
  | .or => .ok (either a b)
  | o => arithmetic o a b

/-- The truth of a value as a condition. What is no text has none without a length. -/
def truth (a : Value) : Except Fault Bool :=
  match a.payload with
  | .datum j =>
    match j.length? with
    | some n => .ok (n != 0)
    | none => .error (.noLength j.typeName)
  | p => .ok p.isTrue

def negation (a : Value) : Except Fault Value := do return ofBool (!(← a.truth))

def repeatedData (j : Json) (count : Int) : Except Fault Json :=
  match j with
  | .list _ => if isBeyondCount count then .error .repeatCount else j.times count
  | j => j.times count

def operateData (o : Operator) (a b : Value) : Except Stop Value :=
  let data (r : Except Fault Json) : Except Stop Value :=
    (r.mapError Stop.fault).map fun j => unplaced (.datum j)
  let logical (r : Except Fault Value) : Except Stop Value := r.mapError Stop.fault
  match o, a.payload, a.payload.data?, b.payload.data? with
  | .and, _, _, _ => logical do
    if ← a.truth then
      if ← b.truth then return b
    return ofBool false
  | .or, _, _, _ => logical do
    if ← a.truth then return a
    if ← b.truth then return b
    return ofBool false
  | .eq, _, some x, some y => .ok (ofBool (x.same y))
  | .ne, _, some x, some y => .ok (ofBool (!x.same y))
  | .add, _, some x, some y => data (x.plus y)
  | .gt, _, some x, some y | .ge, _, some x, some y | .lt, _, some x, some y
  | .le, _, some x, some y => ((x.ordered o y).mapError Stop.fault).map ofBool
  | .add, .datum _, _, _ => refuse .textConcatenation b
  | .mul, .datum x, _, _ => do
    let y ← b.needNumber
    if y.isFinite then data (repeatedData x (Double.truncate y)) else refuse .expectedFinite b
  | o, _, _, _ => a.operate o b

def copyTo (v : Value) (s : Span) : Except Stop Value :=
  match v.payload with
  | .base => .error (.fault .notCopyable)
  | p => .ok ⟨p, s⟩

/-- The position that an index names, which may not be beyond `upper`. -/
def checkIndex (length : Nat) (upper : Int) (index : Value) : Except Stop Nat :=
  match index.payload with
  | .number x =>
    if x.isFinite then
      let i := Double.truncate x
      if i < 0 ∨ upper < i then refuse (.indexOutOfRange i length) index else .ok i.toNat
    else refuse .expectedNumber index
  | _ => refuse .expectedNumber index

/-- The two positions that a slice goes from and to. -/
def checkSlice (length : Nat) (index upTo : Value) : Except Stop (Nat × Nat) := do
  let start ← checkIndex length (length - 1) index
  let stop ← checkIndex length length upTo
  if stop < start then refuseBetween (.invalidSlice start stop) index upTo
  else .ok (start, stop)

end Value

namespace Operator

/-- Applies an operator. Two lists are joined to a new one. -/
def apply (o : Operator) (a b : Value) : Exec Value :=
  match o, a.payload, b.payload with
  | .add, .list l, .list m => do
    let s ← Exec.store
    Exec.newList (s.elements l ++ s.elements m)
  | o, p, q => Exec.ofExcept (if p.isDatum || q.isDatum then a.operateData o b else a.operate o b)

end Operator

namespace Exec

def holds (v : Value) : Exec Bool := ofDocument v.truth

def access (l : ListId) (index : Value) (upTo : Option Value) : Exec Value := do
  let elements := (← store).elements l
  match upTo with
  | none =>
    let i ← ofExcept (Value.checkIndex elements.size (elements.size - 1) index)
    return elements.getD i Value.null
  | some upTo =>
    let (start, stop) ← ofExcept (Value.checkSlice elements.size index upTo)
    newList (elements.extract start stop)

def assign (l : ListId) (index value : Value) : Exec Unit := do
  let size := ((← store).elements l).size
  let i ← ofExcept (Value.checkIndex size (size - 1) index)
  updateStore (·.setElement l i value)

end Exec

end Lumen
