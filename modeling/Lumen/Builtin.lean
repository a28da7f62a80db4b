import Lumen.Operation

/-!
# Built-in functions

Printing and reading, measures and changes of texts and lists, and the end of the run. A list that
comes out is always a new one.
-/

namespace Lumen

namespace Builtin

/-- Refuses a call as a whole; the call gives the place. -/
def refuse {α : Type} (c : Complaint) : Exec α := Exec.fail (Diagnostic.unplaced c)

def refuseAt {α : Type} (c : Complaint) (v : Value) : Exec α :=
  Exec.fail (Diagnostic.onSpan c v.span)

def needData (b : Builtin) (v : Value) : Exec Json :=
  match v.payload.data? with
  | some j => return j
  | none => refuseAt (.onlyTexts b.name) v

def needText (b : Builtin) (v : Value) : Exec String := do
  match ← needData b v with
  | .scalar (.text s) => return s
  | _ => throw (.fault .malformed)

def needList (b : Builtin) (v : Value) : Exec (Array Value) := do
  match v.payload with
  | .list l => return (← Exec.store).elements l
  | _ => refuseAt (.onlyLists b.name) v

/-- Prints values with blanks between them, all or nothing. -/
def printValues (room : Nat) (args : List Value) (ending : String) : Exec Unit := do
  let texts ← args.mapM (Exec.text .printed room)
  Exec.update (·.print (String.intercalate " " texts ++ ending))

def readLine (prompt : Json) : Exec Value := do
  match prompt with
  | .scalar (.text s) => Exec.update (·.print s)
  | j => throw (.fault (.prompt j.typeName))
  let line := (← get).nextLine
  Exec.update Machine.dropLine
  return Value.text line

def replaceFrom (old new : List Char) : (fuel : Nat) → List Char → List Char
  | 0, cs => cs
  | _, [] => []
  | fuel + 1, c :: cs =>
    if old.isPrefixOf (c :: cs) then new ++ replaceFrom old new fuel ((c :: cs).drop old.length)
    else c :: replaceFrom old new fuel cs

/-- The text with `new` for every occurrence of `old`. The empty text occurs before every character
and at the end. -/
def replaceText (s old new : String) : String :=
  let cs := s.toList
  let n := new.toList
  if old = "" then String.ofList (n ++ cs.flatMap fun c => c :: n)
  else String.ofList (replaceFrom old.toList n (cs.length + 1) cs)

def countFrom (old : List Char) : (fuel : Nat) → List Char → Nat
  | 0, _ => 0
  | _, [] => 0
  | fuel + 1, c :: cs =>
    if old.isPrefixOf (c :: cs) then countFrom old fuel ((c :: cs).drop old.length) + 1
    else countFrom old fuel cs

def occurrences (s old : String) : Nat :=
  if old = "" then s.length + 1 else countFrom old.toList (s.length + 1) s.toList

def replacedLength (s old new : String) : Nat :=
  s.length + occurrences s old * new.length - occurrences s old * old.length

def charWidth (c : Char) : Nat :=
  if c.val < 0x100 then 1 else if c.val < 0x10000 then 2 else 4

/-- How many bytes each character of a text takes: all are as wide as the widest. -/
def width (s : String) : Nat := s.toList.foldl (fun n c => max n (charWidth c)) 1

/-- The text with `new` for every occurrence of `old`, for which there has to be room unless it
replaces texts of its own length. -/
def replaceIn (s old new : String) : Except Stop Value :=
  if occurrences s old = 0 ∨ old.length = new.length then .ok (Value.text (replaceText s old new))
  else
    Value.grown .replacement (replacedLength s old new * max (width s) (width new))
      fun _ => replaceText s old new

theorem replaceIn_cases (s old new : String) :
    replaceIn s old new = .ok (Value.text (replaceText s old new)) ∨
      replaceIn s old new = .error (.fault (.tooLong .replacement)) := by
  unfold replaceIn
  split
  · exact .inl rfl
  · exact Value.grown_cases _ _ _

/-- A text with other letters. There has to be room for three characters of four bytes in place of
each, unless all are plain. -/
def changeCase (map : String → String) (s : String) : Except Stop Value :=
  if s.toList.all (·.val < 0x80) then .ok (Value.text (map s))
  else Value.grown .caseMapping (12 * s.length) fun _ => map s

theorem changeCase_cases (map : String → String) (s : String) :
    changeCase map s = .ok (Value.text (map s)) ∨
      changeCase map s = .error (.fault (.tooLong .caseMapping)) := by
  unfold changeCase
  split
  · exact .inl rfl
  · exact Value.grown_cases _ _ _

def replacement (argument : Nat) : Json → Exec String
  | .scalar (.text s) => return s
  | j => throw (.fault (.replacement argument j.typeName))

/-- All three arguments have to be texts before one is looked at. -/
def replaced (s old new : Value) : Exec Value := do
  let s ← needData replace s
  let old ← needData replace old
  let new ← needData replace new
  match s with
  | .scalar (.text s) => do
    let old ← replacement 1 old
    let new ← replacement 2 new
    Exec.ofExcept (replaceIn s old new)
  | _ => throw (.fault .malformed)

def exitCode : List Value → Exec Int
  | [] => return 0
  | [v] =>
    match v.payload with
    | .number x => if x.isFinite then return Double.truncate x else refuseAt .exitNotFinite v
    | _ => refuseAt .exitNotNumber v
  | args => refuse (.tooManyArguments exit.name args.length)

def run (room : Nat) (b : Builtin) (args : List Value) : Exec Value :=
  match b, args with
  | print, args => do
    printValues room args ""
    return Value.null
  | println, args => do
    printValues room args "\n"
    return Value.null
  | scan, [] => readLine (.text "> ")
  | scan, [v] => do readLine (← needData scan v)
  | scan, args => refuse (.tooManyArguments scan.name args.length)
  | len, [v] => do
    match v.payload with
    | .list l => return Value.number (Float.ofNat ((← Exec.store).elements l).size)
    | .text s => return Value.number (Float.ofNat s.length)
    | .datum j =>
      match j.length? with
      | some n => return Value.number (Float.ofNat n)
      | none => throw (.fault (.noLength j.typeName))
    | _ => refuseAt (.onlyTextsOrLists len.name) v
  | trim, [v] => do return Value.text (Text.trim (← needText trim v))
  | upper, [v] => do Exec.ofExcept (changeCase Text.upper (← needText upper v))
  | lower, [v] => do Exec.ofExcept (changeCase Text.lower (← needText lower v))
  | replace, [s, old, new] => replaced s old new
  | append, v :: w :: rest => do
    let elements ← needList append v
    Exec.newList (elements ++ (w :: rest))
  | append, _ => refuse (.tooFewArguments append.name)
  | prepend, v :: w :: rest => do
    let elements ← needList prepend v
    Exec.newList ((w :: rest).toArray ++ elements)
  | prepend, _ => refuse (.tooFewArguments prepend.name)
  | shift, [v] => do
    let elements ← needList shift v
    if elements.isEmpty then refuseAt (.emptyList shift.name) v
    else Exec.newList (elements.extract 1 elements.size)
  | pop, [v] => do
    let elements ← needList pop v
    if elements.isEmpty then refuseAt (.emptyList pop.name) v
    else Exec.newList elements.pop
  | exit, args => do
    let code ← exitCode args
    throw (.exit code)
  | b, args => refuse (.argumentCount b.name (b.arity?.getD 0) args.length)

def call (room : Nat) (b : Builtin) (place : Span) (args : List Value) : Exec Value :=
  match b.arity? with
  | some n =>
    if args.length = n then run room b args
    else Exec.fail (Diagnostic.onSpan (.argumentCount b.name n args.length) place)
  | none => run room b args

end Builtin

end Lumen
