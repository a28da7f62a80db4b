import Lumen.Decimal.Reader
import Lumen.Json

/-!
# Reading documents

The text of a JSON document, read into data. Besides the standard forms the three words for the
doubles that have no digits are read. Of two fields of one name the later counts.
-/

namespace Lumen.Json

/-- What is left to read. -/
abbrev Rest := List Char

def skipBlanks (cs : Rest) : Rest :=
  cs.dropWhile fun c => c == ' ' || c == '\t' || c == '\n' || c == '\r'

def hexValue? (c : Char) : Option Nat :=
  if '0' ≤ c ∧ c ≤ '9' then some (c.toNat - '0'.toNat)
  else if 'a' ≤ c ∧ c ≤ 'f' then some (c.toNat - 'a'.toNat + 10)
  else if 'A' ≤ c ∧ c ≤ 'F' then some (c.toNat - 'A'.toNat + 10)
  else none

def readUnit : Rest → Option (Nat × Rest)
  | a :: b :: c :: d :: cs => do
    let a ← hexValue? a
    let b ← hexValue? b
    let c ← hexValue? c
    let d ← hexValue? d
    some (a * 4096 + b * 256 + c * 16 + d, cs)
  | _ => none

def isHighSurrogate (n : Nat) : Bool := 0xD800 ≤ n && n < 0xDC00

def isLowSurrogate (n : Nat) : Bool := 0xDC00 ≤ n && n < 0xE000

/-- The character behind `\u`. Two surrogates make one character; one alone has no character of
its own and becomes the replacement character. -/
def readEscapedUnit (cs : Rest) : Option (Char × Rest) := do
  let (high, cs) ← readUnit cs
  if isHighSurrogate high then
    match cs with
    | '\\' :: 'u' :: cs' =>
      match readUnit cs' with
      | some (low, cs'') =>
        if isLowSurrogate low then
          some (Char.ofNat (0x10000 + (high - 0xD800) * 0x400 + (low - 0xDC00)), cs'')
        else some ('\ufffd', cs)
      | none => some ('\ufffd', cs)
    | _ => some ('\ufffd', cs)
  else if isLowSurrogate high then some ('\ufffd', cs)
  else some (Char.ofNat high, cs)

def simpleEscape? : Char → Option Char
  | '"' => some '"'
  | '\\' => some '\\'
  | '/' => some '/'
  | 'b' => some '\x08'
  | 'f' => some '\x0c'
  | 'n' => some '\n'
  | 'r' => some '\r'
  | 't' => some '\t'
  | _ => none

/-- The characters up to the closing quote. Every step takes a character, so `fuel` need not be
larger than the text. -/
def readChars : (fuel : Nat) → Rest → Option (List Char × Rest)
  | 0, _ => none
  | _, [] => none
  | fuel + 1, c :: cs =>
    if c = '"' then some ([], cs)
    else if c = '\\' then
      match cs with
      | 'u' :: cs => do
        let (e, cs) ← readEscapedUnit cs
        let (rest, cs) ← readChars fuel cs
        some (e :: rest, cs)
      | e :: cs => do
        let e ← simpleEscape? e
        let (rest, cs) ← readChars fuel cs
        some (e :: rest, cs)
      | [] => none
    else if c.toNat < 0x20 then none
    else do
      let (rest, cs) ← readChars fuel cs
      some (c :: rest, cs)

def readText (fuel : Nat) (cs : Rest) : Option (String × Rest) := do
  let (chars, rest) ← readChars fuel cs
  some (String.ofList chars, rest)

/-- The integer part: a zero alone or digits that start with another. -/
def readIntegerPart : Rest → Option (List Char × Rest)
  | '0' :: cs => some (['0'], cs)
  | cs =>
    let digits := cs.takeWhile Decimal.isDigit
    if digits.isEmpty then none else some (digits, cs.drop digits.length)

/-- The digits behind a point, if a point and a digit stand here. -/
def readFraction (cs : Rest) : List Char × Rest :=
  match cs with
  | '.' :: cs' =>
    let digits := cs'.takeWhile Decimal.isDigit
    if digits.isEmpty then ([], cs) else (digits, cs'.drop digits.length)
  | _ => ([], cs)

def readNumber (cs : Rest) : Option (Scalar × Rest) := do
  let (negative, cs) := match cs with
    | '-' :: cs => (true, cs)
    | cs => (false, cs)
  let (digits, cs) ← readIntegerPart cs
  let (fraction, cs) := readFraction cs
  let exponent := Decimal.readExponent cs
  if fraction.isEmpty && exponent.isNone then
    let n : Int := Decimal.naturalValue digits
    some (.int (if negative then -n else n), cs)
  else
    let (e, cs) := exponent.getD (0, cs)
    let x := Decimal.scaled (Decimal.naturalValue (digits ++ fraction)) (e - fraction.length)
    some (.float (if negative then -x else x), cs)

def words : List (String × Scalar) :=
  [("null", .null), ("true", .bool true), ("false", .bool false), ("NaN", .float Double.nan),
    ("Infinity", .float Double.infinity), ("-Infinity", .float (-Double.infinity))]

def readWord (cs : Rest) : Option (Scalar × Rest) :=
  words.findSome? fun (w, s) =>
    let w := w.toList
    if w.isPrefixOf cs then some (s, cs.drop w.length) else none

mutual

/-- A value. Of two steps one takes a character, so twice the length of the text is fuel enough. -/
def readValue : (fuel : Nat) → Rest → Option (Json × Rest)
  | 0, _ => none
  | fuel + 1, cs =>
    match skipBlanks cs with
    | '"' :: cs => do
      let (s, cs) ← readText fuel cs
      some (text s, cs)
    | '[' :: cs =>
      match skipBlanks cs with
      | ']' :: cs => some (list [], cs)
      | cs => do
        let (items, cs) ← readItems fuel cs
        some (list items, cs)
    | '{' :: cs =>
      match skipBlanks cs with
      | '}' :: cs => some (object [], cs)
      | cs => do
        let (fields, cs) ← readFields fuel [] cs
        some (object fields, cs)
    | cs => do
      let (s, cs) ← (readWord cs).orElse fun _ => readNumber cs
      some (scalar s, cs)

def readItems : (fuel : Nat) → Rest → Option (List Json × Rest)
  | 0, _ => none
  | fuel + 1, cs => do
    let (item, cs) ← readValue fuel cs
    match skipBlanks cs with
    | ',' :: cs =>
      let (items, cs) ← readItems fuel cs
      some (item :: items, cs)
    | ']' :: cs => some ([item], cs)
    | _ => none

def readFields : (fuel : Nat) → List (String × Json) → Rest → Option (List (String × Json) × Rest)
  | 0, _, _ => none
  | fuel + 1, fields, cs => do
    match skipBlanks cs with
    | '"' :: cs =>
      let (key, cs) ← readText fuel cs
      match skipBlanks cs with
      | ':' :: cs =>
        let (value, cs) ← readValue fuel cs
        let fields := putField key value fields
        match skipBlanks cs with
        | ',' :: cs => readFields fuel fields cs
        | '}' :: cs => some (fields, cs)
        | _ => none
      | _ => none
    | _ => none

end

def ofText? (s : String) : Option Json :=
  let cs := s.toList
  match readValue (2 * cs.length + 2) cs with
  | some (j, rest) => if (skipBlanks rest).isEmpty then some j else none
  | none => none

end Lumen.Json
