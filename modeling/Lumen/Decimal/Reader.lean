import Lumen.Double
import Lumen.Text.Blank
import Lumen.Text.Digit

/-!
# Reading decimals

The double nearest to a decimal that is written out. A text may have blanks around the number, a
sign in front, single underscores between digits and an exponent behind; infinity and the number
that is none have words of their own. The digits may be those of any script.
-/

namespace Lumen.Decimal

def isDigit (c : Char) : Bool := '0' ≤ c && c ≤ '9'

def naturalValue (cs : List Char) : Nat :=
  cs.foldl (fun n c => 10 * n + (c.toNat - '0'.toNat)) 0

theorem naturalValue_concat (cs : List Char) (c : Char) :
    naturalValue (cs ++ [c]) = 10 * naturalValue cs + (c.toNat - '0'.toNat) := by
  simp [naturalValue]

theorem naturalValue_toDigits (n : Nat) : naturalValue (Nat.toDigits 10 n) = n := by
  induction n using Nat.strongRecOn with
  | ind n ih =>
    have hd : ∀ d < 10, (Nat.digitChar d).toNat - '0'.toNat = d := by decide
    by_cases h : n < 10
    · rw [Nat.toDigits_of_lt_base h]
      simpa [naturalValue] using hd n h
    · have hm : n % 10 < 10 := Nat.mod_lt _ (by decide)
      have hs := Nat.toDigits_append_toDigits (b := 10) (n := n / 10) (d := n % 10) (by decide)
        (by omega) hm
      rw [Nat.toDigits_of_lt_base hm] at hs
      have hn : 10 * (n / 10) + n % 10 = n := Nat.div_add_mod n 10
      rw [hn] at hs
      rw [← hs, naturalValue_concat, ih _ (by omega), hd _ hm]
      exact hn

/-- The double nearest to `m * 10 ^ e`. Beyond the range of doubles no power is computed. -/
def scaled (m : Nat) (e : Int) : Float :=
  let size : Int := e + (Nat.toDigits 10 m).length
  if m = 0 ∨ size < -400 then 0
  else if 400 < size then Double.infinity
  else if e < 0 then Float.ofScientific m true (-e).toNat
  else Float.ofScientific m false e.toNat

def readSign : List Char → Bool × List Char
  | '-' :: cs => (true, cs)
  | '+' :: cs => (false, cs)
  | cs => (false, cs)

def readExponent (cs : List Char) : Option (Int × List Char) :=
  match cs with
  | c :: cs' =>
    if c = 'e' ∨ c = 'E' then
      let (negative, cs') := readSign cs'
      let digits := cs'.takeWhile isDigit
      if digits.isEmpty then none
      else
        let n : Int := naturalValue digits
        some (if negative then -n else n, cs'.drop digits.length)
    else none
  | [] => none

/-- Takes out the underscores, each of which has to stand between two digits. -/
def dropUnderscores : (behindDigit : Bool) → List Char → Option (List Char)
  | _, [] => some []
  | behindDigit, c :: cs =>
    if c = '_' then
      if behindDigit && cs.head?.any isDigit then dropUnderscores false cs else none
    else (dropUnderscores (isDigit c) cs).map (c :: ·)

/-- Digits with at most one point among them, and perhaps an exponent. -/
def ofDigits? (cs : List Char) : Option Float :=
  let whole := cs.takeWhile isDigit
  let (fraction, rest) :=
    match cs.drop whole.length with
    | '.' :: cs => (cs.takeWhile isDigit, cs.dropWhile isDigit)
    | cs => ([], cs)
  let m := naturalValue (whole ++ fraction)
  if whole.isEmpty && fraction.isEmpty then none
  else
    match rest, readExponent rest with
    | [], _ => some (scaled m (-fraction.length))
    | _, some (e, []) => some (scaled m (e - fraction.length))
    | _, _ => none

def ofUnsigned? (cs : List Char) : Option Float :=
  let word := String.ofList (cs.map Char.toLower)
  if word = "inf" ∨ word = "infinity" then some Double.infinity
  else if word = "nan" then some Double.nan
  else (dropUnderscores false cs).bind ofDigits?

def isSpace (c : Char) : Bool := c == ' ' || ('\t' ≤ c && c ≤ '\r')

/-- Any blank beyond ASCII counts as a space there and any digit as the ASCII one; no other
character beyond ASCII stands in a number. -/
def asciiForm? (c : Char) : Option Char :=
  if c.toNat < 0x7F then some c
  else if Text.isBlank c then some ' '
  else (Text.digitValue? c).map Nat.digitChar

def ofText? (s : String) : Option Float := do
  let cs ← s.toList.mapM asciiForm?
  let (negative, cs) := readSign ((cs.dropWhile isSpace).reverse.dropWhile isSpace).reverse
  let x ← ofUnsigned? cs
  return if negative then -x else x

end Lumen.Decimal
