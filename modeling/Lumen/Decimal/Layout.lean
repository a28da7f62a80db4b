import Lumen.Decimal.Shortest

/-!
# How numbers are written

Two written forms of a double. The plain form shows that a number is a double: a point or an
exponent is always there. The value form, in which programs see their numbers, writes a whole
number as the integer it is.
-/

namespace Lumen.Decimal

/-- The decisions of a written form. -/
structure Layout where
  /-- The least position of the point that is written with zeros in front. -/
  leastPoint : Int
  /-- The greatest position of the point that is written without an exponent. -/
  greatestPoint : Int
  /-- The least number of digits of an exponent. -/
  exponentWidth : Nat

/-- Positional from 0.0001 to below 10 ^ 16, and at least two digits in an exponent. -/
def plain : Layout := ⟨-3, 16, 2⟩

namespace Layout

def exponentText (l : Layout) (e : Int) : String :=
  let digits := toString e.natAbs
  let zeros := String.ofList (List.replicate (l.exponentWidth - digits.length) '0')
  (if e < 0 then "e-" else "e+") ++ zeros ++ digits

def write (l : Layout) (d : Digits) : String :=
  let digits := Nat.toDigits 10 d.digits
  let zeros (n : Int) := List.replicate n.toNat '0'
  if d.point < l.leastPoint || l.greatestPoint < d.point then
    let fraction := if digits.length ≤ 1 then [] else '.' :: digits.drop 1
    String.ofList (digits.take 1 ++ fraction) ++ l.exponentText (d.point - 1)
  else if d.point ≤ 0 then
    String.ofList (['0', '.'] ++ zeros (-d.point) ++ digits)
  else if digits.length ≤ d.point then
    String.ofList (digits ++ zeros (d.point - digits.length) ++ ['.', '0'])
  else
    String.ofList (digits.take d.point.toNat ++ '.' :: digits.drop d.point.toNat)

end Layout

/-- A double in the plain form: `12.0`, `0.1`, `1e+16`, `-0.0`, `inf`, `nan`. -/
def floatText (x : Float) : String :=
  if x.isNaN then "nan"
  else
    let p := Double.parts x
    let sign := if p.negative then "-" else ""
    if x.isInf then sign ++ "inf"
    else if p.significand = 0 then sign ++ "0.0"
    else sign ++ plain.write (shortest p)

/-- A double in the value form: a whole number is an integer of any length, without a sign on
zero. -/
def numberText (x : Float) : String :=
  if Double.isWhole x then toString (Double.truncate x) else floatText x

end Lumen.Decimal
