/-!
# Doubles as exact numbers

A finite double is a signed natural number times a power of two. On these parts truncation and the
remainder are exact integer arithmetic, so nothing here rounds. Raising to a power is the one
operation that is taken from the machine.
-/

namespace Lumen.Double

/-- `significand * 2 ^ exponent`, negated if `negative`. -/
structure Parts where
  negative : Bool
  significand : Nat
  exponent : Int
deriving DecidableEq, Repr

/-- The number of fractions that the lower bits of a double tell apart, two to the power of 52. -/
def fractions : Nat := 0x10000000000000

def exponents : Nat := 0x800

/-- The parts of a finite double; a subnormal one has the least exponent. -/
def parts (x : Float) : Parts :=
  let bits := x.toBits.toNat
  let negative := bits / (exponents * fractions) == 1
  let biased := bits / fractions % exponents
  let fraction := bits % fractions
  if biased = 0 then ⟨negative, fraction, -1074⟩
  else ⟨negative, fraction + fractions, (biased : Int) - 1075⟩

/-- `n * 2 ^ shift`, where a negative shift drops binary digits. -/
def shifted (n : Nat) (shift : Int) : Nat :=
  if 0 ≤ shift then n <<< shift.toNat else n >>> (-shift).toNat

namespace Parts

def width (p : Parts) : Nat := if p.significand = 0 then 0 else p.significand.log2 + 1

/-- The double with these parts, where there is one: the binary digits that a double cannot hold
are dropped. -/
def toFloat (p : Parts) : Float :=
  let exponent := max (p.exponent + p.width - 53) (-1074)
  let significand := shifted p.significand (p.exponent - exponent)
  let magnitude :=
    if significand < fractions then significand
    else (exponent + 1075).toNat * fractions + (significand - fractions)
  let sign := if p.negative then exponents * fractions else 0
  Float.ofBits (UInt64.ofNat (sign + magnitude))

end Parts

/-- The integer next to a finite double on the side of zero. -/
def truncate (x : Float) : Int :=
  let p := parts x
  let n := shifted p.significand p.exponent
  if p.negative then -(n : Int) else n

def isWhole (x : Float) : Bool :=
  let p := parts x
  x.isFinite && (0 ≤ p.exponent || p.significand % Nat.pow 2 (-p.exponent).toNat == 0)

def nan : Float := 0.0 / 0.0

def infinity : Float := 1.0 / 0.0

/-- The remainder of the truncated quotient of two finite doubles, with the sign of the dividend. -/
def finiteRemainder (x y : Float) : Float :=
  let a := parts x
  let b := parts y
  let exponent := min a.exponent b.exponent
  let m := shifted a.significand (a.exponent - exponent)
  let n := shifted b.significand (b.exponent - exponent)
  Parts.toFloat ⟨a.negative, m % n, exponent⟩

/-- The remainder of `x` by a divisor other than zero; an infinite dividend has none. -/
def remainder? (x y : Float) : Option Float :=
  if x.isNaN || y.isNaN then some nan
  else if x.isInf then none
  else if y.isInf then some x
  else some (finiteRemainder x y)

/-- `x` to the power `y`. Zero to a negative power is positive infinity whatever the sign of the
zero, and a negative base with a fractional exponent has no power. -/
def power (x y : Float) : Float :=
  let r := Float.pow x y
  if x.isFinite && y.isFinite && r.isInf && x == 0 then infinity else r

end Lumen.Double
