import Lumen.Double

/-!
# The shortest decimal of a double

The fewest decimal digits from which a double can be read back, and of the numbers with so many
digits the one nearest to it. All comparisons are between natural numbers: the double, the ends of
the interval that rounds to it and the points of a decimal grid are brought to one denominator.
-/

namespace Lumen.Decimal

/-- The number `0.d₁d₂… * 10 ^ point`, where `digits` is the natural number written `d₁d₂…`. -/
structure Digits where
  digits : Nat
  point : Int
deriving DecidableEq, Repr

/-- A positive double as an interval, in units of a quarter of its last binary place. -/
structure Interval where
  low : Nat
  value : Nat
  high : Nat
  /-- The ends round to the double as well. -/
  closed : Bool
  /-- The unit is `2 ^ scale`. -/
  scale : Int
deriving Repr

/-- All that rounds to the double. Below a power of two the doubles lie twice as close. -/
def Interval.of (p : Double.Parts) : Interval :=
  let m := p.significand
  let below := if m = Double.fractions ∧ -1074 < p.exponent then 1 else 2
  ⟨4 * m - below, 4 * m, 4 * m + 2, m % 2 == 0, p.exponent - 2⟩

/-- `10 ^ e` in units of `2 ^ scale`, as a numerator and a denominator. -/
def gridStep (scale e : Int) : Nat × Nat :=
  (Nat.pow 10 e.toNat * Nat.pow 2 (-scale).toNat,
    Nat.pow 10 (-e).toNat * Nat.pow 2 scale.toNat)

namespace Interval

def contains (i : Interval) (e : Int) (d : Nat) : Bool :=
  let (num, den) := gridStep i.scale e
  if i.closed then i.low * den ≤ d * num && d * num ≤ i.high * den
  else i.low * den < d * num && d * num < i.high * den

def isBelow (i : Interval) (e : Int) : Bool :=
  let (num, den) := gridStep i.scale e
  i.value * den < num

/-- The least `e` with the value below `10 ^ e`. The number of binary digits leaves three. -/
def point (i : Interval) : Int :=
  let guess := ((i.value.log2 : Int) + i.scale) * 30103 / 100000
  if i.isBelow guess then guess
  else if i.isBelow (guess + 1) then guess + 1
  else guess + 2

def floor (i : Interval) (e : Int) : Nat :=
  let (num, den) := gridStep i.scale e
  i.value * den / num

/-- The point above is nearer than the point below, or as near and even. -/
def prefersAbove (i : Interval) (e : Int) (below : Nat) : Bool :=
  let (num, den) := gridStep i.scale e
  let toBelow := i.value * den - below * num
  let toAbove := (below + 1) * num - i.value * den
  toAbove < toBelow || (toAbove == toBelow && below % 2 == 1)

/-- The point of the grid of step `10 ^ e` that reads back as the double, if there is one: of two
the nearer. -/
def onGrid (i : Interval) (e : Int) : Option Nat :=
  let below := i.floor e
  match i.contains e below, i.contains e (below + 1) with
  | true, true => some (if i.prefersAbove e below then below + 1 else below)
  | true, false => some below
  | false, true => some (below + 1)
  | false, false => none

/-- The coarsest of `n` grids, each ten times finer than the one before, that has such a point. -/
def search (i : Interval) (e : Int) : Nat → Nat × Int
  | 0 => (i.floor e, e)
  | n + 1 =>
    match i.onGrid e with
    | some d => (d, e)
    | none => search i (e - 1) n

end Interval

/-- Drops trailing zeros of `d * 10 ^ e`; `fuel` bounds their number. -/
def dropZeros : Nat → Nat → Int → Nat × Int
  | 0, d, e => (d, e)
  | fuel + 1, d, e => if d % 10 = 0 ∧ d ≠ 0 then dropZeros fuel (d / 10) (e + 1) else (d, e)

/-- The shortest digits of the positive number with these parts: seventeen always suffice. -/
def shortest (p : Double.Parts) : Digits :=
  let i := Interval.of p
  let (d, e) := i.search (i.point - 1) 17
  let (d, e) := dropZeros 20 d e
  ⟨d, e + (Nat.toDigits 10 d).length⟩

end Lumen.Decimal
