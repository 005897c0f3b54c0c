import Quill.Number.Binary

/-!
The fewest decimal digits that read back as a given double. The reals that round to
a double form an interval; the grids of one, two, … digits are tried in turn, each
at the two neighbours of the exact value, in exact natural-number arithmetic.
-/

namespace Quill.Number

set_option autoImplicit false

structure Digits where
  significand : Nat
  exponent : Int
deriving DecidableEq, Repr

/-- The reals that round to a double, measured in quarters of its last place: below a
power of two the neighbours are twice as close. An end belongs to the interval iff
the mantissa is even. -/
structure Rounding where
  low : Nat
  middle : Nat
  high : Nat
  closed : Bool
deriving DecidableEq, Repr

def Rounding.ofMantissa (mantissa : Nat) (exponent : Int) : Rounding where
  low := if mantissa = Nat.pow 2 52 && leastExponent < exponent then 4 * mantissa - 1
    else 4 * mantissa - 2
  middle := 4 * mantissa
  high := 4 * mantissa + 2
  closed := mantissa % 2 == 0

/-- One decimal grid: a quarter of the last place is `quarter` units and the grid's
spacing is `step` units. -/
structure Grid where
  quarter : Nat
  step : Nat
deriving DecidableEq, Repr

def Grid.ofExponents (binary decimal : Int) : Grid where
  quarter := Nat.pow 2 (binary - 2).toNat * Nat.pow 10 (-decimal).toNat
  step := Nat.pow 10 decimal.toNat * Nat.pow 2 (2 - binary).toNat

/-- The point of a grid in the interval that is nearest to the exact value, if there
is one; halfway between two, the upper. -/
def Grid.nearest? (grid : Grid) (rounding : Rounding) : Option Nat :=
  let value := rounding.middle * grid.quarter
  let below := value / grid.step
  let low := rounding.low * grid.quarter
  let high := rounding.high * grid.quarter
  let downward := low < below * grid.step || (rounding.closed && low == below * grid.step)
  let upward :=
    (below + 1) * grid.step < high || (rounding.closed && (below + 1) * grid.step == high)
  if downward && (!upward || 2 * (value % grid.step) < grid.step) then some below
  else if upward then some (below + 1)
  else none

/-- The number of decimal digits before the point of a positive value; negative when
zeros follow the point. -/
def decimalWidth (mantissa : Nat) (exponent : Int) : Int :=
  let numerator := mantissa * Nat.pow 2 exponent.toNat
  let denominator := Nat.pow 2 (-exponent).toNat
  let guess : Int :=
    ((Nat.toDigits 10 numerator).length : Int) - (Nat.toDigits 10 denominator).length
  if numerator * Nat.pow 10 (-guess).toNat < denominator * Nat.pow 10 guess.toNat then guess else guess + 1

def firstHit (mantissa : Nat) (exponent width : Int) : Nat → Nat → Option Digits
  | 0, _ => none
  | remaining + 1, count =>
      let decimal := width - count
      match (Grid.ofExponents exponent decimal).nearest? (.ofMantissa mantissa exponent) with
      | some significand => some ⟨significand, decimal⟩
      | none => firstHit mantissa exponent width remaining (count + 1)

/-- The shortest digits that read back as the double. Seventeen digits tell all doubles apart, so
the grid of that many is the last to be tried. -/
def shortest? (mantissa : Nat) (exponent : Int) : Option Digits :=
  firstHit mantissa exponent (decimalWidth mantissa exponent) 17 1

end Quill.Number
