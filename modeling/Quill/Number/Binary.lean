/-!
Doubles as exact numbers: the parts of a double, and the double nearest to a fraction
of natural numbers. Both work on natural numbers only, so nothing is rounded twice.
-/

namespace Quill.Number

set_option autoImplicit false

inductive Binary where
  | finite (negative : Bool) (mantissa : Nat) (exponent : Int)
  | infinite (negative : Bool)
  | nan
deriving DecidableEq, Repr

def leastExponent : Int := -1074

def infinityBits : Nat := 2047 * Nat.pow 2 52

namespace Binary

def ofBits (bits : Nat) : Binary :=
  let negative := bits / Nat.pow 2 63 == 1
  let biased : Nat := bits / Nat.pow 2 52 % Nat.pow 2 11
  let fraction := bits % Nat.pow 2 52
  if biased = 2047 then
    if fraction = 0 then infinite negative else nan
  else if biased = 0 then finite negative fraction leastExponent
  else finite negative (Nat.pow 2 52 + fraction) (leastExponent + ((biased - 1 : Nat) : Int))

def ofFloat (number : Float) : Binary :=
  ofBits number.toBits.toNat

end Binary

def scale (numerator denominator : Nat) (exponent : Int) : Nat × Nat :=
  (numerator * Nat.pow 2 (-exponent).toNat, denominator * Nat.pow 2 exponent.toNat)

/-- The nearest natural number; a half goes to the even neighbour. -/
def roundHalfEven (numerator denominator : Nat) : Nat :=
  let quotient := numerator / denominator
  let doubled := 2 * (numerator % denominator)
  if doubled < denominator || (doubled == denominator && quotient % 2 == 0) then quotient
  else quotient + 1

/-- The exponent that leaves 53 binary digits before the point, but never less than the
least exponent. The difference of logarithms is off by one at most. -/
def lastPlace (numerator denominator : Nat) : Int :=
  let guess : Int := (numerator.log2 : Int) - denominator.log2 - 53
  let scaled := scale numerator denominator guess
  let exponent := if scaled.1 < scaled.2 * Nat.pow 2 53 then guess else guess + 1
  max exponent leastExponent

/-- The pattern of the double nearest to a fraction. A mantissa that rounds up to the
next power of two carries into the exponent, and what exceeds the largest finite
magnitude is infinite. -/
def nearestBits (numerator denominator : Nat) : Nat :=
  if numerator = 0 then 0
  else
    let exponent := lastPlace numerator denominator
    let scaled := scale numerator denominator exponent
    min ((exponent - leastExponent).toNat * Nat.pow 2 52 + roundHalfEven scaled.1 scaled.2)
      infinityBits

def signedBits (negative : Bool) (magnitude : Nat) : UInt64 :=
  UInt64.ofNat (if negative then Nat.pow 2 63 + magnitude else magnitude)

end Quill.Number
