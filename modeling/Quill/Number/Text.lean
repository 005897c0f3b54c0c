import Quill.Number.Shortest

/-!
The text of a number. Whole numbers below the limit of exactness are written as
integers, without a sign for zero; all others in positional notation with the fewest
digits that read back, however many zeros that takes.
-/

namespace Quill.Number

set_option autoImplicit false

def exactLimit : Nat := Nat.pow 2 53

def dropTrailingZeros (digits : List Char) : List Char :=
  (digits.reverse.dropWhile (· == '0')).reverse

/-- Positional notation: no exponent, no zero at the end of a fraction. -/
def Digits.positional (digits : Digits) : String :=
  let written := Nat.toDigits 10 digits.significand
  let kept := dropTrailingZeros written
  let exponent := digits.exponent + ((written.length : Int) - kept.length)
  let point := kept.length + exponent
  String.ofList <|
    if 0 ≤ exponent then kept ++ List.replicate exponent.toNat '0'
    else if 0 < point then kept.take point.toNat ++ '.' :: kept.drop point.toNat
    else '0' :: '.' :: List.replicate (-point).toNat '0' ++ kept

def whole? (mantissa : Nat) (exponent : Int) : Option Nat :=
  let numerator := mantissa * Nat.pow 2 exponent.toNat
  let denominator := Nat.pow 2 (-exponent).toNat
  if numerator % denominator = 0 ∧ numerator / denominator < exactLimit then
    some (numerator / denominator)
  else none

def withSign (negative : Bool) (text : String) : String :=
  if negative then "-" ++ text else text

def Binary.text : Binary → String
  | nan => "NaN"
  | infinite negative => withSign negative "inf"
  | finite negative mantissa exponent =>
      match whole? mantissa exponent with
      | some 0 => "0"
      | some whole => withSign negative (toString whole)
      | none =>
          withSign negative (((shortest? mantissa exponent).map Digits.positional).getD "0")

def text (number : Float) : String :=
  (Binary.ofFloat number).text

end Quill.Number
