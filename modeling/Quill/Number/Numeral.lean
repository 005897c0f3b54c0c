import Quill.Number.Binary

/-!
Reading numerals. A numeral is an optional sign followed by decimal digits with an
optional point and an optional power of ten, where at least one digit stands before
the power, or by one of the words for infinity and for no number, in any case.
-/

namespace Quill.Number

set_option autoImplicit false

def splitSign : List Char → Bool × List Char
  | '-' :: rest => (true, rest)
  | '+' :: rest => (false, rest)
  | text => (false, text)

def digitsValue (digits : List Char) : Nat :=
  digits.foldl (fun total digit => 10 * total + (digit.toNat - '0'.toNat)) 0

structure Decimal where
  digits : Nat
  exponent : Int
deriving DecidableEq, Repr

def exponent? : List Char → Option Int
  | [] => some 0
  | mark :: rest =>
      if mark = 'e' || mark = 'E' then
        let (negative, digits) := splitSign rest
        if digits.isEmpty || !digits.all Char.isDigit then none
        else if negative then some (-(digitsValue digits : Int))
        else some (digitsValue digits)
      else none

def decimal? (text : List Char) : Option Decimal :=
  let whole := text.takeWhile Char.isDigit
  let (fraction, rest) := match text.dropWhile Char.isDigit with
    | '.' :: rest => (rest.takeWhile Char.isDigit, rest.dropWhile Char.isDigit)
    | rest => ([], rest)
  if whole.isEmpty && fraction.isEmpty then none
  else do
    let exponent ← exponent? rest
    some ⟨digitsValue (whole ++ fraction), exponent - fraction.length⟩

/-- Magnitudes from ten to this power on exceed every finite double, and those below
its inverse round to zero. -/
def decimalRange : Nat := 400

def Decimal.nearestBits (decimal : Decimal) : Nat :=
  let width := (Nat.toDigits 10 decimal.digits).length
  if decimal.digits = 0 then 0
  else if decimal.exponent > decimalRange then infinityBits
  else if decimal.exponent + width < -(decimalRange : Int) then 0
  else
    Number.nearestBits (decimal.digits * Nat.pow 10 decimal.exponent.toNat)
      (Nat.pow 10 (-decimal.exponent).toNat)

def read? (text : String) : Option UInt64 :=
  let (negative, rest) := splitSign text.toList
  let word := String.ofList (rest.map Char.toLower)
  if word = "inf" || word = "infinity" then some (signedBits negative infinityBits)
  else if word = "nan" then some (signedBits negative (infinityBits + Nat.pow 2 51))
  else (decimal? rest).map fun decimal => signedBits negative decimal.nearestBits

end Quill.Number
