import Quill.Text.Measure

/-!
How far a lexeme reaches. Each function receives the text from the first character of
a candidate lexeme onwards and answers in characters. None of them inspects whether
that first character suits it: the lexer asks only where it does.
-/

namespace Quill.Extent

set_option autoImplicit false

def blanks : List Char := [' ', '\t', '\r', '\n']

def isBlank (char : Char) : Bool := blanks.contains char

def separators : List Char :=
  blanks ++ ['(', ')', '\x7b', '\x7d', ',', '.', '+', '-', '*', '/', '!', '=', '<', '>', '&', '|',
    ';', ':', '#', '\x22']

def isSeparator (char : Char) : Bool := separators.contains char

/-- Does the text start with `word`, and is the word followed by a separator or by
the end of the text? -/
def standsAlone (word text : List Char) : Bool :=
  word.isPrefixOf text && (text.drop word.length).head?.all isSeparator

def comment (text : List Char) : Nat :=
  min ((text.takeWhile (· != '\n')).length + 1) text.length

def string? : List Char → Option Nat
  | [] => none
  | _ :: text =>
      let body := (text.takeWhile (· != '\x22')).length
      if body < text.length then some (body + 2) else none

def digits (text : List Char) : Nat :=
  (text.takeWhile Char.isDigit).length

def startsWithDigit (text : List Char) : Bool :=
  text.head?.any Char.isDigit

/-- A numeral is a run of digits, with a point and more digits if a digit follows the
point. It is malformed if, after the whole part, two points precede a digit, or if,
after the fraction, one point does. -/
def number? (text : List Char) : Option Nat :=
  let whole := digits text
  match text.drop whole with
  | '.' :: '.' :: rest => if startsWithDigit rest then none else some whole
  | '.' :: rest =>
      let fraction := digits rest
      if fraction = 0 then some whole
      else match rest.drop fraction with
        | '.' :: excess =>
            if startsWithDigit excess then none else some (whole + 1 + fraction)
        | _ => some (whole + 1 + fraction)
  | _ => some whole

def word (text : List Char) : Nat :=
  (text.takeWhile (fun char => !isSeparator char)).length

theorem word_le (text : List Char) : word text ≤ text.length :=
  (List.takeWhile_sublist _).length_le

def bytes (text : List Char) (extent : Nat) : Nat :=
  Text.byteLength (text.take extent)

end Quill.Extent
