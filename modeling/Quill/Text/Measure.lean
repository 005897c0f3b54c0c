/-!
Byte measures of character lists. Every offset of the language counts bytes of the
UTF-8 encoding, while the text itself is handled character by character; the
functions below are the only place where the two counts meet.
-/

namespace Quill.Text

set_option autoImplicit false

def byteLength : List Char → Nat
  | [] => 0
  | char :: text => char.utf8Size + byteLength text

@[simp] theorem byte_length_nil : byteLength [] = 0 := rfl

@[simp] theorem byte_length_cons (char : Char) (text : List Char) :
    byteLength (char :: text) = char.utf8Size + byteLength text := rfl

@[simp] theorem byte_length_append (left right : List Char) :
    byteLength (left ++ right) = byteLength left + byteLength right := by
  induction left with
  | nil => simp
  | cons char left induction => simp [induction, Nat.add_assoc]

/-- Cuts a text after exactly `count` bytes. There is no cut beyond the end and none
inside a character. -/
def splitAtByte? : List Char → Nat → Option (List Char × List Char)
  | text, 0 => some ([], text)
  | [], _ + 1 => none
  | char :: text, count + 1 =>
      if char.utf8Size ≤ count + 1 then do
        let (front, rest) ← splitAtByte? text (count + 1 - char.utf8Size)
        some (char :: front, rest)
      else none

def slice? (text : List Char) (start stop : Nat) : Option (List Char) :=
  if start ≤ stop then do
    let (_, rest) ← splitAtByte? text start
    let (middle, _) ← splitAtByte? rest (stop - start)
    some middle
  else none

/-- Newlines among the first `count` bytes. A newline is one byte, so a cut inside a
character counts what precedes the character. -/
def newlinesBefore : List Char → Nat → Nat
  | _, 0 => 0
  | [], _ + 1 => 0
  | char :: text, count + 1 =>
      (if char = '\n' then 1 else 0) + newlinesBefore text (count + 1 - char.utf8Size)

def lineAt (text : List Char) (offset : Nat) : Nat :=
  1 + newlinesBefore text offset

end Quill.Text
