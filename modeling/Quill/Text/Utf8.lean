/-!
Bytes as text. A sequence of bytes is cut into units: characters, and stretches that
encode none. A stretch is as long as it could still have become a character; one that
stops only because the bytes do is called incomplete.
-/

namespace Quill.Text

set_option autoImplicit false

inductive Utf8Unit where
  | char (found : Char) (size : Nat)
  | invalid (size : Nat)
  | incomplete
deriving DecidableEq, Repr

namespace Utf8Unit

def width (lead : Nat) : Nat :=
  if lead < 0x80 then 1
  else if 0xc2 ≤ lead ∧ lead ≤ 0xdf then 2
  else if 0xe0 ≤ lead ∧ lead ≤ 0xef then 3
  else if 0xf0 ≤ lead ∧ lead ≤ 0xf4 then 4
  else 0

/-- The bounds of the second byte exclude long forms, surrogates, and numbers beyond the
last character. -/
def secondBounds (lead : Nat) : Nat × Nat :=
  (if lead = 0xe0 then 0xa0 else if lead = 0xf0 then 0x90 else 0x80,
    if lead = 0xed then 0x9f else if lead = 0xf4 then 0x8f else 0xbf)

def continuing (bounds : Nat × Nat) : Nat → List Nat → Nat
  | 0, _ => 0
  | _ + 1, [] => 0
  | count + 1, byte :: rest =>
      if bounds.1 ≤ byte ∧ byte ≤ bounds.2 then 1 + continuing (0x80, 0xbf) count rest else 0

def codePoint (lead : Nat) (tail : List Nat) : Nat :=
  let free := match tail.length with
    | 0 => lead
    | 1 => lead % 0x20
    | 2 => lead % 0x10
    | _ => lead % 0x08
  tail.foldl (fun number byte => number * 64 + byte % 64) free

def ofBytes (lead : Nat) (rest : List Nat) : Utf8Unit :=
  match width lead with
  | 0 => invalid 1
  | needed + 1 =>
      let found := continuing (secondBounds lead) needed rest
      if found = needed then char (Char.ofNat (codePoint lead (rest.take needed))) (needed + 1)
      else if found = rest.length then incomplete
      else invalid (found + 1)

def trailing (left : Nat) : Utf8Unit → Nat
  | char _ size => size - 1
  | invalid size => size - 1
  | incomplete => left

end Utf8Unit

def utf8UnitsFrom : Nat → List Nat → List Utf8Unit
  | _, [] => []
  | skip + 1, _ :: rest => utf8UnitsFrom skip rest
  | 0, lead :: rest =>
      let unit := Utf8Unit.ofBytes lead rest
      unit :: utf8UnitsFrom (unit.trailing rest.length) rest

def utf8Units (bytes : List Nat) : List Utf8Unit :=
  utf8UnitsFrom 0 bytes

inductive Utf8Fault where
  | invalid (size index : Nat)
  | incomplete (index : Nat)
deriving DecidableEq, Repr

def Utf8Fault.message : Utf8Fault → String
  | invalid size index => s!"invalid utf-8 sequence of {size} bytes from index {index}"
  | incomplete index => s!"incomplete utf-8 byte sequence from index {index}"

def charsFrom : Nat → List Utf8Unit → Except Utf8Fault (List Char)
  | _, [] => .ok []
  | index, .char found size :: rest => do
      let chars ← charsFrom (index + size) rest
      .ok (found :: chars)
  | index, .invalid size :: _ => .error (.invalid size index)
  | index, .incomplete :: _ => .error (.incomplete index)

def byteValues (bytes : ByteArray) : List Nat :=
  bytes.toList.map UInt8.toNat

/-- The text that bytes encode, or the first place where they encode none. -/
def decode (bytes : ByteArray) : Except Utf8Fault String :=
  match String.fromUTF8? bytes with
  | some text => .ok text
  | none => (charsFrom 0 (utf8Units (byteValues bytes))).map String.ofList

def replacement : Char := Char.ofNat 0xfffd

def Utf8Unit.replaced : Utf8Unit → Char
  | char found _ => found
  | _ => replacement

def decodeLossy (bytes : ByteArray) : String :=
  match String.fromUTF8? bytes with
  | some text => text
  | none => String.ofList ((utf8Units (byteValues bytes)).map Utf8Unit.replaced)

end Quill.Text
