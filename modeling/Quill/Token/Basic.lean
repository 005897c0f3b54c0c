import Quill.Text.Measure
import Quill.Token.Kind

/-!
A token keeps the text it covers and the line it starts on, so that whatever reads
tokens later needs no access to the source. Spans are kept for listings only.
-/

namespace Quill

set_option autoImplicit false

/-- A half-open range of byte offsets. Hand-made spans may be out of order. -/
structure Span where
  start : Nat
  stop : Nat
deriving DecidableEq, Repr, Inhabited

namespace Span

def length? (span : Span) : Option Nat :=
  if span.start ≤ span.stop then some (span.stop - span.start) else none

def isEmpty (span : Span) : Bool :=
  span.start == span.stop

end Span

structure Token where
  kind : Kind
  span : Span
  lexeme : String
  line : Nat
deriving DecidableEq, Repr, Inhabited

namespace Token

/-- The token of a given kind over any two offsets of a source. Offsets that are not
cuts of the source cover the empty text. -/
def ofSpan (source : List Char) (kind : Kind) (start stop : Nat) : Token where
  kind := kind
  span := ⟨start, stop⟩
  lexeme := String.ofList ((Text.slice? source start stop).getD [])
  line := Text.lineAt source start

def endOf (source : List Char) : Token :=
  ofSpan source .endOfInput (Text.byteLength source) (Text.byteLength source)

def describe (token : Token) : String :=
  s!"{token.kind.name} '{token.lexeme}'"

end Token

end Quill
