import Quill.Diagnostic
import Quill.Token.Basic
import Quill.Token.Extent

/-!
The lexer. `Piece.ofText` names what stands at the head of a text, `scanFrom` repeats
it. Recursion is on the text: `skip` counts the characters of the current piece that
are still to be passed over, so every character is visited once.
-/

namespace Quill.Lexer

set_option autoImplicit false

inductive Fault where
  | unterminatedString
  | malformedNumber
deriving DecidableEq, Repr

def Fault.message : Fault → String
  | unterminatedString => "Unterminated string."
  | malformedNumber => "Malformed number."

/-- The head of a text: white space or a comment, a token whose lexeme is the whole
piece, or a string whose lexeme is the piece without its two quotes. Sizes count
characters. -/
inductive Piece where
  | gap (size : Nat)
  | token (kind : Kind) (size : Nat)
  | quoted (size : Nat)
  | fault (cause : Fault)
deriving DecidableEq, Repr

def punctuation : List (Char × Kind) :=
  [('(', .leftParen), (')', .rightParen), ('\x7b', .leftBrace), ('\x7d', .rightBrace),
    (',', .comma), ('.', .dot), ('+', .plus), ('-', .minus), ('*', .star), ('/', .slash),
    (';', .semicolon), (':', .colon)]

/-- Operators of one character, with the second character that makes another operator
of them. -/
structure Operator where
  single : Kind
  second : Char
  double : Kind

def operators : List (Char × Operator) :=
  [('!', ⟨.bang, '=', .bangEqual⟩), ('=', ⟨.equal, '=', .equalEqual⟩),
    ('<', ⟨.less, '=', .lessEqual⟩), ('>', ⟨.greater, '=', .greaterEqual⟩),
    ('&', ⟨.ampersand, '&', .andAnd⟩), ('|', ⟨.pipe, '|', .orOr⟩)]

namespace Piece

/-- A two-character operator counts only if it stands alone, so that `==x` begins with
two single signs. -/
def ofOperator (char : Char) (operator : Operator) (text : List Char) : Piece :=
  if Extent.standsAlone [char, operator.second] text then token operator.double 2
  else token operator.single 1

def ofWord (text : List Char) : Piece :=
  let size := Extent.word text
  token (Kind.ofWord (String.ofList (text.take size))) size

def ofText (char : Char) (rest : List Char) : Piece :=
  if Extent.isBlank char then gap 1
  else if char = '#' then gap (Extent.comment (char :: rest))
  else if char = '\x22' then
    match Extent.string? (char :: rest) with
    | some size => quoted size
    | none => fault .unterminatedString
  else if char.isDigit then
    match Extent.number? (char :: rest) with
    | some size => token .number size
    | none => fault .malformedNumber
  else
    match punctuation.lookup char with
    | some kind => token kind 1
    | none =>
        match operators.lookup char with
        | some operator => ofOperator char operator (char :: rest)
        | none => ofWord (char :: rest)

end Piece

structure Position where
  offset : Nat
  line : Nat
deriving DecidableEq, Repr

namespace Position

def start : Position := ⟨0, 1⟩

def next (position : Position) (char : Char) : Position where
  offset := position.offset + char.utf8Size
  line := if char = '\n' then position.line + 1 else position.line

def token (position : Position) (kind : Kind) (lead : Nat) (lexeme : List Char) : Token where
  kind := kind
  span := ⟨position.offset + lead, position.offset + lead + Text.byteLength lexeme⟩
  lexeme := String.ofList lexeme
  line := position.line

end Position

/-- The tokens found, and the fault that ended the scan early, if any. Tokens before a fault are
kept for listings only: no stage behind the scan sees them. -/
structure Scan where
  tokens : List Token
  fault : Option (Located Fault)
deriving DecidableEq, Repr

def Scan.cons (token : Token) (scan : Scan) : Scan :=
  { scan with tokens := token :: scan.tokens }

def scanFrom : Position → Nat → List Char → Scan
  | position, _, [] => ⟨[position.token .endOfInput 0 []], none⟩
  | position, skip + 1, char :: rest => scanFrom (position.next char) skip rest
  | position, 0, char :: rest =>
      match Piece.ofText char rest with
      | .gap size => scanFrom (position.next char) (size - 1) rest
      | .token kind size =>
          (scanFrom (position.next char) (size - 1) rest).cons
            (position.token kind 0 ((char :: rest).take size))
      | .quoted size =>
          (scanFrom (position.next char) (size - 1) rest).cons
            (position.token .string 1 (rest.take (size - 2)))
      | .fault cause => ⟨[], some ⟨position.line, cause⟩⟩

/-- The tokens of a source up to its end or to the first fault. Only a scan without
fault ends in the end-of-input token. -/
def scan (source : String) : Scan :=
  scanFrom .start 0 source.toList

/-- Scanning as a stage of compilation: one fault refuses the whole source. -/
def tokens (source : String) : Except (Located Fault) (List Token) :=
  match scan source with
  | ⟨_, some fault⟩ => .error fault
  | ⟨tokens, none⟩ => .ok tokens

end Quill.Lexer
