import Quill.Diagnostic
import Quill.Grammar.Fault
import Quill.Tree.Basic

/-!
Reading tokens. A parser moves a cursor over the tokens and ends in a result or in a
fault; either way the cursor stays where it got to. The end of the input is a token
that is seen and never consumed.
-/

namespace Quill.Grammar

set_option autoImplicit false

/-- Where a parser is in its tokens, and what it has given out and recorded on the way. A fault
leaves the cursor as it is, so that recovery goes on from there. -/
structure Cursor where
  /-- The tokens not yet consumed. None of them marks the end of the input. -/
  rest : List Token
  /-- The token that stands behind them. -/
  finish : Token
  /-- The number of the next expression. -/
  nextId : Nat
  /-- The faults of the declarations dropped so far, in the order they were met. -/
  faults : List (Located Fault)

namespace Cursor

/-- A cursor before the first token. Input ends at its first end mark; a list without
one is closed by `finish`. -/
def start (tokens : List Token) (finish : Token) : Cursor where
  rest := tokens.takeWhile (·.kind ≠ .endOfInput)
  finish := (tokens.find? (·.kind = .endOfInput)).getD finish
  nextId := 0
  faults := []

def peek (cursor : Cursor) : Token :=
  cursor.rest.headD cursor.finish

def advance (cursor : Cursor) : Cursor :=
  { cursor with rest := cursor.rest.tail }

def record (cursor : Cursor) (fault : Located Fault) : Cursor :=
  { cursor with faults := cursor.faults ++ [fault] }

end Cursor

abbrev Parser := EStateM (Located Fault) Cursor

def peek : Parser Token := fun cursor => .ok cursor.peek cursor

def advance : Parser Unit := fun cursor => .ok () cursor.advance

def atEnd : Parser Bool := fun cursor => .ok cursor.rest.isEmpty cursor

/-- The number of tokens left. It bounds every repetition that consumes one in each turn, which is
how loops without an end in sight are written as recursions. -/
def remaining : Parser Nat := fun cursor => .ok cursor.rest.length cursor

def refuse {Result : Type} (token : Token) (fault : Fault) : Parser Result := fun cursor =>
  .error ⟨token.line, fault⟩ cursor

def refuseHere {Result : Type} (fault : Fault) : Parser Result := fun cursor =>
  .error ⟨cursor.peek.line, fault⟩ cursor

def check (kinds : List Kind) : Parser Bool := fun cursor =>
  match cursor.rest with
  | token :: _ => .ok (kinds.contains token.kind) cursor
  | [] => .ok false cursor

def accept? (kinds : List Kind) : Parser (Option Token) := fun cursor =>
  match cursor.rest with
  | token :: rest =>
      if kinds.contains token.kind then .ok (some token) { cursor with rest := rest }
      else .ok none cursor
  | [] => .ok none cursor

def accept (kind : Kind) : Parser Bool :=
  Option.isSome <$> accept? [kind]

def expect (kind : Kind) (wanted : Wanted) : Parser Token := fun cursor =>
  match cursor.rest with
  | token :: rest =>
      if token.kind = kind then .ok token { cursor with rest := rest }
      else .error ⟨token.line, .missing wanted⟩ cursor
  | [] => .error ⟨cursor.finish.line, .missing wanted⟩ cursor

def acceptAll (kinds : List Kind) : Parser (List Token) := fun cursor =>
  .ok (cursor.rest.takeWhile (kinds.contains ·.kind))
    { cursor with rest := cursor.rest.dropWhile (kinds.contains ·.kind) }

def make (build : Nat → Expr) : Parser Expr := fun cursor =>
  .ok (build cursor.nextId) { cursor with nextId := cursor.nextId + 1 }

end Quill.Grammar
