import Quill.Grammar.Cursor
import Quill.Number.Numeral

/-!
Expressions, by increasing strength: assignment, which groups to the right; `||`, `&&`,
equality, comparison, sums and products, which group to the left; signs; calls and
properties; and the primaries.

A rule that contains expressions receives their parser as an argument. `expressionWithin`
closes the circle: every inner expression starts behind at least one more token, so a
budget of one level for each token left is never spent before the tokens are, and with
no token left there is no expression.
-/

namespace Quill.Grammar

set_option autoImplicit false

/-- Operators of one level, from left to right: what has been read so far is the left operand of the
next one. The budget is spent on operators, of which there are no more than tokens. -/
def chainFrom (operators : List Kind) (build : Nat → Expr → Token → Expr → Expr)
    (operand : Parser Expr) : Nat → Expr → Parser Expr
  | 0, left => pure left
  | budget + 1, left => do
      match ← accept? operators with
      | none => pure left
      | some operator =>
          let right ← operand
          let joined ← make fun id => build id left operator right
          chainFrom operators build operand budget joined

def chain (operators : List Kind) (build : Nat → Expr → Token → Expr → Expr)
    (operand : Parser Expr) : Parser Expr := do
  let first ← operand
  chainFrom operators build operand (← remaining) first

def arguments (expression : Parser Expr) : Nat → Parser (List Expr)
  | 0 => refuseHere .tooManyArguments
  | room + 1 => do
      let first ← expression
      if ← accept .comma then
        let others ← arguments expression room
        pure (first :: others)
      else pure [first]

def argumentList (expression : Parser Expr) : Parser (List Expr) := do
  if ← check [.rightParen] then pure [] else arguments expression listLimit

def finishCall (expression : Parser Expr) (callee : Expr) : Parser Expr := do
  let given ← argumentList expression
  let paren ← expect .rightParen .closeArguments
  make fun id => .call id callee paren given

def finishGet (object : Expr) : Parser Expr := do
  let name ← expect .identifier .propertyName
  make fun id => .get id object name

def suffix (expression : Parser Expr) (mark : Token) (head : Expr) : Parser Expr :=
  if mark.kind = .leftParen then finishCall expression head else finishGet head

def suffixesFrom (expression : Parser Expr) : Nat → Expr → Parser Expr
  | 0, head => pure head
  | budget + 1, head => do
      match ← accept? [.leftParen, .dot] with
      | none => pure head
      | some mark =>
          let longer ← suffix expression mark head
          suffixesFrom expression budget longer

def leaf (build : Nat → Expr) : Parser Expr := do
  advance
  make build

def primary (expression : Parser Expr) : Parser Expr := do
  let token ← peek
  match token.kind with
  | .falseWord => leaf fun id => .literal id (.boolean false)
  | .trueWord => leaf fun id => .literal id (.boolean true)
  | .nilWord => leaf fun id => .literal id .nil
  | .number =>
      match Number.read? token.lexeme with
      | some bits => leaf fun id => .literal id (.number bits)
      | none => refuse token (.invalidNumber token.lexeme)
  | .string => leaf fun id => .literal id (.text token.lexeme)
  | .identifier => leaf fun id => .variableRef id token
  | .thisWord => leaf fun id => .thisRef id token
  | .baseWord => do
      advance
      let _ ← expect .dot .dotAfterBase
      let method ← expect .identifier .baseMethod
      make fun id => .baseRef id token method
  | .leftParen => do
      advance
      let inner ← expression
      let _ ← expect .rightParen .closeGroup
      make fun id => .grouping id inner
  | _ => refuse token (.missing .expression)

def call (expression : Parser Expr) : Parser Expr := do
  let head ← primary expression
  suffixesFrom expression (← remaining) head

/-- The first sign of a run is the outermost: the last one applies to the operand, and each sign
before it to what stands behind it. -/
def applySigns (right : Expr) : List Token → Parser Expr
  | [] => pure right
  | operator :: operators => do
      let inner ← applySigns right operators
      make fun id => .unary id operator inner

def unary (expression : Parser Expr) : Parser Expr := do
  let operators ← acceptAll [.bang, .minus]
  let right ← call expression
  applySigns right operators

def factor (expression : Parser Expr) : Parser Expr :=
  chain [.star, .slash] .binary (unary expression)

def term (expression : Parser Expr) : Parser Expr :=
  chain [.minus, .plus] .binary (factor expression)

def comparison (expression : Parser Expr) : Parser Expr :=
  chain [.greater, .greaterEqual, .less, .lessEqual] .binary (term expression)

def equality (expression : Parser Expr) : Parser Expr :=
  chain [.bangEqual, .equalEqual] .binary (comparison expression)

def conjunction (expression : Parser Expr) : Parser Expr :=
  chain [.andAnd] .logical (equality expression)

def disjunction (expression : Parser Expr) : Parser Expr :=
  chain [.orOr] .logical (conjunction expression)

/-- The left side of an assignment is read as any expression and must turn out to be a
variable or a property. -/
def assignTo (equals : Token) (target value : Expr) : Parser Expr :=
  match target with
  | .variableRef _ name => make fun id => .assign id name value
  | .get _ object name => make fun id => .set id object name value
  | _ => refuse equals .invalidTarget

def assignment (expression : Parser Expr) : Parser Expr := do
  let target ← disjunction expression
  match ← accept? [.equal] with
  | none => pure target
  | some equals =>
      let value ← expression
      assignTo equals target value

def expressionWithin : Nat → Parser Expr
  | 0 => refuseHere (.missing .expression)
  | budget + 1 => fun cursor => assignment (expressionWithin budget) cursor

def expression : Parser Expr := fun cursor =>
  expressionWithin cursor.rest.length cursor

end Quill.Grammar
