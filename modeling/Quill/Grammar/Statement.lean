import Quill.Grammar.Expression

/-!
Declarations and statements. A fault drops the declaration it occurs in and nothing
else: it is recorded, and reading goes on at the next place where a declaration may
begin. Rules that contain statements or declarations receive their parsers as arguments,
and the circle is closed by a budget as for expressions.
-/

namespace Quill.Grammar

set_option autoImplicit false

def startsDeclaration : Kind → Bool
  | .classWord | .functionWord | .varWord | .forWord | .ifWord | .whileWord | .returnWord => true
  | _ => false

/-- Skips to the next place where a declaration may begin: behind a semicolon, or at a
token that begins one. -/
def resync : List Token → List Token
  | [] => []
  | token :: rest =>
      if token.kind = .semicolon then rest
      else if startsDeclaration token.kind then token :: rest
      else resync rest

/-- Drops a faulty declaration: its fault is recorded and reading goes on where the next one may
begin. One that ends where it began loses its first token, so that reading always moves on. -/
def recovering (declaration : Parser Stmt) : Parser (Option Stmt) := fun cursor =>
  match declaration cursor with
  | .ok stmt next => .ok (some stmt) next
  | .error fault next =>
      let resumed := { next.record fault with rest := resync next.rest }
      .ok none <|
        if resumed.rest.length = cursor.rest.length then resumed.advance else resumed

/-- Declarations up to a token of one of the closing kinds, or up to the end. What recovery has
dropped leaves no statement. -/
def declarationsFrom (declaration : Parser (Option Stmt)) (closing : List Kind) :
    Nat → Parser (List Stmt)
  | 0 => pure []
  | budget + 1 => do
      if ← atEnd then pure []
      else if ← check closing then pure []
      else
        let first ← declaration
        let others ← declarationsFrom declaration closing budget
        pure (first.toList ++ others)

def block (declaration : Parser (Option Stmt)) : Parser (List Stmt) := do
  let body ← declarationsFrom declaration [.rightBrace] (← remaining)
  let _ ← expect .rightBrace .closeBlock
  pure body

def parameters : Nat → Parser (List Token)
  | 0 => refuseHere .tooManyParameters
  | room + 1 => do
      let first ← expect .identifier .parameterName
      if ← accept .comma then
        let others ← parameters room
        pure (first :: others)
      else pure [first]

def parameterList : Parser (List Token) := do
  if ← check [.rightParen] then pure [] else parameters listLimit

def function (declaration : Parser (Option Stmt)) (role : Role) : Parser FunctionDecl := do
  let name ← expect .identifier (.routineName role)
  let _ ← expect .leftParen (.openParameters role)
  let names ← parameterList
  let _ ← expect .rightParen .closeParameters
  let _ ← expect .leftBrace (.openBody role)
  let body ← block declaration
  pure ⟨name, names, body⟩

/-- Methods up to the end of the class body. The word that declares a function is
optional before them. -/
def methodsFrom (declaration : Parser (Option Stmt)) : Nat → Parser (List FunctionDecl)
  | 0 => pure []
  | budget + 1 => do
      if ← atEnd then pure []
      else if ← check [.rightBrace] then pure []
      else
        let _ ← accept .functionWord
        let first ← function declaration .method
        let others ← methodsFrom declaration budget
        pure (first :: others)

def classBase : Parser (Option Expr) := do
  if ← accept .colon then
    let name ← expect .identifier .baseName
    let base ← make fun id => .variableRef id name
    pure (some base)
  else pure none

def classDeclaration (declaration : Parser (Option Stmt)) : Parser Stmt := do
  let name ← expect .identifier .className
  let base ← classBase
  let _ ← expect .leftBrace .openClass
  let methods ← methodsFrom declaration (← remaining)
  let _ ← expect .rightBrace .closeClass
  pure (.classDecl name base methods)

def initializer : Parser (Option Expr) := do
  if ← accept .equal then some <$> expression else pure none

def varDeclaration : Parser Stmt := do
  let name ← expect .identifier .variableName
  let initializer ← initializer
  let _ ← expect .semicolon .endVariable
  pure (.varDecl name initializer)

def expressionStatement : Parser Stmt := do
  let expr ← expression
  let _ ← expect .semicolon .endExpression
  pure (.expression expr)

def optionalExpression (closing : Kind) : Parser (Option Expr) := do
  if ← check [closing] then pure none else some <$> expression

def forInitializer : Parser (Option Stmt) := do
  if ← accept .semicolon then pure none
  else if ← accept .varWord then some <$> varDeclaration
  else some <$> expressionStatement

/-- A counting loop is read into what it stands for, see `Stmt.forLoop`. One without a condition
runs on `true`. -/
def forStatement (statement : Parser Stmt) : Parser Stmt := do
  let _ ← expect .leftParen .openFor
  let initializer ← forInitializer
  let condition ← optionalExpression .semicolon
  let _ ← expect .semicolon .endCondition
  let increment ← optionalExpression .rightParen
  let _ ← expect .rightParen .closeFor
  let body ← statement
  match condition with
  | some condition => pure (.forLoop initializer condition increment body)
  | none =>
      let condition ← make fun id => .literal id (.boolean true)
      pure (.forLoop initializer condition increment body)

def ifStatement (statement : Parser Stmt) : Parser Stmt := do
  let _ ← expect .leftParen .openIf
  let condition ← expression
  let _ ← expect .rightParen .closeIf
  let thenBranch ← statement
  if ← accept .elseWord then
    let elseBranch ← statement
    pure (.ifElse condition thenBranch elseBranch)
  else pure (.ifThen condition thenBranch)

def whileStatement (statement : Parser Stmt) : Parser Stmt := do
  let _ ← expect .leftParen .openWhile
  let condition ← expression
  let _ ← expect .rightParen .closeWhile
  let body ← statement
  pure (.whileLoop condition body)

def returnStatement (keyword : Token) : Parser Stmt := do
  let value ← optionalExpression .semicolon
  let _ ← expect .semicolon .endReturn
  pure (.returnStmt keyword value)

def statementRule (statement : Parser Stmt) (declaration : Parser (Option Stmt)) :
    Parser Stmt := do
  match ← accept? [.forWord, .ifWord, .whileWord, .returnWord, .leftBrace] with
  | none => expressionStatement
  | some token =>
      match token.kind with
      | .forWord => forStatement statement
      | .ifWord => ifStatement statement
      | .whileWord => whileStatement statement
      | .returnWord => returnStatement token
      | _ => .block <$> block declaration

def declarationRule (statement : Parser Stmt) (declaration : Parser (Option Stmt)) :
    Parser Stmt := do
  match ← accept? [.classWord, .functionWord, .varWord] with
  | none => statementRule statement declaration
  | some token =>
      match token.kind with
      | .classWord => classDeclaration declaration
      | .functionWord => .functionDecl <$> function declaration .function
      | _ => varDeclaration

mutual

def statementWithin : Nat → Parser Stmt
  | 0 => refuseHere (.missing .expression)
  | budget + 1 => fun cursor =>
      statementRule (statementWithin budget) (declarationWithin budget) cursor

def declarationWithin : Nat → Parser (Option Stmt)
  | 0 => recovering (refuseHere (.missing .expression))
  | budget + 1 => fun cursor =>
      recovering (declarationRule (statementWithin budget) (declarationWithin budget)) cursor

end

def declaration : Parser (Option Stmt) := fun cursor =>
  declarationWithin cursor.rest.length cursor

def program : Parser (List Stmt) := do
  declarationsFrom declaration [] (← remaining)

structure Parse where
  statements : List Stmt
  faults : List (Located Fault)

/-- Reads a whole token list. Reading never fails: faulty declarations are left out, and their
faults are listed in the order in which they were met. -/
def parse (tokens : List Token) (finish : Token) : Parse :=
  match program (Cursor.start tokens finish) with
  | .ok statements cursor => ⟨statements, cursor.faults⟩
  | .error fault cursor => ⟨[], cursor.faults ++ [fault]⟩

end Quill.Grammar
