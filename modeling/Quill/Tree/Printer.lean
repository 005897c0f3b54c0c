import Quill.Number.Text
import Quill.Tree.Basic

/-!
The parenthesised form of trees, operators first. Strings appear without quotes and
numbers as they are displayed when the program runs.
-/

namespace Quill

set_option autoImplicit false

def Literal.print : Literal → String
  | nil => "nil"
  | boolean true => "true"
  | boolean false => "false"
  | number bits => Number.text (Float.ofBits bits)
  | text value => value

mutual

def Expr.print : Expr → String
  | .literal _ value => value.print
  | .grouping _ inner => "(group " ++ inner.print ++ ")"
  | .unary _ operator right => "(" ++ operator.lexeme ++ " " ++ right.print ++ ")"
  | .binary _ left operator right =>
      "(" ++ operator.lexeme ++ " " ++ left.print ++ " " ++ right.print ++ ")"
  | .logical _ left operator right =>
      "(" ++ operator.lexeme ++ " " ++ left.print ++ " " ++ right.print ++ ")"
  | .variableRef _ name => name.lexeme
  | .thisRef _ _ => "this"
  | .baseRef _ _ method => "(base " ++ method.lexeme ++ ")"
  | .assign _ name value => "(= " ++ name.lexeme ++ " " ++ value.print ++ ")"
  | .call _ callee _ arguments => "(call " ++ callee.print ++ printArguments arguments ++ ")"
  | .get _ object name => "(. " ++ object.print ++ " " ++ name.lexeme ++ ")"
  | .set _ object name value =>
      "(= " ++ object.print ++ "." ++ name.lexeme ++ " " ++ value.print ++ ")"

def printArguments : List Expr → String
  | [] => ""
  | argument :: rest => " " ++ argument.print ++ printArguments rest

end

mutual

def Stmt.print : Stmt → String
  | .expression expr => "(; " ++ expr.print ++ ")"
  | .varDecl name none => "(var " ++ name.lexeme ++ ")"
  | .varDecl name (some initializer) =>
      "(var " ++ name.lexeme ++ " = " ++ initializer.print ++ ")"
  | .functionDecl decl => decl.print
  | .classDecl name none methods => "(class " ++ name.lexeme ++ printMethods methods ++ ")"
  | .classDecl name (some base) methods =>
      "(class " ++ name.lexeme ++ " : " ++ base.print ++ printMethods methods ++ ")"
  | .block body => "(block" ++ printBody body ++ ")"
  | .ifThen condition thenBranch =>
      "(if " ++ condition.print ++ " " ++ thenBranch.print ++ ")"
  | .ifElse condition thenBranch elseBranch =>
      "(if-else " ++ condition.print ++ " " ++ thenBranch.print ++ " " ++ elseBranch.print ++ ")"
  | .whileLoop condition body => "(while " ++ condition.print ++ " " ++ body.print ++ ")"
  | .returnStmt _ none => "(return)"
  | .returnStmt _ (some value) => "(return " ++ value.print ++ ")"

def FunctionDecl.print : FunctionDecl → String
  | ⟨name, parameters, body⟩ =>
      "(function " ++ name.lexeme ++ "(" ++
        String.intercalate " " (parameters.map Token.lexeme) ++ ")" ++ printBody body ++ ")"

def printBody : List Stmt → String
  | [] => ""
  | stmt :: rest => " " ++ stmt.print ++ printBody rest

def printMethods : List FunctionDecl → String
  | [] => ""
  | decl :: rest => " " ++ decl.print ++ printMethods rest

end

/-- A program takes one line for each top-level statement. -/
def printProgram (statements : List Stmt) : String :=
  String.intercalate "\n" (statements.map Stmt.print)

end Quill
