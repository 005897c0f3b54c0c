import Quill.Proofs.Layout.Relabel

/-!
Trees up to the numbers of their expressions. Two trees that differ in nothing else become
the same once all numbers are zero; in particular, a tree whose numbers have been moved does.
-/

namespace Quill

set_option autoImplicit false

mutual

def Expr.unnumbered : Expr → Expr
  | .literal _ value => .literal 0 value
  | .grouping _ inner => .grouping 0 inner.unnumbered
  | .unary _ operator right => .unary 0 operator right.unnumbered
  | .binary _ left operator right => .binary 0 left.unnumbered operator right.unnumbered
  | .logical _ left operator right => .logical 0 left.unnumbered operator right.unnumbered
  | .variableRef _ name => .variableRef 0 name
  | .thisRef _ keyword => .thisRef 0 keyword
  | .baseRef _ keyword method => .baseRef 0 keyword method
  | .assign _ name value => .assign 0 name value.unnumbered
  | .call _ callee paren given => .call 0 callee.unnumbered paren (unnumberedExprs given)
  | .get _ object name => .get 0 object.unnumbered name
  | .set _ object name value => .set 0 object.unnumbered name value.unnumbered

def unnumberedExprs : List Expr → List Expr
  | [] => []
  | expr :: rest => expr.unnumbered :: unnumberedExprs rest

end

mutual

def Stmt.unnumbered : Stmt → Stmt
  | .expression expr => .expression expr.unnumbered
  | .varDecl name initializer => .varDecl name (initializer.map Expr.unnumbered)
  | .functionDecl decl => .functionDecl decl.unnumbered
  | .classDecl name base methods =>
      .classDecl name (base.map Expr.unnumbered) (unnumberedDecls methods)
  | .block body => .block (unnumberedStmts body)
  | .ifThen condition thenBranch => .ifThen condition.unnumbered thenBranch.unnumbered
  | .ifElse condition thenBranch elseBranch =>
      .ifElse condition.unnumbered thenBranch.unnumbered elseBranch.unnumbered
  | .whileLoop condition body => .whileLoop condition.unnumbered body.unnumbered
  | .returnStmt keyword value => .returnStmt keyword (value.map Expr.unnumbered)

def FunctionDecl.unnumbered : FunctionDecl → FunctionDecl
  | ⟨name, parameters, body⟩ => ⟨name, parameters, unnumberedStmts body⟩

def unnumberedStmts : List Stmt → List Stmt
  | [] => []
  | stmt :: rest => stmt.unnumbered :: unnumberedStmts rest

def unnumberedDecls : List FunctionDecl → List FunctionDecl
  | [] => []
  | decl :: rest => decl.unnumbered :: unnumberedDecls rest

end

def Labels.numbered (shift : Nat) : Labels := ⟨id, id, shift⟩

section Numbered

variable (shift : Nat)

@[simp] theorem token_numbered (token : Token) : token.relabel (.numbered shift) = token := rfl

@[simp] theorem tokens_numbered (tokens : List Token) :
    tokens.map (Token.relabel (.numbered shift)) = tokens :=
  List.map_id tokens

mutual

theorem expr_numbered : (expr : Expr) →
    (expr.relabel (.numbered shift)).unnumbered = expr.unnumbered
  | .literal _ _ | .variableRef _ _ | .thisRef _ _ | .baseRef _ _ _ => rfl
  | .grouping _ inner => by simp [Expr.relabel, Expr.unnumbered, expr_numbered inner]
  | .unary _ _ right => by simp [Expr.relabel, Expr.unnumbered, expr_numbered right]
  | .binary _ left _ right | .logical _ left _ right => by
      simp [Expr.relabel, Expr.unnumbered, expr_numbered left, expr_numbered right]
  | .assign _ _ value => by simp [Expr.relabel, Expr.unnumbered, expr_numbered value]
  | .call _ callee _ given => by
      simp [Expr.relabel, Expr.unnumbered, expr_numbered callee, exprs_numbered given]
  | .get _ object _ => by simp [Expr.relabel, Expr.unnumbered, expr_numbered object]
  | .set _ object _ value => by
      simp [Expr.relabel, Expr.unnumbered, expr_numbered object, expr_numbered value]

theorem exprs_numbered : (exprs : List Expr) →
    unnumberedExprs (relabelExprs (.numbered shift) exprs) = unnumberedExprs exprs
  | [] => rfl
  | expr :: rest => by
      simp [relabelExprs, unnumberedExprs, expr_numbered expr, exprs_numbered rest]

end

theorem option_numbered (value : Option Expr) :
    (value.map (Expr.relabel (.numbered shift))).map Expr.unnumbered =
      value.map Expr.unnumbered := by
  cases value with
  | none => rfl
  | some expr => exact congrArg some (expr_numbered shift expr)

mutual

theorem stmt_numbered : (stmt : Stmt) →
    (stmt.relabel (.numbered shift)).unnumbered = stmt.unnumbered
  | .expression expr => by simp [Stmt.relabel, Stmt.unnumbered, expr_numbered]
  | .varDecl _ value | .returnStmt _ value => by
      simp only [Stmt.relabel, Stmt.unnumbered, token_numbered, option_numbered]
  | .functionDecl decl => by simp [Stmt.relabel, Stmt.unnumbered, decl_numbered decl]
  | .classDecl _ _ methods => by
      simp only [Stmt.relabel, Stmt.unnumbered, token_numbered, option_numbered,
        decls_numbered methods]
  | .block body => by simp [Stmt.relabel, Stmt.unnumbered, stmts_numbered body]
  | .ifThen _ thenBranch => by
      simp [Stmt.relabel, Stmt.unnumbered, expr_numbered, stmt_numbered thenBranch]
  | .ifElse _ thenBranch elseBranch => by
      simp [Stmt.relabel, Stmt.unnumbered, expr_numbered, stmt_numbered thenBranch,
        stmt_numbered elseBranch]
  | .whileLoop _ body => by
      simp [Stmt.relabel, Stmt.unnumbered, expr_numbered, stmt_numbered body]

theorem decl_numbered : (decl : FunctionDecl) →
    (decl.relabel (.numbered shift)).unnumbered = decl.unnumbered
  | ⟨_, _, body⟩ => by
      simp [FunctionDecl.relabel, FunctionDecl.unnumbered, stmts_numbered body]

theorem stmts_numbered : (stmts : List Stmt) →
    unnumberedStmts (relabelStmts (.numbered shift) stmts) = unnumberedStmts stmts
  | [] => rfl
  | stmt :: rest => by
      simp [relabelStmts, unnumberedStmts, stmt_numbered stmt, stmts_numbered rest]

theorem decls_numbered : (decls : List FunctionDecl) →
    unnumberedDecls (relabelDecls (.numbered shift) decls) = unnumberedDecls decls
  | [] => rfl
  | decl :: rest => by
      simp [relabelDecls, unnumberedDecls, decl_numbered decl, decls_numbered rest]

end

end Numbered

end Quill
