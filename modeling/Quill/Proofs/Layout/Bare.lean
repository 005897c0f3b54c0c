import Quill.Grammar.Statement
import Quill.Proofs.Layout.Relabel
import Quill.Scope.Resolve

/-!
Tokens and trees without their place in the source. A bare token keeps its kind and its
text; where it stands and on which line is forgotten. A bare tree has bare tokens and is
otherwise the same, with the same numbers.
-/

namespace Quill

set_option autoImplicit false

def Token.bare (token : Token) : Token := { token with span := ⟨0, 0⟩, line := 0 }

@[simp] theorem Token.bare_kind (token : Token) : token.bare.kind = token.kind := rfl

@[simp] theorem Token.bare_lexeme (token : Token) : token.bare.lexeme = token.lexeme := rfl

@[simp] theorem Token.bare_line (token : Token) : token.bare.line = 0 := rfl

/-- Tokens are the same once bare if they agree in kind and text. -/
theorem Token.bare_eq_iff (token other : Token) :
    token.bare = other.bare ↔ token.kind = other.kind ∧ token.lexeme = other.lexeme := by
  simp [Token.bare]

def Located.bare {Cause : Type} (fault : Located Cause) : Located Cause := { fault with line := 0 }

mutual

def Expr.bare : Expr → Expr
  | .literal id value => .literal id value
  | .grouping id inner => .grouping id inner.bare
  | .unary id operator right => .unary id operator.bare right.bare
  | .binary id left operator right => .binary id left.bare operator.bare right.bare
  | .logical id left operator right => .logical id left.bare operator.bare right.bare
  | .variableRef id name => .variableRef id name.bare
  | .thisRef id keyword => .thisRef id keyword.bare
  | .baseRef id keyword method => .baseRef id keyword.bare method.bare
  | .assign id name value => .assign id name.bare value.bare
  | .call id callee paren given => .call id callee.bare paren.bare (bareExprs given)
  | .get id object name => .get id object.bare name.bare
  | .set id object name value => .set id object.bare name.bare value.bare

def bareExprs : List Expr → List Expr
  | [] => []
  | expr :: rest => expr.bare :: bareExprs rest

end

mutual

def Stmt.bare : Stmt → Stmt
  | .expression expr => .expression expr.bare
  | .varDecl name initializer => .varDecl name.bare (initializer.map Expr.bare)
  | .functionDecl decl => .functionDecl decl.bare
  | .classDecl name base methods => .classDecl name.bare (base.map Expr.bare) (bareDecls methods)
  | .block body => .block (bareStmts body)
  | .ifThen condition thenBranch => .ifThen condition.bare thenBranch.bare
  | .ifElse condition thenBranch elseBranch => .ifElse condition.bare thenBranch.bare elseBranch.bare
  | .whileLoop condition body => .whileLoop condition.bare body.bare
  | .returnStmt keyword value => .returnStmt keyword.bare (value.map Expr.bare)

def FunctionDecl.bare : FunctionDecl → FunctionDecl
  | ⟨name, parameters, body⟩ => ⟨name.bare, parameters.map Token.bare, bareStmts body⟩

def bareStmts : List Stmt → List Stmt
  | [] => []
  | stmt :: rest => stmt.bare :: bareStmts rest

def bareDecls : List FunctionDecl → List FunctionDecl
  | [] => []
  | decl :: rest => decl.bare :: bareDecls rest

end

@[simp] theorem FunctionDecl.bare_name (decl : FunctionDecl) : decl.bare.name = decl.name.bare := by
  cases decl
  rfl

@[simp] theorem FunctionDecl.bare_parameters (decl : FunctionDecl) :
    decl.bare.parameters = decl.parameters.map Token.bare := by
  cases decl
  rfl

@[simp] theorem FunctionDecl.bare_body (decl : FunctionDecl) :
    decl.bare.body = bareStmts decl.body := by
  cases decl
  rfl

def Labels.bare : Labels := ⟨fun _ => ⟨0, 0⟩, fun _ => 0, 0⟩

theorem token_relabel_bare : Token.relabel .bare = Token.bare := rfl

mutual

theorem expr_relabel_bare : (expr : Expr) → expr.relabel .bare = expr.bare
  | .literal _ _ | .variableRef _ _ | .thisRef _ _ | .baseRef _ _ _ => rfl
  | .grouping _ inner => by
      rw [Expr.relabel, expr_relabel_bare inner]
      rfl
  | .unary _ _ right => by
      rw [Expr.relabel, expr_relabel_bare right]
      rfl
  | .binary _ left _ right
  | .logical _ left _ right => by
      rw [Expr.relabel, expr_relabel_bare left, expr_relabel_bare right]
      rfl
  | .assign _ _ value => by
      rw [Expr.relabel, expr_relabel_bare value]
      rfl
  | .call _ callee _ given => by
      rw [Expr.relabel, expr_relabel_bare callee, exprs_relabel_bare given]
      rfl
  | .get _ object _ => by
      rw [Expr.relabel, expr_relabel_bare object]
      rfl
  | .set _ object _ value => by
      rw [Expr.relabel, expr_relabel_bare object, expr_relabel_bare value]
      rfl

theorem exprs_relabel_bare : (exprs : List Expr) → relabelExprs .bare exprs = bareExprs exprs
  | [] => rfl
  | expr :: rest => by
      rw [relabelExprs, expr_relabel_bare expr, exprs_relabel_bare rest, bareExprs]

end

theorem option_relabel_bare : Option.map (Expr.relabel .bare) = Option.map Expr.bare := by
  funext value
  exact congrArg (Option.map · value) (funext expr_relabel_bare)

mutual

theorem stmt_relabel_bare : (stmt : Stmt) → stmt.relabel .bare = stmt.bare
  | .expression _ | .varDecl _ _ | .returnStmt _ _ => by
      simp only [Stmt.relabel, Stmt.bare, expr_relabel_bare, option_relabel_bare,
        token_relabel_bare]
  | .functionDecl decl => by rw [Stmt.relabel, decl_relabel_bare decl, Stmt.bare]
  | .classDecl _ _ methods => by
      rw [Stmt.relabel, decls_relabel_bare methods, option_relabel_bare, Stmt.bare,
        token_relabel_bare]
  | .block body => by rw [Stmt.relabel, stmts_relabel_bare body, Stmt.bare]
  | .ifThen _ thenBranch => by
      rw [Stmt.relabel, expr_relabel_bare, stmt_relabel_bare thenBranch, Stmt.bare]
  | .ifElse _ thenBranch elseBranch => by
      rw [Stmt.relabel, expr_relabel_bare, stmt_relabel_bare thenBranch,
        stmt_relabel_bare elseBranch, Stmt.bare]
  | .whileLoop _ body => by
      rw [Stmt.relabel, expr_relabel_bare, stmt_relabel_bare body, Stmt.bare]

theorem decl_relabel_bare : (decl : FunctionDecl) → decl.relabel .bare = decl.bare
  | ⟨_, _, body⟩ => by
      rw [FunctionDecl.relabel, stmts_relabel_bare body, FunctionDecl.bare, token_relabel_bare]

theorem stmts_relabel_bare : (stmts : List Stmt) → relabelStmts .bare stmts = bareStmts stmts
  | [] => rfl
  | stmt :: rest => by
      rw [relabelStmts, stmt_relabel_bare stmt, stmts_relabel_bare rest, bareStmts]

theorem decls_relabel_bare : (decls : List FunctionDecl) →
    relabelDecls .bare decls = bareDecls decls
  | [] => rfl
  | decl :: rest => by
      rw [relabelDecls, decl_relabel_bare decl, decls_relabel_bare rest, bareDecls]

end

end Quill
