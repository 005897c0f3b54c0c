import Quill.Diagnostic
import Quill.Tree.Basic

/-!
Trees under other labels. Where a token stands, its line and the number of an expression are
labels: they can be exchanged in a whole tree while its shape, kinds and texts stay.
-/

namespace Quill

set_option autoImplicit false

/-- New spans and lines for old ones, and how much higher the numbers are. A bare program, a program
that stands further on and one that is numbered from another number on are cases of it. -/
structure Labels where
  span : Span → Span
  line : Nat → Nat
  shift : Nat

def Labels.same : Labels := ⟨id, id, 0⟩

def Labels.moved (bytes lines shift : Nat) : Labels where
  span := fun span => ⟨span.start + bytes, span.stop + bytes⟩
  line := (· + lines)
  shift := shift

def Labels.below (source : String) (shift : Nat) : Labels :=
  .moved (source.utf8ByteSize + 1) (source.toList.count '\n' + 1) shift

def Token.relabel (labels : Labels) (token : Token) : Token :=
  { token with span := labels.span token.span, line := labels.line token.line }

def Located.relabel {Cause : Type} (labels : Labels) (fault : Located Cause) : Located Cause :=
  { fault with line := labels.line fault.line }

section Trees

variable (labels : Labels)

mutual

def Expr.relabel : Expr → Expr
  | .literal id value => .literal (id + labels.shift) value
  | .grouping id inner => .grouping (id + labels.shift) inner.relabel
  | .unary id operator right =>
      .unary (id + labels.shift) (operator.relabel labels) right.relabel
  | .binary id left operator right =>
      .binary (id + labels.shift) left.relabel (operator.relabel labels) right.relabel
  | .logical id left operator right =>
      .logical (id + labels.shift) left.relabel (operator.relabel labels) right.relabel
  | .variableRef id name => .variableRef (id + labels.shift) (name.relabel labels)
  | .thisRef id keyword => .thisRef (id + labels.shift) (keyword.relabel labels)
  | .baseRef id keyword method =>
      .baseRef (id + labels.shift) (keyword.relabel labels) (method.relabel labels)
  | .assign id name value =>
      .assign (id + labels.shift) (name.relabel labels) value.relabel
  | .call id callee paren given =>
      .call (id + labels.shift) callee.relabel (paren.relabel labels) (relabelExprs given)
  | .get id object name => .get (id + labels.shift) object.relabel (name.relabel labels)
  | .set id object name value =>
      .set (id + labels.shift) object.relabel (name.relabel labels) value.relabel

def relabelExprs : List Expr → List Expr
  | [] => []
  | expr :: rest => expr.relabel :: relabelExprs rest

end

mutual

def Stmt.relabel : Stmt → Stmt
  | .expression expr => .expression (expr.relabel labels)
  | .varDecl name initializer =>
      .varDecl (name.relabel labels) (initializer.map (Expr.relabel labels))
  | .functionDecl decl => .functionDecl decl.relabel
  | .classDecl name base methods =>
      .classDecl (name.relabel labels) (base.map (Expr.relabel labels)) (relabelDecls methods)
  | .block body => .block (relabelStmts body)
  | .ifThen condition thenBranch => .ifThen (condition.relabel labels) thenBranch.relabel
  | .ifElse condition thenBranch elseBranch =>
      .ifElse (condition.relabel labels) thenBranch.relabel elseBranch.relabel
  | .whileLoop condition body => .whileLoop (condition.relabel labels) body.relabel
  | .returnStmt keyword value =>
      .returnStmt (keyword.relabel labels) (value.map (Expr.relabel labels))

def FunctionDecl.relabel : FunctionDecl → FunctionDecl
  | ⟨name, parameters, body⟩ =>
      ⟨name.relabel labels, parameters.map (Token.relabel labels), relabelStmts body⟩

def relabelStmts : List Stmt → List Stmt
  | [] => []
  | stmt :: rest => stmt.relabel :: relabelStmts rest

def relabelDecls : List FunctionDecl → List FunctionDecl
  | [] => []
  | decl :: rest => decl.relabel :: relabelDecls rest

end

@[simp] theorem relabel_kind (token : Token) : (token.relabel labels).kind = token.kind := rfl

@[simp] theorem relabel_lexeme (token : Token) : (token.relabel labels).lexeme = token.lexeme := rfl

theorem relabel_stmts_map (stmts : List Stmt) :
    relabelStmts labels stmts = stmts.map (Stmt.relabel labels) := by
  induction stmts with
  | nil => rfl
  | cons stmt rest induction => rw [relabelStmts, induction, List.map_cons]

theorem relabel_stmts_append (front back : List Stmt) :
    relabelStmts labels (front ++ back) =
      relabelStmts labels front ++ relabelStmts labels back := by
  simp [relabel_stmts_map]

theorem relabel_stmts_option (stmt : Option Stmt) :
    relabelStmts labels stmt.toList = (stmt.map (Stmt.relabel labels)).toList := by
  cases stmt <;> rfl

@[simp] theorem relabel_name (decl : FunctionDecl) :
    (decl.relabel labels).name = decl.name.relabel labels := by
  cases decl
  rfl

theorem relabel_for_loop (initializer : Option Stmt) (condition : Expr) (increment : Option Expr)
    (body : Stmt) :
    (Stmt.forLoop initializer condition increment body).relabel labels =
      .forLoop (initializer.map (Stmt.relabel labels)) (condition.relabel labels)
        (increment.map (Expr.relabel labels)) (body.relabel labels) := by
  cases initializer <;> cases increment <;> rfl

end Trees

section Same

@[simp] theorem token_same (token : Token) : token.relabel .same = token := rfl

@[simp] theorem tokens_same (tokens : List Token) : tokens.map (Token.relabel .same) = tokens :=
  List.map_id tokens

mutual

@[simp] theorem expr_same : (expr : Expr) → expr.relabel .same = expr
  | .literal _ _ | .variableRef _ _ | .thisRef _ _ | .baseRef _ _ _ => rfl
  | .grouping _ inner => by
      rw [Expr.relabel, expr_same inner]
      rfl
  | .unary _ _ right => by
      rw [Expr.relabel, expr_same right]
      rfl
  | .binary _ left _ right
  | .logical _ left _ right => by
      rw [Expr.relabel, expr_same left, expr_same right]
      rfl
  | .assign _ _ value => by
      rw [Expr.relabel, expr_same value]
      rfl
  | .call _ callee _ given => by
      rw [Expr.relabel, expr_same callee, exprs_same given]
      rfl
  | .get _ object _ => by
      rw [Expr.relabel, expr_same object]
      rfl
  | .set _ object _ value => by
      rw [Expr.relabel, expr_same object, expr_same value]
      rfl

theorem exprs_same : (exprs : List Expr) → relabelExprs .same exprs = exprs
  | [] => rfl
  | expr :: rest => by rw [relabelExprs, expr_same expr, exprs_same rest]

end

@[simp] theorem option_same (value : Option Expr) : value.map (Expr.relabel .same) = value := by
  cases value <;> simp

mutual

theorem stmt_same : (stmt : Stmt) → stmt.relabel .same = stmt
  | .expression _ | .varDecl _ _ | .returnStmt _ _ => by simp [Stmt.relabel]
  | .functionDecl decl => by rw [Stmt.relabel, decl_same decl]
  | .classDecl _ _ methods => by simp [Stmt.relabel, decls_same methods]
  | .block body => by rw [Stmt.relabel, stmts_same body]
  | .ifThen _ thenBranch => by simp [Stmt.relabel, stmt_same thenBranch]
  | .ifElse _ thenBranch elseBranch => by
      simp [Stmt.relabel, stmt_same thenBranch, stmt_same elseBranch]
  | .whileLoop _ body => by simp [Stmt.relabel, stmt_same body]

theorem decl_same : (decl : FunctionDecl) → decl.relabel .same = decl
  | ⟨_, _, body⟩ => by simp [FunctionDecl.relabel, stmts_same body]

theorem stmts_same : (stmts : List Stmt) → relabelStmts .same stmts = stmts
  | [] => rfl
  | stmt :: rest => by rw [relabelStmts, stmt_same stmt, stmts_same rest]

theorem decls_same : (decls : List FunctionDecl) → relabelDecls .same decls = decls
  | [] => rfl
  | decl :: rest => by rw [relabelDecls, decl_same decl, decls_same rest]

end

end Same

end Quill
