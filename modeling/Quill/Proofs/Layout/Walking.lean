import Quill.Proofs.Layout.Bare

/-!
Resolution does not see how tokens are labelled, and numbers it only passes on: the walk over
a tree under other labels is the walk over the tree itself, with its violations on other lines
and its entries shifted behind whatever the table held before.
-/

namespace Quill.Scope

set_option autoImplicit false

namespace Table

def shifted (shift : Nat) (table : Table) : List (Nat × Nat) :=
  table.entries.map fun entry => (entry.1 + shift, entry.2)

theorem insert_entry_behind {earlier : List (Nat × Nat)} {id : Nat}
    (below : ∀ entry ∈ earlier, entry.1 < id) (distance : Nat) (entries : List (Nat × Nat)) :
    insertEntry id distance (earlier ++ entries) = earlier ++ insertEntry id distance entries := by
  induction earlier with
  | nil => rfl
  | cons entry earlier induction =>
      have first := below entry List.mem_cons_self
      have rest := induction fun other member => below other (List.mem_cons_of_mem _ member)
      simp only [List.cons_append, insertEntry]
      rw [if_neg (Nat.lt_asymm first), if_neg (Nat.ne_of_gt first), rest]

theorem insert_entry_shifted (shift id distance : Nat) (entries : List (Nat × Nat)) :
    insertEntry (id + shift) distance (entries.map fun entry => (entry.1 + shift, entry.2)) =
      (insertEntry id distance entries).map fun entry => (entry.1 + shift, entry.2) := by
  induction entries with
  | nil => rfl
  | cons entry entries induction =>
      simp only [List.map_cons, insertEntry, Nat.add_lt_add_iff_right, Nat.add_right_cancel_iff,
        induction]
      split
      · rfl
      · split <;> rfl

end Table

section Relabelling

variable (labels : Labels) (earlier : List (Nat × Nat))

namespace Walk

def relabel (walk : Walk) : Walk where
  scopes := walk.scopes
  table := ⟨earlier ++ walk.table.shifted labels.shift⟩
  faults := walk.faults.map (Located.relabel labels)

@[simp] theorem relabel_open (walk : Walk) :
    (walk.relabel labels earlier).openScope = walk.openScope.relabel labels earlier := rfl

@[simp] theorem relabel_close (walk : Walk) :
    (walk.relabel labels earlier).closeScope = walk.closeScope.relabel labels earlier := rfl

@[simp] theorem relabel_holds (walk : Walk) (name : String) :
    (walk.relabel labels earlier).holds name = walk.holds name := rfl

@[simp] theorem relabel_pending (walk : Walk) (name : String) :
    (walk.relabel labels earlier).pending name = walk.pending name := rfl

@[simp] theorem relabel_hold (walk : Walk) (name : String) (readable : Bool) :
    (walk.relabel labels earlier).hold name readable =
      (walk.hold name readable).relabel labels earlier := by
  rcases walk with ⟨scopes, table, faults⟩
  cases scopes <;> rfl

@[simp] theorem relabel_violate (walk : Walk) (token : Token) (violation : Violation) :
    (walk.relabel labels earlier).violate (token.relabel labels) violation =
      (walk.violate token violation).relabel labels earlier := by
  simp [violate, relabel, Located.relabel, Token.relabel]

@[simp] theorem relabel_violate_if (walk : Walk) (condition : Bool) (token : Token)
    (violation : Violation) :
    (walk.relabel labels earlier).violateIf condition (token.relabel labels) violation =
      (walk.violateIf condition token violation).relabel labels earlier := by
  cases condition with
  | true => exact relabel_violate labels earlier walk token violation
  | false => rfl

@[simp] theorem relabel_declare (walk : Walk) (name : Token) :
    (walk.relabel labels earlier).declare (name.relabel labels) =
      (walk.declare name).relabel labels earlier := by
  simp [declare]

@[simp] theorem relabel_define (walk : Walk) (name : Token) :
    (walk.relabel labels earlier).define (name.relabel labels) =
      (walk.define name).relabel labels earlier := by
  simp [define]

@[simp] theorem relabel_introduce (walk : Walk) (name : Token) :
    (walk.relabel labels earlier).introduce (name.relabel labels) =
      (walk.introduce name).relabel labels earlier := by
  simp [introduce]

theorem relabel_introduce_all (names : List Token) (walk : Walk) :
    (names.map (Token.relabel labels)).foldl introduce (walk.relabel labels earlier) =
      (names.foldl introduce walk).relabel labels earlier := by
  induction names generalizing walk with
  | nil => rfl
  | cons name names induction =>
      rw [List.map_cons, List.foldl_cons, relabel_introduce, induction, List.foldl_cons]

variable {labels earlier} in
theorem relabel_bind (below : ∀ entry ∈ earlier, entry.1 < labels.shift) (walk : Walk) (id : Nat)
    (name : Token) :
    (walk.relabel labels earlier).bind (id + labels.shift) (name.relabel labels) =
      (walk.bind id name).relabel labels earlier := by
  have higher : ∀ entry ∈ earlier, entry.1 < id + labels.shift := fun entry member =>
    Nat.lt_of_lt_of_le (below entry member) (Nat.le_add_left _ _)
  unfold bind
  simp only [relabel, relabel_lexeme]
  split
  · simp only [Table.insert, Table.shifted]
    rw [Table.insert_entry_behind higher, Table.insert_entry_shifted]
  · rfl

end Walk

variable {labels earlier}

mutual

theorem walk_expr_relabel (below : ∀ entry ∈ earlier, entry.1 < labels.shift)
    (owner : Owner) : (expr : Expr) → (walk : Walk) →
    walkExpr owner (expr.relabel labels) (walk.relabel labels earlier) =
      (walkExpr owner expr walk).relabel labels earlier
  | .literal _ _, _ => rfl
  | .grouping _ inner, walk => walk_expr_relabel below owner inner walk
  | .unary _ _ right, walk => walk_expr_relabel below owner right walk
  | .binary _ left _ right, walk
  | .logical _ left _ right, walk => by
      simp only [Expr.relabel, walkExpr]
      rw [walk_expr_relabel below owner left walk, walk_expr_relabel below owner right]
  | .variableRef _ _, walk => by
      simp [Expr.relabel, walkExpr, Walk.relabel_bind below]
  | .thisRef _ _, walk
  | .baseRef _ _ _, walk => by
      cases owner <;> simp [Expr.relabel, walkExpr, Walk.relabel_bind below]
  | .assign _ _ value, walk => by
      simp only [Expr.relabel, walkExpr]
      rw [walk_expr_relabel below owner value walk, Walk.relabel_bind below]
  | .call _ callee _ given, walk => by
      simp only [Expr.relabel, walkExpr]
      rw [walk_expr_relabel below owner callee walk, walk_exprs_relabel below owner given]
  | .get _ object _, walk => walk_expr_relabel below owner object walk
  | .set _ object _ value, walk => by
      simp only [Expr.relabel, walkExpr]
      rw [walk_expr_relabel below owner object walk, walk_expr_relabel below owner value]

theorem walk_exprs_relabel (below : ∀ entry ∈ earlier, entry.1 < labels.shift)
    (owner : Owner) : (exprs : List Expr) → (walk : Walk) →
    walkExprs owner (relabelExprs labels exprs) (walk.relabel labels earlier) =
      (walkExprs owner exprs walk).relabel labels earlier
  | [], _ => rfl
  | expr :: rest, walk => by
      simp only [relabelExprs, walkExprs]
      rw [walk_expr_relabel below owner expr walk, walk_exprs_relabel below owner rest]

end

theorem walk_option_relabel (below : ∀ entry ∈ earlier, entry.1 < labels.shift)
    (owner : Owner) (expr : Option Expr) (walk : Walk) :
    walkOption owner (expr.map (Expr.relabel labels)) (walk.relabel labels earlier) =
      (walkOption owner expr walk).relabel labels earlier := by
  cases expr with
  | none => rfl
  | some expr => exact walk_expr_relabel below owner expr walk

theorem check_base_relabel (name : Token) (base : Expr) (walk : Walk) :
    checkBase (name.relabel labels) (base.relabel labels) (walk.relabel labels earlier) =
      (checkBase name base walk).relabel labels earlier := by
  cases base with
  | variableRef id baseName => simp [checkBase, Expr.relabel]
  | _ => rfl

theorem method_routine_relabel (className methodName : Token) :
    methodRoutine (className.relabel labels) (methodName.relabel labels) =
      methodRoutine className methodName := rfl

mutual

/-- A statement under other labels is walked as before, with the same faults at the new labels. The
table may hold earlier entries, as long as they are below all new numbers. -/
theorem walk_stmt_relabel (below : ∀ entry ∈ earlier, entry.1 < labels.shift)
    (context : Context) : (stmt : Stmt) → (walk : Walk) →
    walkStmt context (stmt.relabel labels) (walk.relabel labels earlier) =
      (walkStmt context stmt walk).relabel labels earlier
  | .expression expr, walk => walk_expr_relabel below context.owner expr walk
  | .varDecl name initializer, walk => by
      simp only [Stmt.relabel, walkStmt]
      rw [Walk.relabel_declare, walk_option_relabel below, Walk.relabel_define]
  | .functionDecl decl, walk => by
      simp only [Stmt.relabel, walkStmt]
      rw [relabel_name, Walk.relabel_introduce, walk_function_relabel below _ decl]
  | .classDecl name none methods, walk => by
      simp only [Stmt.relabel, walkStmt, Option.map_none]
      rw [Walk.relabel_introduce, Walk.relabel_open, Walk.relabel_hold,
        walk_methods_relabel below _ name methods, Walk.relabel_close]
  | .classDecl name (some base) methods, walk => by
      simp only [Stmt.relabel, walkStmt, Option.map_some]
      rw [Walk.relabel_introduce, check_base_relabel, walk_expr_relabel below, Walk.relabel_open,
        Walk.relabel_hold, Walk.relabel_open, Walk.relabel_hold,
        walk_methods_relabel below _ name methods, Walk.relabel_close, Walk.relabel_close]
  | .block body, walk => by
      simp only [Stmt.relabel, walkStmt]
      rw [Walk.relabel_open, walk_body_relabel below context body, Walk.relabel_close]
  | .ifThen condition thenBranch, walk => by
      simp only [Stmt.relabel, walkStmt]
      rw [walk_expr_relabel below, walk_stmt_relabel below context thenBranch]
  | .ifElse condition thenBranch elseBranch, walk => by
      simp only [Stmt.relabel, walkStmt]
      rw [walk_expr_relabel below, walk_stmt_relabel below context thenBranch,
        walk_stmt_relabel below context elseBranch]
  | .whileLoop condition body, walk => by
      simp only [Stmt.relabel, walkStmt]
      rw [walk_expr_relabel below, walk_stmt_relabel below context body]
  | .returnStmt keyword value, walk => by
      simp only [Stmt.relabel, walkStmt, Option.isSome_map]
      rw [Walk.relabel_violate_if, Walk.relabel_violate_if, walk_option_relabel below]

theorem walk_function_relabel (below : ∀ entry ∈ earlier, entry.1 < labels.shift)
    (context : Context) : (decl : FunctionDecl) → (walk : Walk) →
    walkFunction context (decl.relabel labels) (walk.relabel labels earlier) =
      (walkFunction context decl walk).relabel labels earlier
  | ⟨name, parameters, body⟩, walk => by
      simp only [FunctionDecl.relabel, walkFunction]
      rw [Walk.relabel_open, Walk.relabel_introduce_all, walk_body_relabel below context body,
        Walk.relabel_close]

theorem walk_body_relabel (below : ∀ entry ∈ earlier, entry.1 < labels.shift)
    (context : Context) : (stmts : List Stmt) → (walk : Walk) →
    walkBody context (relabelStmts labels stmts) (walk.relabel labels earlier) =
      (walkBody context stmts walk).relabel labels earlier
  | [], _ => rfl
  | stmt :: rest, walk => by
      simp only [relabelStmts, walkBody]
      rw [walk_stmt_relabel below context stmt walk, walk_body_relabel below context rest]

theorem walk_methods_relabel (below : ∀ entry ∈ earlier, entry.1 < labels.shift)
    (context : Context) (className : Token) :
    (decls : List FunctionDecl) → (walk : Walk) →
      walkMethods context (className.relabel labels) (relabelDecls labels decls)
          (walk.relabel labels earlier) =
        (walkMethods context className decls walk).relabel labels earlier
  | [], _ => rfl
  | decl :: rest, walk => by
      simp only [relabelDecls, walkMethods]
      rw [relabel_name, method_routine_relabel, walk_function_relabel below _ decl walk,
        walk_methods_relabel below context className rest]

end

end Relabelling

/-- A program under other labels, with expressions numbered as before, resolves as the program
does. -/
theorem resolve_relabel (labels : Labels) (unshifted : labels.shift = 0) (statements : List Stmt) :
    resolve (relabelStmts labels statements) =
      (resolve statements).mapError (List.map (Located.relabel labels)) := by
  let walk := walkBody ⟨.topLevel, .outside⟩ statements .start
  have nothing : ∀ entry ∈ ([] : List (Nat × Nat)), entry.1 < labels.shift := by simp
  have walked : walkBody ⟨.topLevel, .outside⟩ (relabelStmts labels statements) .start =
      walk.relabel labels [] :=
    walk_body_relabel nothing ⟨.topLevel, .outside⟩ statements .start
  have table : (walk.relabel labels []).table = walk.table := by
    simp [Walk.relabel, Table.shifted, unshifted]
  unfold resolve
  simp only [walked, table]
  cases faults : walk.faults with
  | nil =>
      simp only [Walk.relabel, faults, List.map_nil]
      rfl
  | cons fault others =>
      simp only [Walk.relabel, faults, List.map_cons]
      rfl

theorem resolve_bare (statements : List Stmt) :
    resolve (bareStmts statements) =
      (resolve statements).mapError (List.map Located.bare) := by
  rw [← stmts_relabel_bare]
  exact resolve_relabel _ rfl statements

end Quill.Scope
