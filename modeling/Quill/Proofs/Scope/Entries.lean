import Quill.Proofs.Scope.Rules
import Quill.Proofs.Tree.Routines

/-!
The routines that the walk enters. An entry is a routine with the context and the state in which
the walk comes to it, and entries are listed from the walk's own functions. A walk that ends
without faults had none on its way, so whatever it came to has passed its checks: the statements
of each routine may return as the context of its entry allows.
-/

namespace Quill.Scope

set_option autoImplicit false

structure Entry where
  context : Context
  decl : FunctionDecl
  walk : Walk

mutual

def stmtEntries (context : Context) : Stmt → Walk → List Entry
  | .expression _, _ => []
  | .varDecl _ _, _ => []
  | .functionDecl decl, walk =>
      routineEntries { context with routine := .function } decl (walk.introduce decl.name)
  | .classDecl name none methods, walk =>
      let opened := (walk.introduce name).openScope.hold "this" true
      methodEntries { context with owner := .plain } name methods opened
  | .classDecl name (some base) methods, walk =>
      let named := checkBase name base (walk.introduce name)
      let outer := (walkExpr .derived base named).openScope.hold "base" true
      let opened := outer.openScope.hold "this" true
      methodEntries { context with owner := .derived } name methods opened
  | .block body, walk => bodyEntries context body walk.openScope
  | .ifThen condition thenBranch, walk =>
      stmtEntries context thenBranch (walkExpr context.owner condition walk)
  | .ifElse condition thenBranch elseBranch, walk =>
      let tested := walkExpr context.owner condition walk
      stmtEntries context thenBranch tested ++
        stmtEntries context elseBranch (walkStmt context thenBranch tested)
  | .whileLoop condition body, walk =>
      stmtEntries context body (walkExpr context.owner condition walk)
  | .returnStmt _ _, _ => []

def routineEntries (context : Context) : FunctionDecl → Walk → List Entry
  | ⟨name, parameters, body⟩, walk =>
      ⟨context, ⟨name, parameters, body⟩, walk⟩ ::
        bodyEntries context body (parameters.foldl Walk.introduce walk.openScope)

def methodEntries (context : Context) (className : Token) : List FunctionDecl → Walk → List Entry
  | [], _ => []
  | decl :: rest, walk =>
      let inside := { context with routine := methodRoutine className decl.name }
      routineEntries inside decl walk ++
        methodEntries context className rest (walkFunction inside decl walk)

def bodyEntries (context : Context) : List Stmt → Walk → List Entry
  | [], _ => []
  | stmt :: rest, walk =>
      stmtEntries context stmt walk ++ bodyEntries context rest (walkStmt context stmt walk)

end

def entries (statements : List Stmt) : List Entry :=
  bodyEntries ⟨.topLevel, .outside⟩ statements .start

section Names

def Entry.name (entry : Entry) : Token := entry.decl.name

mutual

theorem stmt_entries_names (context : Context) : (stmt : Stmt) → (walk : Walk) →
    (stmtEntries context stmt walk).map Entry.name = routineNames stmt.nodes
  | .expression _, _ | .varDecl _ _, _ | .returnStmt _ _, _ => by simp [stmtEntries, Stmt.nodes]
  | .functionDecl decl, walk => by
      simp [stmtEntries, Stmt.nodes, routine_entries_names _ decl]
  | .classDecl name none methods, walk => by
      simp [stmtEntries, Stmt.nodes, method_entries_names _ name methods]
  | .classDecl name (some base) methods, walk => by
      simp [stmtEntries, Stmt.nodes, method_entries_names _ name methods]
  | .block body, walk => by
      simp [stmtEntries, Stmt.nodes, body_entries_names context body]
  | .ifThen condition thenBranch, walk => by
      simp [stmtEntries, Stmt.nodes, stmt_entries_names context thenBranch]
  | .ifElse condition thenBranch elseBranch, walk => by
      simp [stmtEntries, Stmt.nodes, stmt_entries_names context thenBranch,
        stmt_entries_names context elseBranch]
  | .whileLoop condition body, walk => by
      simp [stmtEntries, Stmt.nodes, stmt_entries_names context body]

theorem routine_entries_names (context : Context) : (decl : FunctionDecl) → (walk : Walk) →
    (routineEntries context decl walk).map Entry.name = routineNames decl.nodes
  | ⟨name, parameters, body⟩, walk => by
      simp [routineEntries, FunctionDecl.nodes, body_entries_names context body, Entry.name]

theorem method_entries_names (context : Context) (className : Token) :
    (decls : List FunctionDecl) → (walk : Walk) →
      (methodEntries context className decls walk).map Entry.name = routineNames (methodNodes decls)
  | [], _ => rfl
  | decl :: rest, walk => by
      simp [methodEntries, methodNodes, routine_entries_names _ decl,
        method_entries_names context className rest]

theorem body_entries_names (context : Context) : (stmts : List Stmt) → (walk : Walk) →
    (bodyEntries context stmts walk).map Entry.name = routineNames (bodyNodes stmts)
  | [], _ => rfl
  | stmt :: rest, walk => by
      simp [bodyEntries, bodyNodes, stmt_entries_names context stmt, body_entries_names context rest]

end

/-- The walk enters each routine once. Routines of one text at two places differ in the tokens of
their names, so a routine tells where it stands. -/
theorem entry_unique {source : String} {program : Program}
    (compiles : Program.compile source = .ok program) {entry other : Entry}
    (member : entry ∈ entries program.statements) (otherMember : other ∈ entries program.statements)
    (same : entry.decl = other.decl) : entry = other := by
  obtain ⟨parsed, parses, -, statements, -⟩ := compile_ok compiles
  have distinct := parse_routines parses
  rw [statements, ← body_entries_names ⟨.topLevel, .outside⟩ _ .start] at distinct
  exact List.inj_on_of_nodup_map distinct member otherMember (congrArg FunctionDecl.name same)

end Names

section Clean

theorem violate_if_clean {walk : Walk} {condition : Bool} {token : Token} {violation : Violation}
    (clean : (walk.violateIf condition token violation).faults = []) :
    walk.faults = [] ∧ condition = false := by
  cases condition with
  | false => exact ⟨clean, rfl⟩
  | true => simp [Walk.violateIf, Walk.violate] at clean

theorem introduce_clean {walk : Walk} {name : Token} (clean : (walk.introduce name).faults = []) :
    walk.faults = [] := by
  rw [Walk.introduce, Walk.define, hold_faults, Walk.declare] at clean
  have declared := (violate_if_clean clean).1
  rwa [hold_faults] at declared

theorem introduce_all_clean {names : List Token} {walk : Walk}
    (clean : (names.foldl Walk.introduce walk).faults = []) : walk.faults = [] := by
  induction names generalizing walk with
  | nil => exact clean
  | cons name rest induction => exact introduce_clean (induction clean)

theorem check_base_clean {name : Token} {base : Expr} {walk : Walk}
    (clean : (checkBase name base walk).faults = []) : walk.faults = [] := by
  cases base with
  | variableRef id baseName => exact (violate_if_clean clean).1
  | _ => exact clean

mutual

theorem walk_expr_clean {owner : Owner} : (expr : Expr) → {walk : Walk} →
    (walkExpr owner expr walk).faults = [] → walk.faults = []
  | .literal _ _, _, clean => clean
  | .grouping _ inner, _, clean => walk_expr_clean inner clean
  | .unary _ _ right, _, clean => walk_expr_clean right clean
  | .binary _ left _ right, _, clean => walk_expr_clean left (walk_expr_clean right clean)
  | .logical _ left _ right, _, clean => walk_expr_clean left (walk_expr_clean right clean)
  | .variableRef _ _, _, clean => by
      rw [walkExpr, bind_faults] at clean
      exact (violate_if_clean clean).1
  | .thisRef _ _, _, clean => by
      cases owner with
      | outside => simp [walkExpr, Walk.violate] at clean
      | plain => simpa [walkExpr, bind_faults] using clean
      | derived => simpa [walkExpr, bind_faults] using clean
  | .baseRef _ _ _, _, clean => by
      cases owner with
      | outside => simp [walkExpr, Walk.violate] at clean
      | plain => simp [walkExpr, Walk.violate] at clean
      | derived => rwa [walkExpr, bind_faults] at clean
  | .assign _ _ value, _, clean => by
      rw [walkExpr, bind_faults] at clean
      exact walk_expr_clean value clean
  | .call _ callee _ given, _, clean => walk_expr_clean callee (walk_exprs_clean given clean)
  | .get _ object _, _, clean => walk_expr_clean object clean
  | .set _ object _ value, _, clean => walk_expr_clean object (walk_expr_clean value clean)

theorem walk_exprs_clean {owner : Owner} : (exprs : List Expr) → {walk : Walk} →
    (walkExprs owner exprs walk).faults = [] → walk.faults = []
  | [], _, clean => clean
  | expr :: rest, _, clean => walk_expr_clean expr (walk_exprs_clean rest clean)

end

theorem walk_option_clean {owner : Owner} {value : Option Expr} {walk : Walk}
    (clean : (walkOption owner value walk).faults = []) : walk.faults = [] := by
  cases value with
  | none => exact clean
  | some expr => exact walk_expr_clean expr clean

mutual

/-- The walk never takes a fault back: if there are none after a statement, there were none before
it. -/
theorem walk_stmt_clean {context : Context} : (stmt : Stmt) → {walk : Walk} →
    (walkStmt context stmt walk).faults = [] → walk.faults = []
  | .expression expr, _, clean => walk_expr_clean expr clean
  | .varDecl name initializer, _, clean => by
      rw [walkStmt, Walk.define, hold_faults] at clean
      have declared := (violate_if_clean (walk_option_clean clean)).1
      rwa [hold_faults] at declared
  | .functionDecl decl, _, clean => introduce_clean (walk_function_clean decl clean)
  | .classDecl name none methods, _, clean => by
      have opened := walk_methods_clean methods clean
      rw [hold_faults] at opened
      exact introduce_clean opened
  | .classDecl name (some base) methods, _, clean => by
      have opened := walk_methods_clean methods clean
      rw [hold_faults] at opened
      have based : ((walkExpr .derived base _).openScope.hold "base" true).faults = [] := opened
      rw [hold_faults] at based
      exact introduce_clean (check_base_clean (walk_expr_clean base based))
  | .block body, walk, clean => @walk_body_clean context body walk.openScope clean
  | .ifThen condition thenBranch, _, clean =>
      walk_expr_clean condition (walk_stmt_clean thenBranch clean)
  | .ifElse condition thenBranch elseBranch, _, clean =>
      walk_expr_clean condition (walk_stmt_clean thenBranch (walk_stmt_clean elseBranch clean))
  | .whileLoop condition body, _, clean => walk_expr_clean condition (walk_stmt_clean body clean)
  | .returnStmt keyword value, _, clean =>
      (violate_if_clean (violate_if_clean (walk_option_clean clean)).1).1

theorem walk_function_clean {context : Context} : (decl : FunctionDecl) → {walk : Walk} →
    (walkFunction context decl walk).faults = [] → walk.faults = []
  | ⟨_, parameters, body⟩, walk, clean => by
      have inside : (parameters.foldl Walk.introduce walk.openScope).faults = [] :=
        walk_body_clean body clean
      exact @introduce_all_clean parameters walk.openScope inside

theorem walk_methods_clean {context : Context} {className : Token} :
    (decls : List FunctionDecl) → {walk : Walk} →
      (walkMethods context className decls walk).faults = [] → walk.faults = []
  | [], _, clean => clean
  | decl :: rest, _, clean => walk_function_clean decl (walk_methods_clean rest clean)

theorem walk_body_clean {context : Context} : (stmts : List Stmt) → {walk : Walk} →
    (walkBody context stmts walk).faults = [] → walk.faults = []
  | [], _, clean => clean
  | stmt :: rest, _, clean => walk_stmt_clean stmt (walk_body_clean rest clean)

end

end Clean

section Cleared

variable (entered : List Entry)

/-- `Cleared entered routine stmt`: a walk that had the statement in a routine of this kind has
found nothing wrong with it, and all that it entered is among `entered`. -/
def Cleared (routine : Routine) (stmt : Stmt) : Prop :=
  ∃ context walk, context.routine = routine ∧ (walkStmt context stmt walk).faults = [] ∧
    stmtEntries context stmt walk ⊆ entered

def ClearedBody (routine : Routine) (stmts : List Stmt) : Prop :=
  ∃ context walk, context.routine = routine ∧ (walkBody context stmts walk).faults = [] ∧
    bodyEntries context stmts walk ⊆ entered

def EnteredAs (routine : Routine) (decl : FunctionDecl) : Prop :=
  ∃ entry ∈ entered, entry.decl = decl ∧ entry.context.routine = routine

variable {entered} {routine : Routine}

theorem cleared_head {stmt : Stmt} {rest : List Stmt}
    (cleared : ClearedBody entered routine (stmt :: rest)) :
    Cleared entered routine stmt ∧ ClearedBody entered routine rest := by
  obtain ⟨context, walk, isRoutine, clean, listed⟩ := cleared
  obtain ⟨first, others⟩ := List.append_subset.1 listed
  exact ⟨⟨context, walk, isRoutine, walk_body_clean rest clean, first⟩,
    ⟨context, _, isRoutine, clean, others⟩⟩

theorem cleared_block {body : List Stmt} (cleared : Cleared entered routine (.block body)) :
    ClearedBody entered routine body := by
  obtain ⟨context, walk, isRoutine, clean, listed⟩ := cleared
  exact ⟨context, walk.openScope, isRoutine, clean, listed⟩

theorem cleared_then {condition : Expr} {thenBranch : Stmt}
    (cleared : Cleared entered routine (.ifThen condition thenBranch)) :
    Cleared entered routine thenBranch := by
  obtain ⟨context, walk, isRoutine, clean, listed⟩ := cleared
  exact ⟨context, _, isRoutine, clean, listed⟩

theorem cleared_else {condition : Expr} {thenBranch elseBranch : Stmt}
    (cleared : Cleared entered routine (.ifElse condition thenBranch elseBranch)) :
    Cleared entered routine thenBranch ∧ Cleared entered routine elseBranch := by
  obtain ⟨context, walk, isRoutine, clean, listed⟩ := cleared
  obtain ⟨first, second⟩ := List.append_subset.1 listed
  exact ⟨⟨context, _, isRoutine, walk_stmt_clean elseBranch clean, first⟩,
    ⟨context, _, isRoutine, clean, second⟩⟩

theorem cleared_loop {condition : Expr} {body : Stmt}
    (cleared : Cleared entered routine (.whileLoop condition body)) :
    Cleared entered routine body := by
  obtain ⟨context, walk, isRoutine, clean, listed⟩ := cleared
  exact ⟨context, _, isRoutine, clean, listed⟩

/-- Here the two rules on returns are read off the walk. -/
theorem cleared_return {keyword : Token} {value : Option Expr}
    (cleared : Cleared entered routine (.returnStmt keyword value)) :
    routine ≠ .topLevel ∧ (value.isSome = true → routine ≠ .constructor) := by
  obtain ⟨context, walk, rfl, clean, -⟩ := cleared
  obtain ⟨placed, valued⟩ := violate_if_clean (walk_option_clean clean)
  have inside := (violate_if_clean placed).2
  refine ⟨by simpa using inside, fun given => ?_⟩
  rw [given, Bool.true_and] at valued
  simpa using valued

theorem entered_routine {context : Context} {decl : FunctionDecl} {walk : Walk}
    (listed : routineEntries context decl walk ⊆ entered) :
    EnteredAs entered context.routine decl := by
  rcases decl with ⟨name, parameters, body⟩
  exact ⟨_, listed List.mem_cons_self, rfl, rfl⟩

theorem entered_methods {context : Context} {className : Token} {methods : List FunctionDecl}
    {walk : Walk} (listed : methodEntries context className methods walk ⊆ entered) :
    ∀ decl ∈ methods, EnteredAs entered (methodRoutine className decl.name) decl := by
  induction methods generalizing walk with
  | nil => simp
  | cons first rest induction =>
      obtain ⟨here, others⟩ := List.append_subset.1 listed
      exact List.forall_mem_cons.2 ⟨entered_routine here, induction others⟩

theorem cleared_function {decl : FunctionDecl}
    (cleared : Cleared entered routine (.functionDecl decl)) :
    EnteredAs entered .function decl := by
  obtain ⟨context, walk, -, -, listed⟩ := cleared
  exact entered_routine listed

theorem cleared_class {name : Token} {base : Option Expr} {methods : List FunctionDecl}
    (cleared : Cleared entered routine (.classDecl name base methods)) :
    ∀ decl ∈ methods, EnteredAs entered (methodRoutine name decl.name) decl := by
  obtain ⟨context, walk, -, -, listed⟩ := cleared
  cases base <;> exact entered_methods listed

variable (entered) in
/-- The walk has found nothing wrong with the routine, in the context in which it entered it. -/
structure Entry.Checked (entry : Entry) : Prop where
  clean : (walkFunction entry.context entry.decl entry.walk).faults = []
  listed : routineEntries entry.context entry.decl entry.walk ⊆ entered

theorem checked_body {entry : Entry} (checked : entry.Checked entered) :
    ClearedBody entered entry.context.routine entry.decl.body := by
  rcases entry with ⟨context, ⟨name, parameters, body⟩, walk⟩
  obtain ⟨-, inside⟩ := List.cons_subset.1 checked.listed
  exact ⟨context, _, rfl, checked.clean, inside⟩

mutual

theorem stmt_entries_checked {context : Context} : (stmt : Stmt) → {walk : Walk} →
    (walkStmt context stmt walk).faults = [] → stmtEntries context stmt walk ⊆ entered →
      ∀ entry ∈ stmtEntries context stmt walk,
        entry.Checked entered
  | .expression _, _, _, _ | .varDecl _ _, _, _, _ | .returnStmt _ _, _, _, _ => by
      simp [stmtEntries]
  | .functionDecl decl, _, clean, listed => routine_entries_checked decl clean listed
  | .classDecl name none methods, _, clean, listed =>
      method_entries_checked methods clean listed
  | .classDecl name (some base) methods, _, clean, listed =>
      method_entries_checked methods clean listed
  | .block body, walk, clean, listed =>
      @body_entries_checked context body walk.openScope clean listed
  | .ifThen condition thenBranch, _, clean, listed => stmt_entries_checked thenBranch clean listed
  | .ifElse condition thenBranch elseBranch, _, clean, listed => by
      obtain ⟨first, second⟩ := List.append_subset.1 listed
      exact List.forall_mem_append.2
        ⟨stmt_entries_checked thenBranch (walk_stmt_clean elseBranch clean) first,
          stmt_entries_checked elseBranch clean second⟩
  | .whileLoop condition body, _, clean, listed => stmt_entries_checked body clean listed

theorem routine_entries_checked {context : Context} : (decl : FunctionDecl) → {walk : Walk} →
    (walkFunction context decl walk).faults = [] → routineEntries context decl walk ⊆ entered →
      ∀ entry ∈ routineEntries context decl walk,
        entry.Checked entered
  | ⟨name, parameters, body⟩, _, clean, listed => by
      obtain ⟨-, inside⟩ := List.cons_subset.1 listed
      exact List.forall_mem_cons.2 ⟨⟨clean, listed⟩, body_entries_checked body clean inside⟩

theorem method_entries_checked {context : Context} {className : Token} :
    (decls : List FunctionDecl) → {walk : Walk} →
      (walkMethods context className decls walk).faults = [] →
        methodEntries context className decls walk ⊆ entered →
          ∀ entry ∈ methodEntries context className decls walk,
            entry.Checked entered
  | [], _, _, _ => by simp [methodEntries]
  | decl :: rest, _, clean, listed => by
      obtain ⟨first, others⟩ := List.append_subset.1 listed
      exact List.forall_mem_append.2
        ⟨routine_entries_checked decl (walk_methods_clean rest clean) first,
          method_entries_checked rest clean others⟩

theorem body_entries_checked {context : Context} : (stmts : List Stmt) → {walk : Walk} →
    (walkBody context stmts walk).faults = [] → bodyEntries context stmts walk ⊆ entered →
      ∀ entry ∈ bodyEntries context stmts walk,
        entry.Checked entered
  | [], _, _, _ => by simp [bodyEntries]
  | stmt :: rest, _, clean, listed => by
      obtain ⟨first, others⟩ := List.append_subset.1 listed
      exact List.forall_mem_append.2
        ⟨stmt_entries_checked stmt (walk_body_clean rest clean) first,
          body_entries_checked rest clean others⟩

end

end Cleared

theorem resolve_clean {statements : List Stmt} {table : Table}
    (resolved : resolve statements = .ok table) :
    (walkBody ⟨.topLevel, .outside⟩ statements .start).faults = [] := by
  unfold resolve at resolved
  simp only at resolved
  split at resolved
  next clean => exact List.isEmpty_iff.1 clean
  next => cases resolved

/-- A program that resolves is clear at top level, and so is every routine in it. -/
theorem resolve_cleared {statements : List Stmt} {table : Table}
    (resolved : resolve statements = .ok table) :
    ClearedBody (entries statements) .topLevel statements ∧
      ∀ entry ∈ entries statements, entry.Checked (entries statements) := by
  have clean := resolve_clean resolved
  exact ⟨⟨_, _, rfl, clean, List.Subset.refl _⟩,
    body_entries_checked statements clean (List.Subset.refl _)⟩

end Quill.Scope
