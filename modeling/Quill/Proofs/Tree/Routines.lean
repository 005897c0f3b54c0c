import Quill.Proofs.Scope.Nesting
import Quill.Proofs.Token.Lossless

/-!
Routines are told apart by their names. The name of a function or method is a token of the
source, the names of a program come in the order of the source, and no token of a source
occurs twice. So a declaration stands at one place of its program only.
-/

namespace Quill

set_option autoImplicit false

def Node.routineName? : Node → Option Token
  | .routine decl => some decl.name
  | _ => none

def routineNames (nodes : List Node) : List Token := nodes.filterMap Node.routineName?

@[simp] theorem routine_names_nil : routineNames [] = [] := rfl

@[simp] theorem routine_names_append (left right : List Node) :
    routineNames (left ++ right) = routineNames left ++ routineNames right :=
  List.filterMap_append

@[simp] theorem routine_names_stmt (stmt : Stmt) (rest : List Node) :
    routineNames (.stmt stmt :: rest) = routineNames rest := rfl

@[simp] theorem routine_names_body (stmts : List Stmt) (rest : List Node) :
    routineNames (.body stmts :: rest) = routineNames rest := rfl

@[simp] theorem routine_names_declaration (name : Token) (rest : List Node) :
    routineNames (.declaration name :: rest) = routineNames rest := rfl

@[simp] theorem routine_names_routine (decl : FunctionDecl) (rest : List Node) :
    routineNames (.routine decl :: rest) = decl.name :: routineNames rest := rfl

@[simp] theorem routine_names_declarations (names : List Token) :
    routineNames (names.map .declaration) = [] := by
  simp [routineNames, Node.routineName?]

@[simp] theorem routine_names_expr (expr : Expr) : routineNames expr.nodes = [] := by
  simp [routineNames, Expr.nodes, Node.routineName?]

@[simp] theorem routine_names_option (value : Option Expr) : routineNames (optionNodes value) = [] := by
  cases value with
  | none => rfl
  | some expr => exact routine_names_expr expr

theorem for_loop_routines (initializer : Option Stmt) (condition : Expr) (increment : Option Expr)
    (body : Stmt) :
    routineNames (Stmt.forLoop initializer condition increment body).nodes =
      routineNames (stmtOptionNodes initializer) ++ routineNames body.nodes := by
  cases initializer <;> cases increment <;>
    simp [Stmt.forLoop, Stmt.nodes, bodyNodes, stmtOptionNodes]

namespace Grammar

theorem sublist_behind {names words : List Token} (front : List Token) (token : Token)
    (sublist : names.Sublist words) : names.Sublist (front ++ token :: words) :=
  (sublist.cons token).trans (List.sublist_append_right front _)

theorem sublist_before {names words : List Token} (behind : List Token)
    (sublist : names.Sublist words) : names.Sublist (words ++ behind) :=
  sublist.trans (List.sublist_append_left _ behind)

/-- The names of a clause occur among its tokens, in their order. -/
theorem Forms.routines {clause : Clause} {words : List Token} {first next : Nat}
    {faults : List (Located Fault)} (forms : Forms clause words first next faults) :
    (routineNames clause.nodes).Sublist words := by
  induction forms with
  | absent | present | bareVariable | variableDecl | noInitializer | exprInitializer | expression
  | returnStmt =>
      simp [Clause.nodes, Stmt.nodes, stmtOptionNodes]
  | varInitializer kind body induction => exact induction.cons _
  | forLoop keywordKind leftKind starts tests semicolonKind steps rightKind repeats built numbered
      starting testing stepping repeating =>
      subst built
      simp only [Clause.nodes, for_loop_routines]
      apply List.Sublist.append ?_ (repeating.cons _)
      exact sublist_before _ (sublist_before _ ((starting.cons _).cons _))
  | ifThen keywordKind leftKind reads rightKind thenForms induction =>
      simp only [Clause.nodes, Stmt.nodes, routine_names_stmt, routine_names_append,
        routine_names_expr, List.nil_append]
      exact sublist_behind _ _ induction
  | ifElse keywordKind leftKind reads rightKind thenForms otherwiseKind elseForms taking otherwise =>
      simp only [Clause.nodes, Stmt.nodes, routine_names_stmt, routine_names_append,
        routine_names_expr, List.nil_append]
      exact (sublist_behind _ _ taking).append (otherwise.cons _)
  | whileLoop keywordKind leftKind reads rightKind repeats induction =>
      simp only [Clause.nodes, Stmt.nodes, routine_names_stmt, routine_names_append,
        routine_names_expr, List.nil_append]
      exact sublist_behind _ _ induction
  | block leftKind inside rightKind induction =>
      exact sublist_before _ (induction.cons _)
  | ofStatement forms induction => exact induction
  | varDeclaration kind forms induction => exact induction.cons _
  | functionDeclaration kind forms induction => exact induction.cons _
  | plainClass keywordKind nameKind leftKind inside rightKind induction =>
      exact sublist_before _ (((induction.cons _).cons _).cons _)
  | derivedClass keywordKind nameKind colonKind baseKind leftKind inside rightKind induction =>
      exact sublist_before _ (((((induction.cons _).cons _).cons _).cons _).cons _)
  | @function name left right leftBrace rightBrace names nameWords words body _ _ _ nameKind leftKind
      listed limit rightKind openKind inside closeKind induction =>
      simp only [Clause.nodes, FunctionDecl.nodes, routine_names_routine, routine_names_append,
        routine_names_declarations, List.nil_append, List.cons_append]
      apply List.Sublist.cons_cons
      have behind := sublist_behind (left :: nameWords) right (induction.cons leftBrace)
      exact sublist_before [rightBrace] behind
  | noMethods => exact List.nil_sublist _
  | method forms others induction rest =>
      simpa [Clause.nodes, methodNodes] using induction.append rest
  | keywordMethod kind forms others induction rest =>
      simpa [Clause.nodes, methodNodes] using (induction.cons _).append rest
  | emptyBody => exact List.nil_sublist _
  | declared forms others induction rest =>
      simpa [Clause.nodes, bodyNodes] using induction.append rest
  | dropped numbered faulty others induction =>
      exact induction.trans (List.sublist_append_right _ _)

end Grammar

theorem tokens_placed {source : String} {tokens : List Token}
    (scanned : Lexer.tokens source = .ok tokens) :
    ∃ segments, Grammar.beforeEnd tokens = Lexer.placed .start segments ∧
      source.toList = Lexer.joined segments := by
  obtain ⟨segments, split, rfl⟩ := Lexer.tokens_segments scanned
  have plain : ∀ token ∈ Lexer.placed .start segments, token.kind ≠ .endOfInput :=
    fun _ member => Lexer.placed_not_end member
  exact ⟨segments, Grammar.before_end_ended rfl plain, split⟩

/-- No two tokens before the end are the same, except for empty ones: they cover different bytes of
the source. -/
theorem tokens_distinct {source : String} {tokens names : List Token}
    (scanned : Lexer.tokens source = .ok tokens)
    (among : names.Sublist (Grammar.beforeEnd tokens))
    (words : ∀ name ∈ names, name.kind = .identifier) : names.Nodup := by
  obtain ⟨segments, placed, split⟩ := tokens_placed scanned
  have accounts := Lexer.segments_account (split.trans (List.append_nil _).symm)
  rw [placed] at among
  have ordered := accounts.ordered.sublist among
  apply ordered.imp_of_mem
  intro earlier later isEarlier isLater before same
  have present := accounts.present earlier (among.subset isEarlier) (by simp [words earlier isEarlier])
  rw [← same] at before
  omega

theorem parse_routines {source : String} {parsed : Grammar.Parse}
    (parses : Program.parse source = .ok parsed) :
    (routineNames (bodyNodes parsed.statements)).Nodup := by
  have made := parse_well_made parses
  obtain ⟨tokens, scanned, rfl⟩ := parse_scans parses
  obtain ⟨next, forms⟩ := Grammar.parse_forms tokens (end_of_kind source.toList)
  apply tokens_distinct scanned forms.routines
  intro name member
  obtain ⟨node, inside, named⟩ := List.mem_filterMap.1 member
  cases node with
  | routine decl =>
      cases named
      exact (made.formed _ inside).1.1
  | _ => cases named

namespace Scope

/-- A declaration stands at one place. Its name is a token, of which there is only one at these
bytes. -/
theorem routine_unique {source : String} {program : Program}
    (compiles : Program.compile source = .ok program) {decl : FunctionDecl} {place other : Place}
    (member : (place, .routine decl) ∈ positions program.statements)
    (otherMember : (other, .routine decl) ∈ positions program.statements) : place = other := by
  obtain ⟨parsed, parses, -, same, -⟩ := compile_ok compiles
  have distinct := parse_routines parses
  rw [same, ← body_positions_nodes []] at distinct
  have found := key_unique Node.routineName? distinct member otherMember rfl rfl
  exact congrArg Prod.fst found

end Scope

end Quill
