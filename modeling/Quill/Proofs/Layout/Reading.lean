import Quill.Proofs.Grammar.Across
import Quill.Proofs.Layout.Bare

/-!
Reading statements and whole token lists across a seam. A parse under other labels is the
parse under those labels; in particular, the parse of bare tokens is the bare parse.
-/

namespace Quill.Grammar

set_option autoImplicit false

variable {seam : Seam} {bound : Nat}

section Statements

theorem mirrors_optional_expression (closing : Kind) :
    Mirrors seam bound (Option.map (Expr.relabel seam.labels)) (optionalExpression closing)
      (optionalExpression closing) := by
  apply (mirrors_check [closing]).bind
  intro closes
  cases closes with
  | true => exact mirrors_pure none
  | false => exact mirrors_expression.map fun _ => rfl

theorem mirrors_initializer :
    Mirrors seam bound (Option.map (Expr.relabel seam.labels)) initializer initializer := by
  apply (mirrors_accept .equal).bind
  intro given
  cases given with
  | true => exact mirrors_expression.map fun _ => rfl
  | false => exact mirrors_pure none

theorem mirrors_var_declaration :
    Mirrors seam bound (Stmt.relabel seam.labels) varDeclaration varDeclaration := by
  apply (mirrors_expect _ _).bind
  intro name
  apply mirrors_initializer.bind
  intro value
  apply (mirrors_expect _ _).bind
  intro _
  exact mirrors_pure (Stmt.varDecl name value)

theorem mirrors_expression_statement :
    Mirrors seam bound (Stmt.relabel seam.labels) expressionStatement expressionStatement := by
  apply mirrors_expression.bind
  intro expr
  apply (mirrors_expect _ _).bind
  intro _
  exact mirrors_pure (Stmt.expression expr)

theorem mirrors_for_initializer :
    Mirrors seam bound (Option.map (Stmt.relabel seam.labels)) forInitializer forInitializer := by
  apply (mirrors_accept .semicolon).bind
  intro absent
  cases absent with
  | true => exact mirrors_pure none
  | false =>
      apply (mirrors_accept .varWord).bind
      intro declares
      cases declares with
      | true => exact mirrors_var_declaration.map fun _ => rfl
      | false => exact mirrors_expression_statement.map fun _ => rfl

theorem mirrors_return_statement (keyword : Token) :
    Mirrors seam bound (Stmt.relabel seam.labels) (returnStatement keyword)
      (returnStatement (keyword.relabel seam.labels)) := by
  apply (mirrors_optional_expression _).bind
  intro value
  apply (mirrors_expect _ _).bind
  intro _
  exact mirrors_pure (Stmt.returnStmt keyword value)

/-- What is left of a counting loop once its body has been read: a loop without a condition
receives one. -/
def closeLoop (start : Option Stmt) (condition increment : Option Expr) (body : Stmt) :
    Parser Stmt :=
  match condition with
  | some condition => pure (.forLoop start condition increment body)
  | none => do
      let condition ← make fun id => .literal id (.boolean true)
      pure (.forLoop start condition increment body)

theorem close_loop_across (start : Option Stmt) (condition increment : Option Expr) (body : Stmt)
    (cursor : Cursor) :
    closeLoop (start.map (Stmt.relabel seam.labels)) (condition.map (Expr.relabel seam.labels))
        (increment.map (Expr.relabel seam.labels)) (body.relabel seam.labels)
        (cursor.across seam) =
      acrossOutcome seam (Stmt.relabel seam.labels)
        (closeLoop start condition increment body cursor) := by
  cases condition with
  | some condition =>
      change EStateM.Result.ok _ _ = EStateM.Result.ok (Stmt.relabel seam.labels _) _
      rw [relabel_for_loop]
  | none =>
      change EStateM.Result.ok _ _ = EStateM.Result.ok (Stmt.relabel seam.labels _) _
      rw [relabel_for_loop]
      simp [Cursor.across, Nat.add_right_comm, Expr.relabel]

theorem mirrors_close_loop (start : Option Stmt) (condition increment : Option Expr)
    (body : Stmt) :
    Mirrors seam bound (Stmt.relabel seam.labels) (closeLoop start condition increment body)
      (closeLoop (start.map (Stmt.relabel seam.labels)) (condition.map (Expr.relabel seam.labels))
        (increment.map (Expr.relabel seam.labels)) (body.relabel seam.labels)) := by
  refine ⟨?_, fun cursor _ _ => close_loop_across start condition increment body cursor⟩
  cases condition with
  | some condition => exact advances_pure _
  | none => exact advances_bind (advances_make _) fun _ => advances_pure _

variable {statement statementMirror : Parser Stmt}
  (mirrors : Mirrors seam bound (Stmt.relabel seam.labels) statement statementMirror)

include mirrors

theorem mirrors_for_statement :
    Mirrors seam bound (Stmt.relabel seam.labels) (forStatement statement)
      (forStatement statementMirror) := by
  apply (mirrors_expect _ _).bind
  intro _
  apply mirrors_for_initializer.bind
  intro start
  apply (mirrors_optional_expression _).bind
  intro condition
  apply (mirrors_expect _ _).bind
  intro _
  apply (mirrors_optional_expression _).bind
  intro increment
  apply (mirrors_expect _ _).bind
  intro _
  apply mirrors.bind
  intro body
  exact mirrors_close_loop start condition increment body

theorem mirrors_if_statement :
    Mirrors seam bound (Stmt.relabel seam.labels) (ifStatement statement)
      (ifStatement statementMirror) := by
  apply (mirrors_expect _ _).bind
  intro _
  apply mirrors_expression.bind
  intro condition
  apply (mirrors_expect _ _).bind
  intro _
  apply mirrors.bind
  intro thenBranch
  apply (mirrors_accept .elseWord).bind
  intro more
  cases more with
  | true =>
      apply mirrors.bind
      intro elseBranch
      exact mirrors_pure (Stmt.ifElse condition thenBranch elseBranch)
  | false => exact mirrors_pure (Stmt.ifThen condition thenBranch)

theorem mirrors_while_statement :
    Mirrors seam bound (Stmt.relabel seam.labels) (whileStatement statement)
      (whileStatement statementMirror) := by
  apply (mirrors_expect _ _).bind
  intro _
  apply mirrors_expression.bind
  intro condition
  apply (mirrors_expect _ _).bind
  intro _
  apply mirrors.bind
  intro body
  exact mirrors_pure (Stmt.whileLoop condition body)

end Statements

section Repetitions

variable {First FirstImage Item ItemImage : Type} {imageFirst : First → FirstImage}
  {image : List Item → List ItemImage} {closing : List Kind} {item : Parser First}
  {itemMirror : Parser FirstImage} {join : First → List Item → List Item}
  {joinMirror : FirstImage → List ItemImage → List ItemImage}
  {loop : Nat → Parser (List Item)} {loopMirror : Nat → Parser (List ItemImage)}

/-- Repetitions are mirrored if their items are. The induction is on the budget, of which an item
that takes a token needs one, so that a larger budget across the seam changes nothing. -/
theorem Repeats.mirrors (repeats : Repeats closing item join loop)
    (mirrored : Repeats closing itemMirror joinMirror loopMirror) (empty : image [] = [])
    (same : ∀ first others,
      image (join first others) = joinMirror (imageFirst first) (image others))
    (mirrors : Mirrors seam bound imageFirst item itemMirror) (consumes : Consumes item)
    {budget further : Nat} (within : budget ≤ bound) (room : seam.Room budget further) :
    Mirrors seam budget image (loop budget) (loopMirror further) := by
  have nothing {limit : Nat} : Mirrors seam limit image (pure []) (pure []) := by
    have paired : Mirrors seam limit image (pure []) (pure (image [])) := mirrors_pure []
    rwa [empty] at paired
  induction budget generalizing further with
  | zero =>
      rw [repeats.spent]
      refine nothing.at_end fun last => ?_
      rw [← room.2 last, mirrored.spent]
  | succ budget induction =>
      obtain ⟨fewer, rfl, less⟩ := room.succ
      rw [repeats.turn, mirrored.turn]
      apply mirrors_at_end.bind
      intro ended
      cases ended with
      | true => exact nothing
      | false =>
          apply (mirrors_check closing).bind
          intro closes
          cases closes with
          | true => exact nothing
          | false =>
              apply (mirrors.narrow within).bind_after consumes
              intro first
              apply (induction (Nat.le_of_succ_le within) less).bind
              intro others
              rw [← same]
              exact mirrors_pure (join first others)

end Repetitions

section Declarations

variable {declaration declarationMirror : Parser (Option Stmt)}
  (mirrors : Mirrors seam bound (Option.map (Stmt.relabel seam.labels)) declaration
    declarationMirror)
  (consumes : Consumes declaration)

include mirrors consumes

theorem mirrors_declarations_from (closing : List Kind) {budget further : Nat}
    (within : budget ≤ bound) (room : seam.Room budget further) :
    Mirrors seam budget (relabelStmts seam.labels) (declarationsFrom declaration closing budget)
      (declarationsFrom declarationMirror closing further) := by
  have adds (first : Option Stmt) (others : List Stmt) :
      relabelStmts seam.labels (first.toList ++ others) =
        (first.map (Stmt.relabel seam.labels)).toList ++ relabelStmts seam.labels others := by
    rw [relabel_stmts_append, relabel_stmts_option]
  exact (repeats_declarations declaration closing).mirrors
    (repeats_declarations declarationMirror closing) rfl adds mirrors consumes within room

theorem mirrors_block :
    Mirrors seam bound (relabelStmts seam.labels) (block declaration)
      (block declarationMirror) := by
  refine mirrors_remaining (fun count => ?_) fun count further within room => ?_
  · exact advances_bind (advances_closed.declarations_from mirrors.advances _ count) fun _ =>
      advances_bind (advances_expect _ _) fun _ => advances_pure _
  · apply (mirrors_declarations_from mirrors consumes _ within room).bind
    intro body
    apply (mirrors_expect _ _).bind
    intro _
    exact mirrors_pure body

omit mirrors consumes in
theorem mirrors_parameters (room : Nat) :
    Mirrors seam bound (List.map (Token.relabel seam.labels)) (parameters room)
      (parameters room) :=
  separates_parameters.mirrors separates_parameters rfl (fun _ _ => rfl) (mirrors_expect _ _) room

omit mirrors consumes in
theorem mirrors_parameter_list :
    Mirrors seam bound (List.map (Token.relabel seam.labels)) parameterList parameterList := by
  apply (mirrors_check [.rightParen]).bind
  intro closes
  cases closes with
  | true => exact mirrors_pure []
  | false => exact mirrors_parameters listLimit

theorem mirrors_function (role : Role) :
    Mirrors seam bound (FunctionDecl.relabel seam.labels) (function declaration role)
      (function declarationMirror role) := by
  apply (mirrors_expect _ _).bind
  intro name
  apply (mirrors_expect _ _).bind
  intro _
  apply mirrors_parameter_list.bind
  intro names
  apply (mirrors_expect _ _).bind
  intro _
  apply (mirrors_expect _ _).bind
  intro _
  apply (mirrors_block mirrors consumes).bind
  intro body
  exact mirrors_pure (FunctionDecl.mk name names body)

theorem mirrors_methods_from {budget further : Nat} (within : budget ≤ bound)
    (room : seam.Room budget further) :
    Mirrors seam budget (relabelDecls seam.labels) (methodsFrom declaration budget)
      (methodsFrom declarationMirror further) := by
  have method : Mirrors seam bound (FunctionDecl.relabel seam.labels)
      (accept .functionWord >>= fun _ => function declaration .method)
      (accept .functionWord >>= fun _ => function declarationMirror .method) :=
    (mirrors_accept .functionWord).bind fun _ => mirrors_function mirrors consumes .method
  exact (repeats_methods declaration).mirrors (repeats_methods declarationMirror) rfl
    (fun _ _ => rfl) method (consumes_method mirrors.advances) within room

omit mirrors consumes in
theorem mirrors_class_base :
    Mirrors seam bound (Option.map (Expr.relabel seam.labels)) classBase classBase := by
  apply (mirrors_accept .colon).bind
  intro derived
  cases derived with
  | true =>
      apply (mirrors_expect _ _).bind
      intro name
      have made : Mirrors seam bound (Expr.relabel seam.labels)
          (make fun id => .variableRef id name)
          (make fun id => .variableRef id (name.relabel seam.labels)) := mirrors_make fun _ => rfl
      apply made.bind
      intro base
      exact mirrors_pure (some base)
  | false => exact mirrors_pure none

theorem mirrors_class_declaration :
    Mirrors seam bound (Stmt.relabel seam.labels) (classDeclaration declaration)
      (classDeclaration declarationMirror) := by
  apply (mirrors_expect _ _).bind
  intro name
  apply mirrors_class_base.bind
  intro base
  apply (mirrors_expect _ _).bind
  intro _
  refine mirrors_remaining (fun count => ?_) fun count further within room => ?_
  · exact advances_bind (advances_closed.methods_from mirrors.advances count) fun _ =>
      advances_bind (advances_expect _ _) fun _ => advances_pure _
  · apply (mirrors_methods_from mirrors consumes within room).bind
    intro methods
    apply (mirrors_expect _ _).bind
    intro _
    exact mirrors_pure (Stmt.classDecl name base methods)

variable {statement statementMirror : Parser Stmt}
  (mirrorsStatement : Mirrors seam bound (Stmt.relabel seam.labels) statement statementMirror)

include mirrorsStatement

theorem mirrors_statement_rule :
    Mirrors seam (bound + 1) (Stmt.relabel seam.labels) (statementRule statement declaration)
      (statementRule statementMirror declarationMirror) := by
  refine mirrors_taking mirrors_expression_statement fun token => ?_
  simp only [relabel_kind]
  split
  · exact mirrors_for_statement mirrorsStatement
  · exact mirrors_if_statement mirrorsStatement
  · exact mirrors_while_statement mirrorsStatement
  · exact mirrors_return_statement token
  · exact (mirrors_block mirrors consumes).map fun _ => rfl

theorem mirrors_declaration_rule :
    Mirrors seam (bound + 1) (Stmt.relabel seam.labels) (declarationRule statement declaration)
      (declarationRule statementMirror declarationMirror) := by
  refine mirrors_taking (mirrors_statement_rule mirrors consumes mirrorsStatement) fun token => ?_
  simp only [relabel_kind]
  split
  · exact mirrors_class_declaration mirrors consumes
  · exact (mirrors_function mirrors consumes .function).map fun _ => rfl
  · exact mirrors_var_declaration

end Declarations

theorem mirrors_within {budget further : Nat} (room : seam.Room budget further) :
    Mirrors seam budget (Stmt.relabel seam.labels) (statementWithin budget)
        (statementWithin further) ∧
      Mirrors seam budget (Option.map (Stmt.relabel seam.labels)) (declarationWithin budget)
        (declarationWithin further) := by
  -- Both budgets are spent at the same pace, so that the further one never runs out first.
  induction budget generalizing further with
  | zero =>
      constructor
      · refine (mirrors_refuse_here _).at_end fun last => ?_
        rw [← room.2 last]
        rfl
      · refine (mirrors_recovering (mirrors_refuse_here _)).at_end fun last => ?_
        rw [← room.2 last]
        rfl
  | succ budget induction =>
      obtain ⟨fewer, rfl, less⟩ := room.succ
      obtain ⟨mirrorsStatement, mirrors⟩ := induction less
      have consumes := consumes_declaration_within budget
      constructor
      · exact mirrors_statement_rule mirrors consumes mirrorsStatement
      · exact mirrors_recovering (mirrors_declaration_rule mirrors consumes mirrorsStatement)

theorem mirrors_declaration :
    Mirrors seam bound (Option.map (Stmt.relabel seam.labels)) declaration declaration := by
  refine ⟨advances_closed.declaration, fun cursor within unseen => ?_⟩
  exact (mirrors_within (across_room cursor)).2.same cursor (Nat.le_refl _) unseen

theorem mirrors_program : Mirrors seam bound (relabelStmts seam.labels) program program :=
  mirrors_remaining (fun count => advances_closed.declarations_from advances_closed.declaration _ count)
    fun _ _ within room =>
      mirrors_declarations_from mirrors_declaration consumes_declaration _ within room

def Seam.relabelling (labels : Labels) (finish : Token) : Seam :=
  ⟨labels, [], finish.relabel labels⟩

def Cursor.relabel (labels : Labels) (cursor : Cursor) : Cursor :=
  cursor.across (.relabelling labels cursor.finish)

/-- Under other labels a program is read to the end as it was. No rule looks at where a token
stands, but to say where a fault is. -/
theorem program_relabel (labels : Labels) (cursor : Cursor) :
    program (cursor.relabel labels) =
      acrossOutcome (.relabelling labels cursor.finish) (relabelStmts labels) (program cursor) := by
  have mirrors : Mirrors (.relabelling labels cursor.finish) cursor.rest.length
      (relabelStmts labels) program program := mirrors_program
  refine mirrors.same cursor (Nat.le_refl _) (.inr ⟨rfl, ?_⟩)
  rw [(mirrors.advances cursor).finish]
  rfl

theorem start_relabel (labels : Labels) (tokens : List Token) (finish : Token) :
    Cursor.start (tokens.map (Token.relabel labels)) (finish.relabel labels) =
      { (Cursor.start tokens finish).relabel labels with nextId := 0 } := by
  have image : (fun token : Token => decide (token.kind = .endOfInput)) ∘ Token.relabel labels =
      fun token => decide (token.kind = .endOfInput) := rfl
  have others : (fun token : Token => decide (token.kind ≠ .endOfInput)) ∘ Token.relabel labels =
      fun token => decide (token.kind ≠ .endOfInput) := rfl
  unfold Cursor.start
  rw [List.takeWhile_map, List.find?_map, image, others]
  cases tokens.find? fun token => decide (token.kind = .endOfInput) <;>
    simp [Cursor.relabel, Cursor.across, Seam.relabelling]

theorem start_unshifted (labels : Labels) (unshifted : labels.shift = 0) (tokens : List Token)
    (finish : Token) :
    Cursor.start (tokens.map (Token.relabel labels)) (finish.relabel labels) =
      (Cursor.start tokens finish).relabel labels := by
  rw [start_relabel]
  have first : ((Cursor.start tokens finish).relabel labels).nextId = 0 := by
    change 0 + labels.shift = 0
    rw [unshifted]
  exact first ▸ rfl

def Parse.relabel (labels : Labels) (parsed : Parse) : Parse :=
  ⟨relabelStmts labels parsed.statements, parsed.faults.map (Located.relabel labels)⟩

theorem parse_relabel (labels : Labels) (unshifted : labels.shift = 0) (tokens : List Token)
    (finish : Token) :
    parse (tokens.map (Token.relabel labels)) (finish.relabel labels) =
      (parse tokens finish).relabel labels := by
  unfold parse
  rw [start_unshifted labels unshifted, program_relabel]
  cases program (Cursor.start tokens finish) with
  | ok statements cursor => rfl
  | error fault cursor =>
      simp only [acrossOutcome, Parse.relabel, List.map_append]
      rfl

def Parse.bare (parsed : Parse) : Parse :=
  ⟨bareStmts parsed.statements, parsed.faults.map Located.bare⟩

theorem parse_bare (tokens : List Token) (finish : Token) :
    parse (tokens.map Token.bare) finish.bare = (parse tokens finish).bare := by
  have relabelled := parse_relabel .bare rfl tokens finish
  unfold Parse.relabel at relabelled
  rw [stmts_relabel_bare] at relabelled
  exact relabelled

end Quill.Grammar
