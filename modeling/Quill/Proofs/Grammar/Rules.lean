import Quill.Grammar.Statement

/-!
What the rules of the grammar have in common. The rules are put together from a few steps, so a
property of parsers that the steps have, and that goes over from the parts of a parser to the
whole, is a property of every rule. Some properties fail at a semicolon, and others where
declarations recover, so the steps are taken up in stages. What a fault says of the token that it
points to differs from property to property: the rules for primaries and assignments, where it
matters, are left to the property itself.
-/

namespace Quill.Grammar

set_option autoImplicit false

section Repetitions

variable {First Item : Type}

/-- A parser, by its budget, for items up to the end of the input or to a closing token. Bodies of
classes, blocks and programs are all read so. -/
structure Repeats (closing : List Kind) (item : Parser First)
    (join : First → List Item → List Item) (loop : Nat → Parser (List Item)) : Prop where
  spent : loop 0 = pure []
  turn : ∀ budget, loop (budget + 1) = (do
    if ← atEnd then pure []
    else if ← check closing then pure []
    else
      let first ← item
      let others ← loop budget
      pure (join first others))

theorem repeats_declarations (dropping : Parser (Option Stmt)) (closing : List Kind) :
    Repeats closing dropping (fun first others => first.toList ++ others)
      (declarationsFrom dropping closing) :=
  ⟨rfl, fun _ => rfl⟩

theorem repeats_methods (dropping : Parser (Option Stmt)) :
    Repeats [.rightBrace] (accept .functionWord >>= fun _ => function dropping .method) List.cons
      (methodsFrom dropping) :=
  ⟨rfl, fun budget => by simp only [methodsFrom, bind_assoc]⟩

/-- A parser, by the room that is left, for one or more items between commas. Without room the next
item is refused as one too many. -/
structure Separates (excess : Fault) (item : Parser Item) (list : Nat → Parser (List Item)) :
    Prop where
  full : list 0 = refuseHere excess
  turn : ∀ room, list (room + 1) = (do
    let first ← item
    if ← accept .comma then
      let others ← list room
      pure (first :: others)
    else pure [first])

theorem separates_arguments (inner : Parser Expr) :
    Separates .tooManyArguments inner (arguments inner) :=
  ⟨rfl, fun _ => rfl⟩

theorem separates_parameters :
    Separates .tooManyParameters (expect .identifier .parameterName) parameters :=
  ⟨rfl, fun _ => rfl⟩

end Repetitions

/-- A property of parsers that goes over from the parts to the whole, and that all steps have
which take no semicolon. -/
structure Stepwise (Holds : {Result : Type} → Parser Result → Prop) : Prop where
  value : ∀ {Result : Type} (value : Result), Holds (pure value : Parser Result)
  bind : ∀ {Result Next : Type} {parser : Parser Result} {proceed : Result → Parser Next},
    Holds parser → (∀ value, Holds (proceed value)) → Holds (parser >>= proceed)
  /-- A parser may count the tokens that are left before it begins. -/
  measured : ∀ {Result : Type} {parser : Nat → Parser Result}, (∀ count, Holds (parser count)) →
    Holds fun cursor => parser cursor.rest.length cursor
  atEnd : Holds atEnd
  remaining : Holds remaining
  check : ∀ kinds, Holds (check kinds)
  taking : ∀ {kinds}, Kind.semicolon ∉ kinds → Holds (accept? kinds)
  takingAll : ∀ {kinds}, Kind.semicolon ∉ kinds → Holds (acceptAll kinds)
  expect : ∀ {kind}, kind ≠ .semicolon → ∀ wanted, Holds (expect kind wanted)
  make : ∀ build, Holds (make build)
  refusal : ∀ {Result : Type} {fault : Fault}, (∀ lexeme, fault ≠ .invalidNumber lexeme) →
    Holds (refuseHere fault : Parser Result)

/-- Expressions have the property as well, where the parser of inner expressions has it and where
that of the targets of assignments has it. -/
structure Expressive (Holds : {Result : Type} → Parser Result → Prop) : Prop
    extends Stepwise Holds where
  primary : ∀ {inner : Parser Expr}, Holds inner → Holds (primary inner)
  assignment : ∀ {inner : Parser Expr}, Holds inner → Holds (disjunction inner) →
    Holds (assignment inner)

structure Clausal (Holds : {Result : Type} → Parser Result → Prop) : Prop
    extends Expressive Holds where
  semicolon : ∀ wanted, Holds (Grammar.expect .semicolon wanted)
  optionalSemicolon : Holds (accept .semicolon)

structure ClosedUnder (Holds : {Result : Type} → Parser Result → Prop) : Prop
    extends Clausal Holds where
  recovering : ∀ {rule : Parser Stmt}, Holds rule → Holds (recovering rule)

variable {Holds : {Result : Type} → Parser Result → Prop}

namespace Stepwise

variable (closed : Stepwise Holds)

include closed

theorem map {Result Next : Type} {parser : Parser Result} (build : Result → Next)
    (holds : Holds parser) : Holds (build <$> parser) := by
  rw [map_eq_pure_bind]
  exact closed.bind holds fun value => closed.value _

theorem accept {kind : Kind} (other : kind ≠ .semicolon) : Holds (accept kind) :=
  closed.map _ (closed.taking (by simpa using other.symm))

section Repetitions

variable {First Item : Type}

theorem repeats {closing : List Kind} {item : Parser First} {join : First → List Item → List Item}
    {loop : Nat → Parser (List Item)} (repeats : Repeats closing item join loop)
    (holds : Holds item) (budget : Nat) : Holds (loop budget) := by
  induction budget with
  | zero =>
      rw [repeats.spent]
      exact closed.value _
  | succ budget induction =>
      rw [repeats.turn]
      refine closed.bind closed.atEnd fun ended => ?_
      cases ended with
      | true => exact closed.value _
      | false =>
          refine closed.bind (closed.check closing) fun closes => ?_
          cases closes with
          | true => exact closed.value _
          | false =>
              exact closed.bind holds fun first =>
                closed.bind induction fun others => closed.value _

theorem separates {excess : Fault} {item : Parser Item} {list : Nat → Parser (List Item)}
    (separates : Separates excess item list) (plain : ∀ lexeme, excess ≠ .invalidNumber lexeme)
    (holds : Holds item) (room : Nat) : Holds (list room) := by
  induction room with
  | zero =>
      rw [separates.full]
      exact closed.refusal plain
  | succ room induction =>
      rw [separates.turn]
      refine closed.bind holds fun first => closed.bind (closed.accept (by decide)) fun more => ?_
      cases more with
      | false => exact closed.value _
      | true => exact closed.bind induction fun others => closed.value _

end Repetitions

section Expressions

variable {inner : Parser Expr} (holds : Holds inner)

include holds

theorem chain_from {operators : List Kind} (takes : Holds (accept? operators))
    (build : Nat → Expr → Token → Expr → Expr) (budget : Nat) (left : Expr) :
    Holds (chainFrom operators build inner budget left) := by
  induction budget generalizing left with
  | zero => exact closed.value left
  | succ budget induction =>
      refine closed.bind takes fun taken => ?_
      cases taken with
      | none => exact closed.value left
      | some operator =>
          exact closed.bind holds fun right => closed.bind (closed.make _) induction

theorem chain {operators : List Kind} (takes : Holds (accept? operators))
    (build : Nat → Expr → Token → Expr → Expr) : Holds (chain operators build inner) :=
  closed.bind holds fun first => closed.bind closed.remaining fun count =>
    closed.chain_from holds takes build count first

theorem arguments (room : Nat) : Holds (arguments inner room) :=
  closed.separates (separates_arguments inner) (fun _ => Fault.noConfusion) holds room

theorem argument_list : Holds (argumentList inner) := by
  refine closed.bind (closed.check _) fun ended => ?_
  cases ended with
  | false => exact closed.arguments holds listLimit
  | true => exact closed.value _

theorem suffix (mark : Token) (head : Expr) : Holds (suffix inner mark head) := by
  unfold Grammar.suffix
  split
  · exact closed.bind (closed.argument_list holds) fun given =>
      closed.bind (closed.expect (by decide) _) fun paren => closed.make _
  · exact closed.bind (closed.expect (by decide) _) fun name => closed.make _

theorem suffixes_from (budget : Nat) (head : Expr) : Holds (suffixesFrom inner budget head) := by
  induction budget generalizing head with
  | zero => exact closed.value head
  | succ budget induction =>
      refine closed.bind (closed.taking (by decide)) fun taken => ?_
      cases taken with
      | none => exact closed.value head
      | some mark => exact closed.bind (closed.suffix holds mark head) induction

omit holds in
theorem apply_signs (right : Expr) (operators : List Token) :
    Holds (applySigns right operators) := by
  induction operators with
  | nil => exact closed.value right
  | cons operator operators induction => exact closed.bind induction fun _ => closed.make _

/-- A property that does not look at faults has no more to it at an assignment. -/
theorem assignment_with (refused : ∀ equals, Holds (refuse equals .invalidTarget : Parser Expr))
    (operand : Holds (disjunction inner)) : Holds (assignment inner) := by
  refine closed.bind operand fun target => closed.bind (closed.taking (by decide)) fun taken => ?_
  cases taken with
  | none => exact closed.value target
  | some equals =>
      refine closed.bind holds fun value => ?_
      unfold assignTo
      split
      · exact closed.make _
      · exact closed.make _
      · exact refused equals

end Expressions

theorem parameters (room : Nat) : Holds (parameters room) :=
  closed.separates separates_parameters (fun _ => Fault.noConfusion)
    (closed.expect (by decide) _) room

theorem parameter_list : Holds parameterList := by
  refine closed.bind (closed.check _) fun ended => ?_
  cases ended with
  | false => exact closed.parameters listLimit
  | true => exact closed.value _

theorem class_base : Holds classBase := by
  refine closed.bind (closed.accept (by decide)) fun derived => ?_
  cases derived with
  | false => exact closed.value _
  | true =>
      exact closed.bind (closed.expect (by decide) _) fun name =>
        closed.bind (closed.make _) fun base => closed.value _

section Declarations

variable {declaration : Parser (Option Stmt)} (declares : Holds declaration)

include declares

theorem declarations_from (closing : List Kind) (budget : Nat) :
    Holds (declarationsFrom declaration closing budget) :=
  closed.repeats (repeats_declarations declaration closing) declares budget

theorem block : Holds (block declaration) :=
  closed.bind closed.remaining fun count =>
    closed.bind (closed.declarations_from declares _ count) fun _ =>
      closed.bind (closed.expect (by decide) _) fun _ => closed.value _

theorem function (role : Role) : Holds (function declaration role) :=
  closed.bind (closed.expect (by decide) _) fun _ => closed.bind (closed.expect (by decide) _) fun _ =>
    closed.bind closed.parameter_list fun _ => closed.bind (closed.expect (by decide) _) fun _ =>
      closed.bind (closed.expect (by decide) _) fun _ =>
        closed.bind (closed.block declares) fun _ => closed.value _

theorem methods_from (budget : Nat) : Holds (methodsFrom declaration budget) :=
  closed.repeats (repeats_methods declaration)
    (closed.bind (closed.accept (by decide)) fun _ => closed.function declares _) budget

theorem class_declaration : Holds (classDeclaration declaration) :=
  closed.bind (closed.expect (by decide) _) fun _ => closed.bind closed.class_base fun _ =>
    closed.bind (closed.expect (by decide) _) fun _ => closed.bind closed.remaining fun count =>
      closed.bind (closed.methods_from declares count) fun _ =>
        closed.bind (closed.expect (by decide) _) fun _ => closed.value _

end Declarations

end Stepwise

namespace Expressive

variable (closed : Expressive Holds)

include closed

section Operands

variable {inner : Parser Expr} (holds : Holds inner)

include holds

theorem call : Holds (call inner) :=
  closed.bind (closed.primary holds) fun head => closed.bind closed.remaining fun count =>
    closed.suffixes_from holds count head

theorem unary : Holds (unary inner) :=
  closed.bind (closed.takingAll (by decide)) fun operators =>
    closed.bind (closed.call holds) fun right => closed.apply_signs right operators

theorem disjunction : Holds (disjunction inner) := by
  have factor : Holds (factor inner) :=
    closed.chain (closed.unary holds) (closed.taking (by decide)) _
  have term : Holds (term inner) := closed.chain factor (closed.taking (by decide)) _
  have comparison : Holds (comparison inner) := closed.chain term (closed.taking (by decide)) _
  have equality : Holds (equality inner) := closed.chain comparison (closed.taking (by decide)) _
  have conjunction : Holds (conjunction inner) := closed.chain equality (closed.taking (by decide)) _
  exact closed.chain conjunction (closed.taking (by decide)) _

end Operands

theorem expression_within (budget : Nat) : Holds (expressionWithin budget) := by
  induction budget with
  | zero => exact closed.refusal fun _ => Fault.noConfusion
  | succ budget induction => exact closed.assignment induction (closed.disjunction induction)

theorem expression : Holds expression := closed.measured closed.expression_within

theorem optional_expression (closing : Kind) : Holds (optionalExpression closing) := by
  refine closed.bind (closed.check _) fun ended => ?_
  cases ended with
  | false => exact closed.map _ closed.expression
  | true => exact closed.value _

theorem initializer : Holds initializer := by
  refine closed.bind (closed.accept (by decide)) fun present => ?_
  cases present with
  | false => exact closed.value _
  | true => exact closed.map _ closed.expression

section Statements

variable {statement : Parser Stmt} (states : Holds statement)

include states

theorem if_statement : Holds (ifStatement statement) := by
  refine closed.bind (closed.expect (by decide) _) fun _ => closed.bind closed.expression fun _ =>
    closed.bind (closed.expect (by decide) _) fun _ => closed.bind states fun _ =>
      closed.bind (closed.accept (by decide)) fun otherwise => ?_
  cases otherwise with
  | false => exact closed.value _
  | true => exact closed.bind states fun elseBranch => closed.value _

theorem while_statement : Holds (whileStatement statement) :=
  closed.bind (closed.expect (by decide) _) fun _ => closed.bind closed.expression fun _ =>
    closed.bind (closed.expect (by decide) _) fun _ => closed.bind states fun _ => closed.value _

end Statements

end Expressive

namespace Clausal

variable (closed : Clausal Holds)

include closed

theorem var_declaration : Holds varDeclaration :=
  closed.bind (closed.expect (by decide) _) fun name => closed.bind closed.initializer fun value =>
    closed.bind (closed.semicolon _) fun _ => closed.value _

theorem expression_statement : Holds expressionStatement :=
  closed.bind closed.expression fun _ => closed.bind (closed.semicolon _) fun _ => closed.value _

theorem return_statement (keyword : Token) : Holds (returnStatement keyword) :=
  closed.bind (closed.optional_expression _) fun _ =>
    closed.bind (closed.semicolon _) fun _ => closed.value _

theorem for_initializer : Holds forInitializer := by
  refine closed.bind closed.optionalSemicolon fun absent => ?_
  cases absent with
  | true => exact closed.value _
  | false =>
      refine closed.bind (closed.accept (by decide)) fun declared => ?_
      cases declared with
      | true => exact closed.map _ closed.var_declaration
      | false => exact closed.map _ closed.expression_statement

section Statements

variable {statement : Parser Stmt} (states : Holds statement)

include states

theorem for_statement : Holds (forStatement statement) := by
  refine closed.bind (closed.expect (by decide) _) fun _ =>
    closed.bind closed.for_initializer fun _ =>
      closed.bind (closed.optional_expression _) fun condition =>
        closed.bind (closed.semicolon _) fun _ =>
          closed.bind (closed.optional_expression _) fun _ =>
            closed.bind (closed.expect (by decide) _) fun _ => closed.bind states fun body => ?_
  cases condition with
  | some condition => exact closed.value _
  | none => exact closed.bind (closed.make _) fun condition => closed.value _

variable {declaration : Parser (Option Stmt)} (declares : Holds declaration)

include declares

theorem statement_rule : Holds (statementRule statement declaration) := by
  refine closed.bind (closed.taking (by decide)) fun taken => ?_
  cases taken with
  | none => exact closed.expression_statement
  | some token =>
      dsimp only
      split
      · exact closed.for_statement states
      · exact closed.if_statement states
      · exact closed.while_statement states
      · exact closed.return_statement token
      · exact closed.map _ (closed.block declares)

theorem declaration_rule : Holds (declarationRule statement declaration) := by
  refine closed.bind (closed.taking (by decide)) fun taken => ?_
  cases taken with
  | none => exact closed.statement_rule states declares
  | some token =>
      dsimp only
      split
      · exact closed.class_declaration declares
      · exact closed.map _ (closed.function declares _)
      · exact closed.var_declaration

end Statements

end Clausal

namespace ClosedUnder

variable (closed : ClosedUnder Holds)

include closed

theorem within (budget : Nat) :
    Holds (statementWithin budget) ∧ Holds (declarationWithin budget) := by
  have spent {Result : Type} : Holds (refuseHere (.missing .expression) : Parser Result) :=
    closed.refusal fun _ => Fault.noConfusion
  induction budget with
  | zero => exact ⟨spent, closed.recovering spent⟩
  | succ budget induction =>
      obtain ⟨states, declares⟩ := induction
      exact ⟨closed.statement_rule states declares,
        closed.recovering (closed.declaration_rule states declares)⟩

theorem declaration : Holds declaration := closed.measured fun count => (closed.within count).2

theorem program : Holds program :=
  closed.bind closed.remaining fun count => closed.declarations_from closed.declaration [] count

end ClosedUnder

end Quill.Grammar
