import Quill.Proofs.Grammar.Progress

/-!
The moments of a run. A run of a parser is a function from cursors to results, so what a
cursor passes through on the way is not visible in it. A script tells how a parser is put
together from primitives; it belongs to the parser that it describes by its type, and from it
follow all the cursors of a run, token by token. The rules of the grammar have scripts that
are put together as the rules are.
-/

namespace Quill.Grammar

set_option autoImplicit false

/-- The parsers of one step, which all others are put together from by sequences, choices and
recovery. -/
inductive Primitive : {Result : Type} → Parser Result → Prop
  | pure {Result : Type} (value : Result) : Primitive (pure value)
  | peek : Primitive peek
  | advance : Primitive advance
  | atEnd : Primitive atEnd
  | remaining : Primitive remaining
  | refuse {Result : Type} (token : Token) (fault : Fault) :
      Primitive (refuse token fault : Parser Result)
  | refuseHere {Result : Type} (fault : Fault) : Primitive (refuseHere fault : Parser Result)
  | check (kinds : List Kind) : Primitive (check kinds)
  | accept? (kinds : List Kind) : Primitive (accept? kinds)
  | expect (kind : Kind) (wanted : Wanted) : Primitive (expect kind wanted)
  | acceptAll (kinds : List Kind) : Primitive (acceptAll kinds)
  | make (build : Nat → Expr) : Primitive (make build)

theorem Primitive.advances {Result : Type} {parser : Parser Result}
    (primitive : Primitive parser) : Advances parser := by
  cases primitive with
  | pure value => exact advances_pure value
  | peek => exact advances_peek
  | advance => exact advances_advance
  | atEnd => exact advances_at_end
  | remaining => exact advances_remaining
  | refuse token fault => exact advances_refuse token fault
  | refuseHere fault => exact advances_refuse_here fault
  | check kinds => exact advances_check kinds
  | accept? kinds => exact advances_accept_option kinds
  | expect kind wanted => exact advances_expect kind wanted
  | acceptAll kinds => exact advances_accept_all kinds
  | make build => exact advances_make build

/-- How a parser is put together. Parsers are functions, which do not show what happens on the way;
a script has the steps of one in the order in which they are taken. -/
inductive Script : {Result : Type} → Parser Result → Type 1
  | step {Result : Type} {parser : Parser Result} (primitive : Primitive parser) : Script parser
  | bind {Result Next : Type} {first : Parser Result} {proceed : Result → Parser Next}
      (before : Script first) (after : ∀ value, Script (proceed value)) :
      Script (first >>= proceed)
  | map {Result Next : Type} {parser : Parser Result} (build : Result → Next)
      (script : Script parser) : Script (build <$> parser)
  | either {Result : Type} {yes no : Parser Result} (condition : Prop) [Decidable condition]
      (first : Script yes) (second : Script no) : Script (if condition then yes else no)
  | measured {Result : Type} {proceed : Nat → Parser Result}
      (script : ∀ count, Script (proceed count)) :
      Script fun cursor => proceed cursor.rest.length cursor
  | recovering {rule : Parser Stmt} (script : Script rule) : Script (recovering rule)

def Cursor.passing (start stop : Cursor) : List Cursor :=
  (List.range (start.rest.length - stop.rest.length + 1)).map
    (fun count => { start with rest := start.rest.drop count }) ++ [stop]

theorem stop_mem_passing (start stop : Cursor) : stop ∈ start.passing stop := by
  simp [Cursor.passing]

theorem passing_cases {start stop moment : Cursor} (member : moment ∈ start.passing stop) :
    (∃ count, moment = { start with rest := start.rest.drop count }) ∨ moment = stop := by
  rcases List.mem_append.1 member with passed | last
  · obtain ⟨count, -, rfl⟩ := List.mem_map.1 passed
    exact .inl ⟨count, rfl⟩
  · exact .inr (List.mem_singleton.1 last)

theorem passing_advance {start stop moment : Cursor} (advance : Advance start stop)
    (member : moment ∈ start.passing stop) : Advance start moment := by
  rcases passing_cases member with ⟨count, rfl⟩ | rfl
  · exact Advance.drop (List.drop_suffix count start.rest)
  · exact advance

namespace Script

/-- All cursors of a run, in their order. A step passes all tokens that it takes, and a
recovery all that it skips. -/
def moments : {Result : Type} → {parser : Parser Result} → Script parser → Cursor → List Cursor
  | _, parser, step _, start => start.passing (stopOf (parser start))
  | _, _, @bind _ _ first _ before after, start =>
      before.moments start ++
        match first start with
        | .ok value middle => (after value).moments middle
        | .error _ _ => []
  | _, _, map _ script, start => script.moments start
  | _, _, either condition first second, start =>
      if condition then first.moments start else second.moments start
  | _, _, measured script, start => (script start.rest.length).moments start
  | _, _, @recovering rule script, start =>
      script.moments start ++
        match rule start with
        | .ok _ _ => []
        | .error fault stop =>
            (stop.record fault).passing (stopOf (Grammar.recovering rule start))

variable {Result Next : Type}

theorem advances {parser : Parser Result} (script : Script parser) : Advances parser := by
  induction script with
  | step primitive => exact primitive.advances
  | bind before after first second => exact advances_bind first second
  | map build script induction => exact advances_map build induction
  | either condition first second yes no =>
      split
      · exact yes
      · exact no
  | measured script induction => exact fun start => induction start.rest.length start
  | recovering script induction => exact advances_recovering induction

/-- A sequence is first at the moments of its first part and then at those of the second, which
starts where the first one ends. -/
theorem bind_moments {first : Parser Result} {proceed : Result → Parser Next}
    {before : Script first} {after : ∀ value, Script (proceed value)} {start moment : Cursor}
    (member : moment ∈ (bind before after).moments start) :
    moment ∈ before.moments start ∨
      ∃ value middle, first start = .ok value middle ∧ moment ∈ (after value).moments middle := by
  rw [moments] at member
  rcases List.mem_append.1 member with early | late
  · exact .inl early
  · cases found : first start with
    | ok value middle =>
        rw [found] at late
        exact .inr ⟨value, middle, rfl, late⟩
    | error fault middle =>
        rw [found] at late
        cases late

theorem recovering_moments {rule : Parser Stmt} {script : Script rule} {start moment : Cursor}
    (member : moment ∈ (recovering script).moments start) :
    moment ∈ script.moments start ∨
      ∃ fault stop, rule start = .error fault stop ∧
        moment ∈ (stop.record fault).passing (stopOf (Grammar.recovering rule start)) := by
  rw [moments] at member
  rcases List.mem_append.1 member with early | late
  · exact .inl early
  · cases found : rule start with
    | ok stmt stop =>
        rw [found] at late
        cases late
    | error fault stop =>
        rw [found] at late
        exact .inr ⟨fault, stop, rfl, late⟩

theorem stop_mem_moments {parser : Parser Result} (script : Script parser) (start : Cursor) :
    stopOf (parser start) ∈ script.moments start := by
  induction script generalizing start with
  | step primitive => exact stop_mem_passing _ _
  | @bind _ _ first proceed before after firstInduction secondInduction =>
      change stopOf (EStateM.bind first proceed start) ∈ _
      have early := firstInduction start
      rw [moments]
      cases found : first start with
      | ok value middle =>
          simp only [EStateM.bind, found]
          exact List.mem_append_right _ (secondInduction value middle)
      | error fault middle =>
          rw [found] at early
          simp only [EStateM.bind, found]
          exact List.mem_append_left _ early
  | @map _ _ parser build script induction =>
      have last := induction start
      change stopOf (EStateM.map build parser start) ∈ script.moments start
      cases found : parser start with
      | ok value middle | error fault middle =>
          rw [found] at last
          simp only [EStateM.map, found]
          exact last
  | either condition first second yes no =>
      unfold moments
      split
      · exact yes start
      · exact no start
  | measured script induction => exact induction start.rest.length start
  | @recovering rule script induction =>
      have last := induction start
      unfold moments
      cases found : rule start with
      | ok stmt stop =>
          rw [found] at last
          simp only [Grammar.recovering, found, List.append_nil]
          exact last
      | error fault stop => exact List.mem_append_right _ (stop_mem_passing _ _)

/-- Every moment of a run comes after its start. The induction is on the script, with one case for
each way to put parsers together. -/
theorem moments_advance {parser : Parser Result} (script : Script parser) {start moment : Cursor}
    (member : moment ∈ script.moments start) : Advance start moment := by
  induction script generalizing start with
  | step primitive => exact passing_advance (primitive.advances start) member
  | bind before after firstInduction secondInduction =>
      rcases bind_moments member with early | ⟨value, middle, run, late⟩
      · exact firstInduction early
      · exact (before.advances.of_ok run).trans (secondInduction value late)
  | map build script induction => exact induction member
  | either condition first second yes no =>
      unfold moments at member
      split at member
      · exact yes member
      · exact no member
  | measured script induction => exact induction start.rest.length member
  | @recovering rule script induction =>
      rcases recovering_moments member with early | ⟨fault, stop, run, late⟩
      · exact induction early
      · have whole := advances_recovering script.advances start
        have failed := script.advances start
        rw [run] at failed
        rcases passing_cases late with ⟨count, rfl⟩ | rfl
        · have recorded : Advance stop (stop.record fault) :=
            ⟨List.suffix_refl _, rfl, Nat.le_refl _, [fault], rfl⟩
          exact (failed.trans recorded).trans (Advance.drop (List.drop_suffix count _))
        · exact whole

def accept (kind : Kind) : Script (Grammar.accept kind) := map _ (step (.accept? [kind]))

section Expressions

variable {inner : Parser Expr} (expression : Script inner)

def chainFrom (operators : List Kind) (build : Nat → Expr → Token → Expr → Expr) :
    (budget : Nat) → (left : Expr) → Script (Grammar.chainFrom operators build inner budget left)
  | 0, left => step (.pure left)
  | budget + 1, _ =>
      bind (step (.accept? operators)) fun
        | none => step (.pure _)
        | some _ =>
            bind expression fun _ => bind (step (.make _)) fun joined =>
              chainFrom operators build budget joined

def chain (operators : List Kind) (build : Nat → Expr → Token → Expr → Expr) :
    Script (Grammar.chain operators build inner) :=
  bind expression fun first => bind (step .remaining) fun count =>
    chainFrom expression operators build count first

def arguments : (room : Nat) → Script (Grammar.arguments inner room)
  | 0 => step (.refuseHere _)
  | room + 1 =>
      bind expression fun _ => bind (accept .comma) fun _ =>
        either _ (bind (arguments room) fun _ => step (.pure _)) (step (.pure _))

def argumentList : Script (Grammar.argumentList inner) :=
  bind (step (.check _)) fun _ => either _ (step (.pure _)) (arguments expression listLimit)

def finishCall (callee : Expr) : Script (Grammar.finishCall inner callee) :=
  bind (argumentList expression) fun _ => bind (step (.expect _ _)) fun _ => step (.make _)

def finishGet (object : Expr) : Script (Grammar.finishGet object) :=
  bind (step (.expect _ _)) fun _ => step (.make _)

def suffix (mark : Token) (head : Expr) : Script (Grammar.suffix inner mark head) :=
  either _ (finishCall expression head) (finishGet head)

def suffixesFrom : (budget : Nat) → (head : Expr) →
    Script (Grammar.suffixesFrom inner budget head)
  | 0, head => step (.pure head)
  | budget + 1, head =>
      bind (step (.accept? _)) fun
        | none => step (.pure _)
        | some mark => bind (suffix expression mark head) fun longer => suffixesFrom budget longer

def leaf (build : Nat → Expr) : Script (Grammar.leaf build) :=
  bind (step .advance) fun _ => step (.make build)

def primary : Script (Grammar.primary inner) :=
  bind (step .peek) fun token =>
    match token.kind with
    | .falseWord | .trueWord | .nilWord | .string | .identifier | .thisWord => leaf _
    | .number =>
        match Number.read? token.lexeme with
        | some _ => leaf _
        | none => step (.refuse _ _)
    | .baseWord =>
        bind (step .advance) fun _ => bind (step (.expect _ _)) fun _ =>
          bind (step (.expect _ _)) fun _ => step (.make _)
    | .leftParen =>
        bind (step .advance) fun _ => bind expression fun _ => bind (step (.expect _ _)) fun _ =>
          step (.make _)
    | .rightParen | .leftBrace | .rightBrace | .comma | .dot | .minus | .plus | .semicolon
    | .colon | .slash | .star | .bang | .bangEqual | .equal | .equalEqual | .greater
    | .greaterEqual | .less | .lessEqual | .ampersand | .andAnd | .pipe | .orOr | .classWord
    | .ifWord | .elseWord | .whileWord | .forWord | .returnWord | .varWord | .functionWord
    | .endOfInput =>
        step (.refuse _ _)

def call : Script (Grammar.call inner) :=
  bind (primary expression) fun head => bind (step .remaining) fun count =>
    suffixesFrom expression count head

def applySigns (right : Expr) : (operators : List Token) →
    Script (Grammar.applySigns right operators)
  | [] => step (.pure right)
  | _ :: operators => bind (applySigns right operators) fun _ => step (.make _)

def unary : Script (Grammar.unary inner) :=
  bind (step (.acceptAll _)) fun operators => bind (call expression) fun right =>
    applySigns right operators

def disjunction : Script (Grammar.disjunction inner) :=
  chain (chain (chain (chain (chain (chain (unary expression) _ _) _ _) _ _) _ _) _ _) _ _

def assignTo (equals : Token) (target value : Expr) :
    Script (Grammar.assignTo equals target value) :=
  match target with
  | .variableRef _ name => step (.make fun id => .assign id name value)
  | .get _ object name => step (.make fun id => .set id object name value)
  | .literal _ _ | .grouping _ _ | .unary _ _ _ | .binary _ _ _ _ | .logical _ _ _ _
  | .thisRef _ _ | .baseRef _ _ _ | .assign _ _ _ | .call _ _ _ _ | .set _ _ _ _ =>
      step (.refuse equals .invalidTarget)

def assignment : Script (Grammar.assignment inner) :=
  bind (disjunction expression) fun target => bind (step (.accept? _)) fun
    | none => step (.pure _)
    | some equals => bind expression fun value => assignTo equals target value

end Expressions

def expressionWithin : (budget : Nat) → Script (Grammar.expressionWithin budget)
  | 0 => step (.refuseHere _)
  | budget + 1 => assignment (expressionWithin budget)

def expression : Script Grammar.expression := measured expressionWithin

section Declarations

variable {dropping : Parser (Option Stmt)} (declaration : Script dropping)

def declarationsFrom (closing : List Kind) : (budget : Nat) →
    Script (Grammar.declarationsFrom dropping closing budget)
  | 0 => step (.pure _)
  | budget + 1 =>
      bind (step .atEnd) fun _ => either _ (step (.pure _)) <|
        bind (step (.check _)) fun _ => either _ (step (.pure _)) <|
          bind declaration fun _ => bind (declarationsFrom closing budget) fun _ =>
            step (.pure _)

def block : Script (Grammar.block dropping) :=
  bind (step .remaining) fun count => bind (declarationsFrom declaration _ count) fun _ =>
    bind (step (.expect _ _)) fun _ => step (.pure _)

def parameters : (room : Nat) → Script (Grammar.parameters room)
  | 0 => step (.refuseHere _)
  | room + 1 =>
      bind (step (.expect _ _)) fun _ => bind (accept .comma) fun _ =>
        either _ (bind (parameters room) fun _ => step (.pure _)) (step (.pure _))

def parameterList : Script Grammar.parameterList :=
  bind (step (.check _)) fun _ => either _ (step (.pure _)) (parameters listLimit)

def function (role : Role) : Script (Grammar.function dropping role) :=
  bind (step (.expect _ _)) fun _ => bind (step (.expect _ _)) fun _ =>
    bind parameterList fun _ => bind (step (.expect _ _)) fun _ =>
      bind (step (.expect _ _)) fun _ => bind (block declaration) fun _ => step (.pure _)

def methodsFrom : (budget : Nat) → Script (Grammar.methodsFrom dropping budget)
  | 0 => step (.pure _)
  | budget + 1 =>
      bind (step .atEnd) fun _ => either _ (step (.pure _)) <|
        bind (step (.check _)) fun _ => either _ (step (.pure _)) <|
          bind (accept .functionWord) fun _ => bind (function declaration .method) fun _ =>
            bind (methodsFrom budget) fun _ => step (.pure _)

def classBase : Script Grammar.classBase :=
  bind (accept .colon) fun _ => either _
    (bind (step (.expect _ _)) fun _ => bind (step (.make _)) fun _ => step (.pure _))
    (step (.pure _))

def classDeclaration : Script (Grammar.classDeclaration dropping) :=
  bind (step (.expect _ _)) fun _ => bind classBase fun _ => bind (step (.expect _ _)) fun _ =>
    bind (step .remaining) fun count => bind (methodsFrom declaration count) fun _ =>
      bind (step (.expect _ _)) fun _ => step (.pure _)

end Declarations

def initializer : Script Grammar.initializer :=
  bind (accept .equal) fun _ => either _ (map _ expression) (step (.pure _))

def varDeclaration : Script Grammar.varDeclaration :=
  bind (step (.expect _ _)) fun _ => bind initializer fun _ =>
    bind (step (.expect _ _)) fun _ => step (.pure _)

def expressionStatement : Script Grammar.expressionStatement :=
  bind expression fun _ => bind (step (.expect _ _)) fun _ => step (.pure _)

def optionalExpression (closing : Kind) : Script (Grammar.optionalExpression closing) :=
  bind (step (.check _)) fun _ => either _ (step (.pure _)) (map _ expression)

def forInitializer : Script Grammar.forInitializer :=
  bind (accept .semicolon) fun _ => either _ (step (.pure _)) <|
    bind (accept .varWord) fun _ => either _ (map _ varDeclaration) (map _ expressionStatement)

section Statements

variable {single : Parser Stmt} (statement : Script single)

def forStatement : Script (Grammar.forStatement single) :=
  bind (step (.expect _ _)) fun _ => bind forInitializer fun _ =>
    bind (optionalExpression .semicolon) fun condition => bind (step (.expect _ _)) fun _ =>
      bind (optionalExpression .rightParen) fun _ => bind (step (.expect _ _)) fun _ =>
        bind statement fun _ =>
          match condition with
          | some _ => step (.pure _)
          | none => bind (step (.make _)) fun _ => step (.pure _)

def ifStatement : Script (Grammar.ifStatement single) :=
  bind (step (.expect _ _)) fun _ => bind expression fun _ => bind (step (.expect _ _)) fun _ =>
    bind statement fun _ => bind (accept .elseWord) fun _ =>
      either _ (bind statement fun _ => step (.pure _)) (step (.pure _))

def whileStatement : Script (Grammar.whileStatement single) :=
  bind (step (.expect _ _)) fun _ => bind expression fun _ => bind (step (.expect _ _)) fun _ =>
    bind statement fun _ => step (.pure _)

def returnStatement (keyword : Token) : Script (Grammar.returnStatement keyword) :=
  bind (optionalExpression .semicolon) fun _ => bind (step (.expect _ _)) fun _ => step (.pure _)

variable {dropping : Parser (Option Stmt)} (declaration : Script dropping)

def statementRule : Script (Grammar.statementRule single dropping) :=
  bind (step (.accept? _)) fun
    | none => expressionStatement
    | some token => by
        dsimp only
        exact match token.kind with
        | .forWord => forStatement statement
        | .ifWord => ifStatement statement
        | .whileWord => whileStatement statement
        | .returnWord => returnStatement token
        | .leftParen | .rightParen | .leftBrace | .rightBrace | .comma | .dot | .minus | .plus
        | .semicolon | .colon | .slash | .star | .bang | .bangEqual | .equal | .equalEqual
        | .greater | .greaterEqual | .less | .lessEqual | .ampersand | .andAnd | .pipe | .orOr
        | .identifier | .string | .number | .classWord | .elseWord | .nilWord | .thisWord
        | .baseWord | .varWord | .functionWord | .trueWord | .falseWord | .endOfInput =>
            map _ (block declaration)

def declarationRule : Script (Grammar.declarationRule single dropping) :=
  bind (step (.accept? _)) fun
    | none => statementRule statement declaration
    | some token => by
        dsimp only
        exact match token.kind with
        | .classWord => classDeclaration declaration
        | .functionWord => map _ (function declaration .function)
        | .leftParen | .rightParen | .leftBrace | .rightBrace | .comma | .dot | .minus | .plus
        | .semicolon | .colon | .slash | .star | .bang | .bangEqual | .equal | .equalEqual
        | .greater | .greaterEqual | .less | .lessEqual | .ampersand | .andAnd | .pipe | .orOr
        | .identifier | .string | .number | .ifWord | .elseWord | .whileWord | .forWord
        | .nilWord | .returnWord | .thisWord | .baseWord | .varWord | .trueWord | .falseWord
        | .endOfInput =>
            varDeclaration

end Statements

mutual

def statementWithin : (budget : Nat) → Script (Grammar.statementWithin budget)
  | 0 => step (.refuseHere _)
  | budget + 1 => statementRule (statementWithin budget) (declarationWithin budget)

def declarationWithin : (budget : Nat) → Script (Grammar.declarationWithin budget)
  | 0 => recovering (step (.refuseHere _))
  | budget + 1 =>
      recovering (declarationRule (statementWithin budget) (declarationWithin budget))

end

def declaration : Script Grammar.declaration := measured declarationWithin

def program : Script Grammar.program :=
  bind (step .remaining) fun count => declarationsFrom declaration [] count

end Script

end Quill.Grammar
