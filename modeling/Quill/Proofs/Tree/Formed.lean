import Quill.Program
import Quill.Proofs.Token.Spelling
import Quill.Proofs.Tree.Nodes

/-!
Whatever the parser returns is well formed and numbered. Both are read off the tokens: a
phrase or clause passes them on from its parts, and its own node adds one token or one
number.
-/

namespace Quill.Grammar

set_option autoImplicit false

def Phrase.nodes : Phrase → List Node
  | .expr _ term => term.nodes
  | .arguments given => (subtermsOf given).map .expr

theorem operators_binary {level : Level} {kind : Kind} (member : kind ∈ level.operators) :
    (∀ id left operator right, level.build id left operator right =
        .binary id left operator right) ∧ kind ∈ binaryOperators ∨
      (∀ id left operator right, level.build id left operator right =
        .logical id left operator right) ∧ kind ∈ logicalOperators := by
  cases level with
  | disjunction | conjunction =>
      refine .inr ⟨fun _ _ _ _ => rfl, ?_⟩
      revert kind
      decide
  | assignment | unary | call | primary => simp [Level.operators] at member
  | equality | comparison | term | factor =>
      refine .inl ⟨fun _ _ _ _ => rfl, ?_⟩
      revert kind
      decide

variable {Allowed : Token → Prop}

open Node

theorem Reads.well_formed {phrase : Phrase} {words : List Token} {first next : Nat}
    (reads : Reads phrase words first next) (allowed : ∀ token ∈ words, Allowed token) :
    AllWellFormed Allowed phrase.nodes := by
  induction reads with
  | joined leftBody kind rightBody leftInduction rightInduction =>
      have leftFormed := leftInduction (by simp_all)
      have rightFormed := rightInduction (by simp_all)
      rcases operators_binary kind with ⟨build, member⟩ | ⟨build, member⟩
      all_goals
        simp only [Phrase.nodes, build, Expr.nodes, Expr.subterms] at leftFormed rightFormed ⊢
        simp_all [WellFormed, ExprWellFormed]
  | _ => simp_all [Phrase.nodes, Expr.nodes, Expr.subterms, subtermsOf, WellFormed, ExprWellFormed,
      Named]

theorem Reads.numbered {phrase : Phrase} {words : List Token} {first next : Nat}
    (reads : Reads phrase words first next) : Numbered (nodeIds phrase.nodes) first next := by
  induction reads with
  | literal denotes => exact .single _
  | variableRef kind => exact .single _
  | thisRef kind => exact .single _
  | baseRef keywordKind dotKind methodKind => exact .single _
  | grouping leftKind body rightKind induction =>
      simpa [Phrase.nodes, Expr.nodes, Expr.subterms, Expr.id] using induction.append (.single _)
  | call head leftKind given limit rightKind headInduction givenInduction =>
      simpa [Phrase.nodes, Expr.nodes, Expr.subterms, Expr.id] using
        (headInduction.append givenInduction).append (.single _)
  | get head dotKind nameKind induction =>
      simpa [Phrase.nodes, Expr.nodes, Expr.subterms, Expr.id] using induction.append (.single _)
  | unary kind body induction =>
      simpa [Phrase.nodes, Expr.nodes, Expr.subterms, Expr.id] using induction.append (.single _)
  | joined leftBody kind rightBody leftInduction rightInduction =>
      rcases operators_binary kind with ⟨build, -⟩ | ⟨build, -⟩
      all_goals
        simpa [Phrase.nodes, build, Expr.nodes, Expr.subterms, Expr.id] using
          (leftInduction.append rightInduction).append (.single _)
  | only body induction => exact induction
  | assign nameKind equalsKind body induction =>
      -- The number of the variable on the left is given up with its node.
      simpa [Phrase.nodes, Expr.nodes, Expr.subterms, Expr.id] using
        (induction.widen (Nat.le_succ _)).append (.single _)
  | set head dotKind nameKind equalsKind body headInduction valueInduction =>
      simpa [Phrase.nodes, Expr.nodes, Expr.subterms, Expr.id] using
        (headInduction.append (valueInduction.widen (Nat.le_succ _))).append (.single _)
  | noArguments => exact .nil (Nat.le_refl _)
  | lastArgument body induction =>
      simpa [Phrase.nodes, subtermsOf, Expr.nodes] using induction
  | moreArguments body commaKind present rest induction restInduction =>
      simpa [Phrase.nodes, subtermsOf, Expr.nodes] using induction.append restInduction

def Clause.nodes : Clause → List Node
  | .optional value => optionNodes value
  | .variable held | .statement held | .declaration held => held.nodes
  | .initializer held => stmtOptionNodes held
  | .function decl => decl.nodes
  | .methods decls => methodNodes decls
  | .body stmts => bodyNodes stmts

theorem Forms.undeclared {stmt : Stmt} {words : List Token} {first next : Nat}
    {faults : List (Located Fault)} (forms : Forms (.statement stmt) words first next faults) :
    stmt.declared? = none := by
  generalize same : Clause.statement stmt = clause at forms
  cases forms with
  | forLoop keywordKind leftKind starts tests semicolonKind steps rightKind repeats built numbered =>
      cases same
      rw [built]
      exact for_loop_undeclared _ _ _ _
  | _ => cases same <;> rfl

/-- The nodes of what is read have different numbers, from the first that was free up to the next
that is. The parts of a clause take theirs one part after the other. -/
theorem Forms.numbered {clause : Clause} {words : List Token} {first next : Nat}
    {faults : List (Located Fault)} (forms : Forms clause words first next faults) :
    Numbered (nodeIds clause.nodes) first next := by
  induction forms with
  | absent => exact .nil (Nat.le_refl _)
  | present reads => exact reads.numbered
  | bareVariable nameKind semicolonKind => exact .nil (Nat.le_refl _)
  | variableDecl nameKind equalsKind reads semicolonKind => exact reads.numbered
  | noInitializer kind => exact .nil (Nat.le_refl _)
  | varInitializer kind body induction => exact induction
  | exprInitializer reads kind => exact reads.numbered
  | expression reads kind => exact reads.numbered
  | @forLoop _ _ _ _ _ condition _ _ _ _ _ _ _ _ _ _ _ next _ _ _ _ _ _ _ _ _ _ built last
      startInduction testInduction stepInduction bodyInduction =>
      subst built last
      simp only [Clause.nodes] at startInduction testInduction stepInduction bodyInduction ⊢
      rw [for_loop_ids]
      have clauses := startInduction.append testInduction
      cases condition with
      | some condition =>
          refine ((clauses.append stepInduction).append bodyInduction).perm ?_
          refine List.perm_iff_count.2 fun id => ?_
          simp only [Option.getD_some, optionNodes, List.count_append]
          omega
      | none =>
          refine (((clauses.append stepInduction).append bodyInduction).append (.single next)).perm ?_
          refine List.perm_iff_count.2 fun id => ?_
          simp only [Option.getD_none, optionNodes, Expr.nodes, Expr.subterms, List.map_cons,
            List.map_nil, node_ids_expr, node_ids_nil, Expr.id, List.count_append, List.count_nil]
          omega
  | ifThen keywordKind leftKind reads rightKind thenForms induction =>
      simpa [Clause.nodes, Stmt.nodes, Phrase.nodes] using reads.numbered.append induction
  | ifElse keywordKind leftKind reads rightKind thenForms otherwiseKind elseForms thenInduction
      elseInduction =>
      simpa [Clause.nodes, Stmt.nodes, Phrase.nodes] using
        (reads.numbered.append thenInduction).append elseInduction
  | whileLoop keywordKind leftKind reads rightKind repeats induction =>
      simpa [Clause.nodes, Stmt.nodes, Phrase.nodes] using reads.numbered.append induction
  | returnStmt keywordKind gives semicolonKind induction => exact induction
  | block leftKind inside rightKind induction => exact induction
  | ofStatement forms induction => exact induction
  | varDeclaration kind forms induction => exact induction
  | functionDeclaration kind forms induction => exact induction
  | plainClass keywordKind nameKind leftKind inside rightKind induction => exact induction
  | derivedClass keywordKind nameKind colonKind baseKind leftKind inside rightKind induction =>
      exact (Numbered.single _).append induction
  | function nameKind leftKind listed limit rightKind openKind inside closeKind induction =>
      simpa [Clause.nodes, FunctionDecl.nodes] using induction
  | noMethods => exact .nil (Nat.le_refl _)
  | method forms others induction othersInduction =>
      simpa [Clause.nodes, methodNodes] using induction.append othersInduction
  | keywordMethod kind forms others induction othersInduction =>
      simpa [Clause.nodes, methodNodes] using induction.append othersInduction
  | emptyBody => exact .nil (Nat.le_refl _)
  | declared forms others induction othersInduction =>
      simpa [Clause.nodes, bodyNodes] using induction.append othersInduction
  | dropped numbered faulty others induction => exact induction.widen numbered

theorem Enumerates.named {names words : List Token} (listed : Enumerates names words)
    (allowed : ∀ token ∈ words, Allowed token) : ∀ name ∈ names, Named Allowed name := by
  induction listed with
  | nobody => simp
  | last kind => simpa [Named, kind] using allowed
  | more kind commaKind present rest induction =>
      have others := induction (by simp_all)
      simp_all [Named]

theorem for_loop_well_formed {initializer : Option Stmt} {condition : Expr}
    {increment : Option Expr} {body : Stmt}
    (starts : AllWellFormed Allowed (stmtOptionNodes initializer))
    (tests : AllWellFormed Allowed condition.nodes)
    (steps : AllWellFormed Allowed (optionNodes increment))
    (repeats : AllWellFormed Allowed body.nodes) (undeclared : body.declared? = none) :
    AllWellFormed Allowed (Stmt.forLoop initializer condition increment body).nodes := by
  cases initializer <;> cases increment <;>
    simp_all [Stmt.forLoop, Stmt.nodes, bodyNodes, optionNodes, stmtOptionNodes, WellFormed,
      StmtWellFormed] <;> rfl

/-- All nodes of what is read are well formed, and their tokens are among those read. This holds of
the declarations that were kept, whatever was dropped between them. -/
theorem Forms.well_formed {clause : Clause} {words : List Token} {first next : Nat}
    {faults : List (Located Fault)} (forms : Forms clause words first next faults)
    (allowed : ∀ token ∈ words, Allowed token) : AllWellFormed Allowed clause.nodes := by
  induction forms with
  | present reads | exprInitializer reads | expression reads | variableDecl _ _ reads =>
      have formed : AllWellFormed Allowed (Phrase.nodes _) := reads.well_formed (by simp_all)
      simp_all [Clause.nodes, Phrase.nodes, Stmt.nodes, optionNodes, stmtOptionNodes,
        WellFormed, StmtWellFormed, Named]
  | @forLoop _ _ _ _ _ condition _ _ _ _ _ _ _ _ _ _ _ _ _ _ _ _ _ _ _ _ _ repeats built _
      startInduction testInduction stepInduction bodyInduction =>
      subst built
      refine for_loop_well_formed (startInduction (by simp_all)) ?_ (stepInduction (by simp_all))
        (bodyInduction (by simp_all)) repeats.undeclared
      cases condition with
      | some condition => exact testInduction (by simp_all)
      | none => simp [Expr.nodes, Expr.subterms, WellFormed, ExprWellFormed]
  | ifThen _ _ reads _ thenForms induction =>
      have formed : AllWellFormed Allowed (Phrase.nodes _) := reads.well_formed (by simp_all)
      have branch := thenForms.undeclared
      simp_all [Clause.nodes, Phrase.nodes, Stmt.nodes, WellFormed, StmtWellFormed]
  | ifElse _ _ reads _ thenForms _ elseForms induction otherInduction =>
      have formed : AllWellFormed Allowed (Phrase.nodes _) := reads.well_formed (by simp_all)
      have branch := thenForms.undeclared
      have other := elseForms.undeclared
      simp_all [Clause.nodes, Phrase.nodes, Stmt.nodes, WellFormed, StmtWellFormed]
  | whileLoop _ _ reads _ repeats induction =>
      have formed : AllWellFormed Allowed (Phrase.nodes _) := reads.well_formed (by simp_all)
      have branch := repeats.undeclared
      simp_all [Clause.nodes, Phrase.nodes, Stmt.nodes, WellFormed, StmtWellFormed]
  | function _ _ listed limit =>
      have named : ∀ name ∈ _, Named Allowed name := listed.named (by simp_all)
      simp_all [Clause.nodes, FunctionDecl.nodes, WellFormed, Named]
  | _ =>
      simp_all [Clause.nodes, Stmt.nodes, optionNodes, stmtOptionNodes, WellFormed,
        StmtWellFormed, ExprWellFormed, Named, methodNodes, bodyNodes, FunctionDecl.nodes_eq,
        Expr.nodes, Expr.subterms]

end Quill.Grammar

namespace Quill

/-- What every parsed program satisfies, whatever faults were found in it: its nodes are well
formed, and no two of its expressions have the same number. -/
structure WellMade (statements : List Stmt) : Prop where
  formed : Node.AllWellFormed Token.Spelled (bodyNodes statements)
  distinct : (nodeIds (bodyNodes statements)).Nodup

theorem end_of_kind (source : List Char) : (Token.endOf source).kind = .endOfInput := rfl

/-- A source that parses has been scanned before. Whatever tokens it was read from are then those of
its own scan. -/
theorem parse_scans {source : String} {parsed : Grammar.Parse}
    (parses : Program.parse source = .ok parsed) :
    ∃ tokens, Lexer.tokens source = .ok tokens ∧
      parsed = Grammar.parse tokens (Token.endOf source.toList) := by
  unfold Program.parse at parses
  split at parses <;> cases parses
  next tokens scanned => exact ⟨tokens, scanned, rfl⟩

theorem parse_well_made {source : String} {parsed : Grammar.Parse}
    (parses : Program.parse source = .ok parsed) : WellMade parsed.statements := by
  obtain ⟨tokens, scanned, rfl⟩ := parse_scans parses
  obtain ⟨next, forms⟩ := Grammar.parse_forms tokens (end_of_kind source.toList)
  have spelled := Lexer.tokens_spelled scanned
  refine ⟨forms.well_formed fun token member => ?_, forms.numbered.distinct⟩
  exact spelled token (List.takeWhile_subset _ member)

theorem compiles_of_option {source : String} {program : Program}
    (present : (Program.compile source).toOption = some program) :
    Program.compile source = .ok program := by
  cases found : Program.compile source with
  | error diagnostics => simp [found, Except.toOption] at present
  | ok other => simpa [found, Except.toOption] using present

theorem compile_ok {source : String} {program : Program}
    (compiles : Program.compile source = .ok program) :
    ∃ parsed, Program.parse source = .ok parsed ∧ parsed.faults = [] ∧
      parsed.statements = program.statements ∧
        Scope.resolve parsed.statements = .ok program.locals := by
  unfold Program.compile at compiles
  cases parses : Program.parse source with
  | error diagnostic => simp [parses] at compiles
  | ok parsed =>
      rw [parses] at compiles
      by_cases faultless : parsed.faults = []
      · refine ⟨parsed, rfl, faultless, ?_⟩
        simp only [faultless, List.isEmpty_nil, if_true, Program.resolve] at compiles
        cases resolved : Scope.resolve parsed.statements with
        | error faults => simp [resolved] at compiles
        | ok locals =>
            simp only [resolved, Except.ok.injEq] at compiles
            subst compiles
            exact ⟨rfl, rfl⟩
      · simp [faultless] at compiles

end Quill
