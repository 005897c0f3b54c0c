import Mathlib.Tactic.Tauto
import Quill.Proofs.Grammar.Consumption
import Quill.Proofs.Grammar.Phrase

/-!
Statements and declarations as they are read. Besides its tokens, its tree and its numbers,
a clause has the faults of the declarations that were dropped inside it; of a dropped
declaration nothing else is kept. Every successful run of the parser is such a reading.
-/

namespace Quill.Grammar

set_option autoImplicit false

inductive Enumerates : List Token → List Token → Prop where
  | nobody : Enumerates [] []
  | last {name : Token} (kind : name.kind = .identifier) : Enumerates [name] [name]
  | more {name comma : Token} {names words : List Token} (kind : name.kind = .identifier)
      (commaKind : comma.kind = .comma) (present : names ≠ []) (rest : Enumerates names words) :
      Enumerates (name :: names) (name :: comma :: words)

/-- What a run of tokens is read as. A `variable` is a declaration after its first word. -/
inductive Clause where
  | optional (value : Option Expr)
  | variable (stmt : Stmt)
  | initializer (stmt : Option Stmt)
  | statement (stmt : Stmt)
  | declaration (stmt : Stmt)
  | function (decl : FunctionDecl)
  | methods (decls : List FunctionDecl)
  | body (stmts : List Stmt)

/-- `Forms clause words first next faults`: the tokens `words` are read as `clause`, with
numbers from `first` up to `next`, and `faults` are those of the declarations dropped. -/
inductive Forms : Clause → List Token → Nat → Nat → List (Located Fault) → Prop where
  | absent {first : Nat} : Forms (.optional none) [] first first []
  | present {expr : Expr} {words : List Token} {first next : Nat}
      (reads : Reads (.expr .assignment expr) words first next) :
      Forms (.optional (some expr)) words first next []
  | bareVariable {name semicolon : Token} {first : Nat} (nameKind : name.kind = .identifier)
      (semicolonKind : semicolon.kind = .semicolon) :
      Forms (.variable (.varDecl name none)) [name, semicolon] first first []
  | variableDecl {name equals semicolon : Token} {value : Expr} {words : List Token}
      {first next : Nat} (nameKind : name.kind = .identifier) (equalsKind : equals.kind = .equal)
      (reads : Reads (.expr .assignment value) words first next)
      (semicolonKind : semicolon.kind = .semicolon) :
      Forms (.variable (.varDecl name (some value))) (name :: equals :: words ++ [semicolon])
        first next []
  | noInitializer {semicolon : Token} {first : Nat} (kind : semicolon.kind = .semicolon) :
      Forms (.initializer none) [semicolon] first first []
  | varInitializer {keyword : Token} {stmt : Stmt} {words : List Token} {first next : Nat}
      (kind : keyword.kind = .varWord) (body : Forms (.variable stmt) words first next []) :
      Forms (.initializer (some stmt)) (keyword :: words) first next []
  | exprInitializer {semicolon : Token} {expr : Expr} {words : List Token} {first next : Nat}
      (reads : Reads (.expr .assignment expr) words first next)
      (kind : semicolon.kind = .semicolon) :
      Forms (.initializer (some (.expression expr))) (words ++ [semicolon]) first next []
  | expression {semicolon : Token} {expr : Expr} {words : List Token} {first next : Nat}
      (reads : Reads (.expr .assignment expr) words first next)
      (kind : semicolon.kind = .semicolon) :
      Forms (.statement (.expression expr)) (words ++ [semicolon]) first next []
  | forLoop {keyword left semicolon right : Token} {initializer : Option Stmt}
      {condition increment : Option Expr} {body loop : Stmt}
      {startWords testWords stepWords bodyWords : List Token}
      {first second third fourth next last : Nat}
      {faults : List (Located Fault)} (keywordKind : keyword.kind = .forWord)
      (leftKind : left.kind = .leftParen)
      (starts : Forms (.initializer initializer) startWords first second [])
      (tests : Forms (.optional condition) testWords second third [])
      (semicolonKind : semicolon.kind = .semicolon)
      (steps : Forms (.optional increment) stepWords third fourth [])
      (rightKind : right.kind = .rightParen)
      (repeats : Forms (.statement body) bodyWords fourth next faults)
      (built : loop = .forLoop initializer (condition.getD (.literal next (.boolean true)))
        increment body)
      (numbered : last = if condition.isSome then next else next + 1) :
      Forms (.statement loop)
        (keyword :: left :: startWords ++ testWords ++ semicolon :: stepWords ++ right :: bodyWords)
        first last faults
  | ifThen {keyword left right : Token} {condition : Expr} {branch : Stmt}
      {words branchWords : List Token} {first middle next : Nat} {faults : List (Located Fault)}
      (keywordKind : keyword.kind = .ifWord) (leftKind : left.kind = .leftParen)
      (reads : Reads (.expr .assignment condition) words first middle)
      (rightKind : right.kind = .rightParen)
      (thenForms : Forms (.statement branch) branchWords middle next faults) :
      Forms (.statement (.ifThen condition branch))
        (keyword :: left :: words ++ right :: branchWords) first next faults
  | ifElse {keyword left right otherwise : Token} {condition : Expr} {branch other : Stmt}
      {words branchWords otherWords : List Token} {first second third next : Nat}
      {faults otherFaults : List (Located Fault)}
      (keywordKind : keyword.kind = .ifWord) (leftKind : left.kind = .leftParen)
      (reads : Reads (.expr .assignment condition) words first second)
      (rightKind : right.kind = .rightParen)
      (thenForms : Forms (.statement branch) branchWords second third faults)
      (otherwiseKind : otherwise.kind = .elseWord)
      (elseForms : Forms (.statement other) otherWords third next otherFaults) :
      Forms (.statement (.ifElse condition branch other))
        (keyword :: left :: words ++ right :: branchWords ++ otherwise :: otherWords) first next
        (faults ++ otherFaults)
  | whileLoop {keyword left right : Token} {condition : Expr} {body : Stmt}
      {words bodyWords : List Token} {first middle next : Nat} {faults : List (Located Fault)}
      (keywordKind : keyword.kind = .whileWord) (leftKind : left.kind = .leftParen)
      (reads : Reads (.expr .assignment condition) words first middle)
      (rightKind : right.kind = .rightParen)
      (repeats : Forms (.statement body) bodyWords middle next faults) :
      Forms (.statement (.whileLoop condition body))
        (keyword :: left :: words ++ right :: bodyWords) first next faults
  | returnStmt {keyword semicolon : Token} {value : Option Expr} {words : List Token}
      {first next : Nat} (keywordKind : keyword.kind = .returnWord)
      (gives : Forms (.optional value) words first next [])
      (semicolonKind : semicolon.kind = .semicolon) :
      Forms (.statement (.returnStmt keyword value)) (keyword :: words ++ [semicolon]) first next []
  | block {left right : Token} {body : List Stmt} {words : List Token} {first next : Nat}
      {faults : List (Located Fault)} (leftKind : left.kind = .leftBrace)
      (inside : Forms (.body body) words first next faults) (rightKind : right.kind = .rightBrace) :
      Forms (.statement (.block body)) (left :: words ++ [right]) first next faults
  | ofStatement {stmt : Stmt} {words : List Token} {first next : Nat}
      {faults : List (Located Fault)} (forms : Forms (.statement stmt) words first next faults) :
      Forms (.declaration stmt) words first next faults
  | varDeclaration {keyword : Token} {stmt : Stmt} {words : List Token} {first next : Nat}
      (kind : keyword.kind = .varWord) (forms : Forms (.variable stmt) words first next []) :
      Forms (.declaration stmt) (keyword :: words) first next []
  | functionDeclaration {keyword : Token} {decl : FunctionDecl} {words : List Token}
      {first next : Nat} {faults : List (Located Fault)} (kind : keyword.kind = .functionWord)
      (forms : Forms (.function decl) words first next faults) :
      Forms (.declaration (.functionDecl decl)) (keyword :: words) first next faults
  | plainClass {keyword name left right : Token} {decls : List FunctionDecl} {words : List Token}
      {first next : Nat} {faults : List (Located Fault)} (keywordKind : keyword.kind = .classWord)
      (nameKind : name.kind = .identifier) (leftKind : left.kind = .leftBrace)
      (inside : Forms (.methods decls) words first next faults)
      (rightKind : right.kind = .rightBrace) :
      Forms (.declaration (.classDecl name none decls))
        (keyword :: name :: left :: words ++ [right]) first next faults
  | derivedClass {keyword name colon baseName left right : Token} {decls : List FunctionDecl}
      {words : List Token} {first next : Nat} {faults : List (Located Fault)}
      (keywordKind : keyword.kind = .classWord) (nameKind : name.kind = .identifier)
      (colonKind : colon.kind = .colon) (baseKind : baseName.kind = .identifier)
      (leftKind : left.kind = .leftBrace)
      (inside : Forms (.methods decls) words (first + 1) next faults)
      (rightKind : right.kind = .rightBrace) :
      Forms (.declaration (.classDecl name (some (.variableRef first baseName)) decls))
        (keyword :: name :: colon :: baseName :: left :: words ++ [right]) first next faults
  | function {name left right leftBrace rightBrace : Token} {names nameWords words : List Token}
      {body : List Stmt} {first next : Nat} {faults : List (Located Fault)}
      (nameKind : name.kind = .identifier) (leftKind : left.kind = .leftParen)
      (listed : Enumerates names nameWords) (limit : names.length ≤ listLimit)
      (rightKind : right.kind = .rightParen) (openKind : leftBrace.kind = .leftBrace)
      (inside : Forms (.body body) words first next faults)
      (closeKind : rightBrace.kind = .rightBrace) :
      Forms (.function ⟨name, names, body⟩)
        (name :: left :: nameWords ++ right :: leftBrace :: words ++ [rightBrace]) first next faults
  | noMethods {first : Nat} : Forms (.methods []) [] first first []
  | method {decl : FunctionDecl} {decls : List FunctionDecl} {words otherWords : List Token}
      {first middle next : Nat} {faults otherFaults : List (Located Fault)}
      (forms : Forms (.function decl) words first middle faults)
      (others : Forms (.methods decls) otherWords middle next otherFaults) :
      Forms (.methods (decl :: decls)) (words ++ otherWords) first next (faults ++ otherFaults)
  | keywordMethod {keyword : Token} {decl : FunctionDecl} {decls : List FunctionDecl}
      {words otherWords : List Token} {first middle next : Nat}
      {faults otherFaults : List (Located Fault)} (kind : keyword.kind = .functionWord)
      (forms : Forms (.function decl) words first middle faults)
      (others : Forms (.methods decls) otherWords middle next otherFaults) :
      Forms (.methods (decl :: decls)) (keyword :: words ++ otherWords) first next
        (faults ++ otherFaults)
  | emptyBody {first : Nat} : Forms (.body []) [] first first []
  | declared {stmt : Stmt} {stmts : List Stmt} {words otherWords : List Token}
      {first middle next : Nat} {faults otherFaults : List (Located Fault)}
      (forms : Forms (.declaration stmt) words first middle faults)
      (others : Forms (.body stmts) otherWords middle next otherFaults) :
      Forms (.body (stmt :: stmts)) (words ++ otherWords) first next (faults ++ otherFaults)
  | dropped {stmts : List Stmt} {words otherWords : List Token} {first middle next : Nat}
      {faults otherFaults : List (Located Fault)} (numbered : first ≤ middle)
      (faulty : faults ≠ []) (others : Forms (.body stmts) otherWords middle next otherFaults) :
      Forms (.body stmts) (words ++ otherWords) first next (faults ++ otherFaults)

/-- The parts of a counting loop as they are written. All but the body may be absent, and then no
token stands for them. -/
structure Counting where
  initializer : Option Stmt
  condition : Option Expr
  increment : Option Expr
  body : Stmt

def Counting.test (counting : Counting) (number : Nat) : Expr :=
  counting.condition.getD (.literal number (.boolean true))

def Counting.loop (counting : Counting) (number : Nat) : Stmt :=
  .forLoop counting.initializer (counting.test number) counting.increment counting.body

/-- `Written counting words first next faults`: behind the first word of a loop, the tokens are
those of its parts. -/
inductive Written : Counting → List Token → Nat → Nat → List (Located Fault) → Prop where
  | parts {counting : Counting} {left semicolon right : Token}
      {startWords testWords stepWords bodyWords : List Token} {first second third fourth next : Nat}
      {faults : List (Located Fault)} (leftKind : left.kind = .leftParen)
      (starts : Forms (.initializer counting.initializer) startWords first second [])
      (tests : Forms (.optional counting.condition) testWords second third [])
      (semicolonKind : semicolon.kind = .semicolon)
      (steps : Forms (.optional counting.increment) stepWords third fourth [])
      (rightKind : right.kind = .rightParen)
      (repeats : Forms (.statement counting.body) bodyWords fourth next faults) :
      Written counting
        (left :: startWords ++ testWords ++ semicolon :: stepWords ++ right :: bodyWords)
        first next faults

/-- A run from `start` to `stop` reads a clause: the words are the tokens in between, and the faults
recorded on the way are those of the declarations dropped in it. -/
structure Formed (clause : Clause) (start stop : Cursor) (words : List Token)
    (added : List (Located Fault)) : Prop where
  rest : start.rest = words ++ stop.rest
  finish : stop.finish = start.finish
  faults : stop.faults = start.faults ++ added
  forms : Forms clause words start.nextId stop.nextId added

/-- Before the end mark, whatever a parser returns has been read: the tokens taken are those of a
clause, and the faults recorded those of declarations dropped in it. -/
def Produces {Result : Type} (parser : Parser Result) (clause : Result → Clause) : Prop :=
  ∀ start stop result, parser start = .ok result stop → start.finish.kind = .endOfInput →
    ∃ words added, Formed (clause result) start stop words added

def Gives {Result : Type} (parser : Parser Result) (clause : Result → Clause) : Prop :=
  ∀ start stop result, parser start = .ok result stop → start.finish.kind = .endOfInput →
    ∃ words, Formed (clause result) start stop words []

theorem Read.formed {expr : Expr} {start stop : Cursor} {words : List Token}
    (read : Read (.expr .assignment expr) start stop words) :
    Formed (.optional (some expr)) start stop words [] :=
  ⟨read.rest, read.finish, by simp [read.faults], .present read.reads⟩

theorem optional_expression_gives (closing : Kind) :
    Gives (optionalExpression closing) .optional := by
  intro start stop value run closed
  obtain ⟨answer, middle, checked, followed⟩ := bind_ok.1 run
  obtain ⟨-, rfl⟩ := check_ok.1 checked
  cases answer with
  | true =>
      obtain ⟨rfl, rfl⟩ := pure_ok.1 followed
      exact ⟨[], rfl, rfl, by simp, .absent⟩
  | false =>
      obtain ⟨expr, exprRun, rfl⟩ := map_ok.1 followed
      obtain ⟨words, read⟩ := expression_yields _ _ _ exprRun closed
      exact ⟨words, read.formed⟩

theorem expression_statement_reads {start stop : Cursor} {stmt : Stmt}
    (run : expressionStatement start = .ok stmt stop)
    (closed : start.finish.kind = .endOfInput) :
    ∃ expr words semicolon, stmt = .expression expr ∧ semicolon.kind = .semicolon ∧
      Reads (.expr .assignment expr) words start.nextId stop.nextId ∧
      start.rest = words ++ [semicolon] ++ stop.rest ∧ stop.finish = start.finish ∧
      stop.faults = start.faults := by
  obtain ⟨expr, middle, exprRun, followed⟩ := bind_ok.1 run
  obtain ⟨semicolon, afterSemicolon, expected, finished⟩ := bind_ok.1 followed
  obtain ⟨behind, held, kind, rfl⟩ := expect_ok.1 expected
  obtain ⟨rfl, rfl⟩ := pure_ok.1 finished
  obtain ⟨words, read⟩ := expression_yields _ _ _ exprRun closed
  refine ⟨expr, words, semicolon, rfl, kind, read.reads, ?_, read.finish, read.faults⟩
  rw [read.rest, held]
  simp

theorem expression_statement_gives : Gives expressionStatement .statement := by
  intro start stop stmt run closed
  obtain ⟨expr, words, semicolon, rfl, kind, reads, rest, finish, faults⟩ :=
    expression_statement_reads run closed
  exact ⟨words ++ [semicolon], rest, finish, by simp [faults], .expression reads kind⟩

theorem var_declaration_gives : Gives varDeclaration .variable := by
  intro start stop stmt run closed
  obtain ⟨name, afterName, nameExpected, followed⟩ := bind_ok.1 run
  obtain ⟨behindName, nameHeld, nameKind, rfl⟩ := expect_ok.1 nameExpected
  obtain ⟨value, afterValue, valueRun, semicolonRun⟩ := bind_ok.1 followed
  obtain ⟨semicolon, afterSemicolon, expected, finished⟩ := bind_ok.1 semicolonRun
  obtain ⟨behind, semicolonHeld, semicolonKind, rfl⟩ := expect_ok.1 expected
  obtain ⟨rfl, rfl⟩ := pure_ok.1 finished
  obtain ⟨answer, afterEquals, accepted, initialized⟩ := bind_ok.1 valueRun
  obtain ⟨equals, behindEquals, rfl, equalsHeld, equalsKind, rfl⟩ | ⟨rfl, -, rfl⟩ :=
    accept_ok.1 accepted
  · obtain ⟨expr, exprRun, rfl⟩ := map_ok.1 initialized
    obtain ⟨words, read⟩ := expression_yields _ _ _ exprRun closed
    refine ⟨name :: equals :: words ++ [semicolon], ?_, read.finish, by simp [read.faults],
      .variableDecl nameKind equalsKind read.reads semicolonKind⟩
    rw [nameHeld, show behindName = _ from equalsHeld, show behindEquals = _ from read.rest,
      semicolonHeld]
    simp
  · obtain ⟨rfl, rfl⟩ := pure_ok.1 initialized
    refine ⟨[name, semicolon], ?_, rfl, by simp, .bareVariable nameKind semicolonKind⟩
    rw [nameHeld, show behindName = _ from semicolonHeld]
    simp

theorem for_initializer_gives : Gives forInitializer .initializer := by
  intro start stop stmt run closed
  obtain ⟨absent, afterSemicolon, accepted, followed⟩ := bind_ok.1 run
  obtain ⟨semicolon, behind, rfl, held, kind, rfl⟩ | ⟨rfl, -, rfl⟩ := accept_ok.1 accepted
  · obtain ⟨rfl, rfl⟩ := pure_ok.1 followed
    exact ⟨[semicolon], held, rfl, by simp, .noInitializer kind⟩
  · obtain ⟨declared, afterVar, acceptedVar, chosen⟩ := bind_ok.1 followed
    obtain ⟨keyword, behind, rfl, held, kind, rfl⟩ | ⟨rfl, -, rfl⟩ := accept_ok.1 acceptedVar
    · obtain ⟨stmt, stmtRun, rfl⟩ := map_ok.1 chosen
      obtain ⟨words, formed⟩ := var_declaration_gives _ _ _ stmtRun closed
      refine ⟨keyword :: words, ?_, formed.finish, formed.faults,
        .varInitializer kind formed.forms⟩
      rw [held, show behind = _ from formed.rest]
      simp
    · obtain ⟨stmt, stmtRun, rfl⟩ := map_ok.1 chosen
      obtain ⟨expr, words, semicolon, rfl, kind, reads, rest, finish, faults⟩ :=
        expression_statement_reads stmtRun closed
      exact ⟨words ++ [semicolon], rest, finish, by simp [faults], .exprInitializer reads kind⟩

theorem return_statement_gives {keyword : Token} (kind : keyword.kind = .returnWord)
    {start stop : Cursor} {behind : List Token} {stmt : Stmt}
    (held : start.rest = keyword :: behind)
    (run : returnStatement keyword { start with rest := behind } = .ok stmt stop)
    (closed : start.finish.kind = .endOfInput) :
    ∃ words, Formed (.statement stmt) start stop words [] := by
  obtain ⟨value, afterValue, valueRun, followed⟩ := bind_ok.1 run
  obtain ⟨semicolon, afterSemicolon, expected, finished⟩ := bind_ok.1 followed
  obtain ⟨last, semicolonHeld, semicolonKind, rfl⟩ := expect_ok.1 expected
  obtain ⟨rfl, rfl⟩ := pure_ok.1 finished
  obtain ⟨words, formed⟩ := optional_expression_gives _ _ _ _ valueRun closed
  refine ⟨keyword :: words ++ [semicolon], ?_, formed.finish, formed.faults,
    .returnStmt kind formed.forms semicolonKind⟩
  rw [held, show behind = _ from formed.rest, semicolonHeld]
  simp

/-- What a declaration parser does: it reads a declaration, or it drops one and says so. -/
def Recovers (declaration : Parser (Option Stmt)) : Prop :=
  ∀ start stop result, declaration start = .ok result stop → start.finish.kind = .endOfInput →
    match result with
    | some stmt => ∃ words added, Formed (.declaration stmt) start stop words added
    | none => Advance start stop ∧ ∃ added, added ≠ [] ∧ stop.faults = start.faults ++ added

/-- A rule under recovery reads a declaration, or the tokens up to the place to resume are dropped
and its fault is recorded. What it recorded before it failed stays. -/
theorem recovering_recovers {rule : Parser Stmt} (ruleAdvances : Advances rule)
    (ruleProduces : Produces rule .declaration) : Recovers (recovering rule) := by
  intro start stop result run closed
  have recovered := (advances_recovering ruleAdvances).of_ok run
  unfold recovering at run
  cases found : rule start with
  | ok stmt next =>
      simp only [found, EStateM.Result.ok.injEq] at run
      rcases run with ⟨rfl, rfl⟩
      exact ruleProduces _ _ _ found closed
  | error fault next =>
      have moved := ruleAdvances start
      rw [found] at moved
      rcases moved.faults with ⟨added, extended⟩
      simp only [found, EStateM.Result.ok.injEq] at run
      rcases run with ⟨rfl, rfl⟩
      refine ⟨recovered, added ++ [fault], by simp, ?_⟩
      have recorded : (next.record fault).faults = start.faults ++ (added ++ [fault]) := by
        simp only [stopOf] at extended
        simp [Cursor.record, extended]
      split
      · exact recorded
      · exact recorded

theorem parameters_enumerate (room : Nat) (start stop : Cursor) (names : List Token)
    (run : parameters room start = .ok names stop) :
    names ≠ [] ∧ names.length ≤ room ∧ ∃ words, Enumerates names words ∧
      start = { stop with rest := words ++ stop.rest } := by
  induction room generalizing start names with
  | zero => exact absurd run refuse_here_ok
  | succ room induction =>
      obtain ⟨name, afterName, expected, followed⟩ := bind_ok.1 run
      obtain ⟨behind, held, kind, rfl⟩ := expect_ok.1 expected
      obtain ⟨more, afterComma, accepted, rested⟩ := bind_ok.1 followed
      obtain ⟨comma, behindComma, rfl, commaHeld, commaKind, rfl⟩ | ⟨rfl, -, rfl⟩ :=
        accept_ok.1 accepted
      · obtain ⟨others, last, othersRun, finished⟩ := bind_ok.1 rested
        obtain ⟨rfl, rfl⟩ := pure_ok.1 finished
        obtain ⟨present, short, words, listed, same⟩ := induction _ _ othersRun
        refine ⟨by simp, by simpa using short, name :: comma :: words,
          .more kind commaKind present listed, ?_⟩
        simp only [Cursor.mk.injEq] at same commaHeld
        rcases same with ⟨behindSame, finish, nextId, faults⟩
        cases start
        simp_all
      · obtain ⟨rfl, rfl⟩ := pure_ok.1 rested
        refine ⟨by simp, by simp, [name], .last kind, ?_⟩
        cases start
        simp_all

theorem parameter_list_enumerates (start stop : Cursor) (names : List Token)
    (run : parameterList start = .ok names stop) :
    names.length ≤ listLimit ∧ ∃ words, Enumerates names words ∧
      start = { stop with rest := words ++ stop.rest } := by
  obtain ⟨answer, middle, checked, followed⟩ := bind_ok.1 run
  obtain ⟨-, rfl⟩ := check_ok.1 checked
  cases answer with
  | true =>
      obtain ⟨rfl, rfl⟩ := pure_ok.1 followed
      exact ⟨by simp, [], .nobody, rfl⟩
  | false => exact (parameters_enumerate listLimit _ _ _ followed).2

section Declarations

variable {declaration : Parser (Option Stmt)} (recovers : Recovers declaration)

include recovers

/-- The declarations of a body are read one after the other, and those that are dropped leave no
statement but their faults. The induction is on the budget. -/
theorem declarations_from_produce (closing : List Kind) (budget : Nat) :
    Produces (declarationsFrom declaration closing budget) .body := by
  induction budget with
  | zero =>
      intro start stop body run closed
      obtain ⟨rfl, rfl⟩ := pure_ok.1 run
      exact ⟨[], [], rfl, rfl, by simp, .emptyBody⟩
  | succ budget induction =>
      intro start stop body run closed
      rcases (repeats_declarations declaration closing).run_cases run with
        ⟨rfl, rfl⟩ | ⟨first, middle, others, firstRun, othersRun, rfl⟩
      · exact ⟨[], [], rfl, rfl, by simp, .emptyBody⟩
      have outcome := recovers _ _ _ firstRun closed
      cases first with
      | some stmt =>
          rcases outcome with ⟨words, added, formed⟩
          obtain ⟨otherWords, otherAdded, othersFormed⟩ :=
            induction _ _ _ othersRun (formed.finish ▸ closed)
          refine ⟨words ++ otherWords, added ++ otherAdded, ?_,
            othersFormed.finish.trans formed.finish, ?_,
            .declared formed.forms othersFormed.forms⟩
          · rw [formed.rest, othersFormed.rest, List.append_assoc]
          · rw [othersFormed.faults, formed.faults, List.append_assoc]
      | none =>
          rcases outcome with ⟨moved, added, faulty, extended⟩
          rcases moved.rest with ⟨words, consumed⟩
          obtain ⟨otherWords, otherAdded, othersFormed⟩ :=
            induction _ _ _ othersRun (moved.finish ▸ closed)
          refine ⟨words ++ otherWords, added ++ otherAdded, ?_,
            othersFormed.finish.trans moved.finish, ?_,
            .dropped moved.nextId faulty othersFormed.forms⟩
          · rw [← consumed, othersFormed.rest, List.append_assoc]
          · rw [othersFormed.faults, extended, List.append_assoc]

theorem block_produces {brace : Token} {start stop : Cursor} {body : List Stmt}
    {behind : List Token} (held : start.rest = brace :: behind)
    (run : block declaration { start with rest := behind } = .ok body stop)
    (closed : start.finish.kind = .endOfInput) :
    ∃ words closing added, closing.kind = .rightBrace ∧
      start.rest = brace :: words ++ [closing] ++ stop.rest ∧ stop.finish = start.finish ∧
      stop.faults = start.faults ++ added ∧
      Forms (.body body) words start.nextId stop.nextId added := by
  obtain ⟨count, same, remainingRun, bodyRun⟩ := bind_ok.1 run
  obtain ⟨-, rfl⟩ := remaining_ok.1 remainingRun
  obtain ⟨stmts, afterBody, stmtsRun, closeRun⟩ := bind_ok.1 bodyRun
  obtain ⟨closing, afterClose, expected, finished⟩ := bind_ok.1 closeRun
  obtain ⟨last, closeHeld, closeKind, rfl⟩ := expect_ok.1 expected
  obtain ⟨rfl, rfl⟩ := pure_ok.1 finished
  obtain ⟨words, added, formed⟩ := declarations_from_produce recovers _ _ _ _ _ stmtsRun closed
  refine ⟨words, closing, added, closeKind, ?_, formed.finish, formed.faults, formed.forms⟩
  rw [held, show behind = _ from formed.rest, closeHeld]
  simp

theorem function_produces (role : Role) : Produces (function declaration role) .function := by
  intro start stop decl run closed
  obtain ⟨name, afterName, nameExpected, leftRun⟩ := bind_ok.1 run
  obtain ⟨behindName, nameHeld, nameKind, rfl⟩ := expect_ok.1 nameExpected
  obtain ⟨left, afterLeft, leftExpected, listRun⟩ := bind_ok.1 leftRun
  obtain ⟨behindLeft, leftHeld, leftKind, rfl⟩ := expect_ok.1 leftExpected
  obtain ⟨names, afterNames, namesRun, rightRun⟩ := bind_ok.1 listRun
  obtain ⟨right, afterRight, rightExpected, openRun⟩ := bind_ok.1 rightRun
  obtain ⟨behindRight, rightHeld, rightKind, rfl⟩ := expect_ok.1 rightExpected
  obtain ⟨brace, afterBrace, braceExpected, blockRun⟩ := bind_ok.1 openRun
  obtain ⟨behindBrace, braceHeld, braceKind, rfl⟩ := expect_ok.1 braceExpected
  obtain ⟨body, afterBody, bodyRun, finished⟩ := bind_ok.1 blockRun
  obtain ⟨rfl, rfl⟩ := pure_ok.1 finished
  obtain ⟨short, nameWords, listed, same⟩ := parameter_list_enumerates _ _ _ namesRun
  simp only [Cursor.mk.injEq] at same
  rcases same with ⟨restSame, finishSame, idSame, faultsSame⟩
  obtain ⟨words, closing, added, closeKind, rest, finish, faults, forms⟩ :=
    block_produces recovers braceHeld bodyRun (finishSame ▸ closed)
  refine ⟨name :: left :: nameWords ++ right :: brace :: words ++ [closing], added, ?_,
    finish.trans finishSame.symm, ?_, .function nameKind leftKind listed short rightKind braceKind
      ?_ closeKind⟩
  · rw [nameHeld, show behindName = _ from leftHeld, restSame, rightHeld,
      show behindRight = _ from rest]
    simp
  · rw [faults, faultsSame]
  · rw [idSame]
    exact forms

theorem methods_from_produce (budget : Nat) :
    Produces (methodsFrom declaration budget) .methods := by
  induction budget with
  | zero =>
      intro start stop decls run closed
      obtain ⟨rfl, rfl⟩ := pure_ok.1 run
      exact ⟨[], [], rfl, rfl, by simp, .noMethods⟩
  | succ budget induction =>
      intro start stop decls run closed
      rcases (repeats_methods declaration).run_cases run with
        ⟨rfl, rfl⟩ | ⟨decl, middle, others, declRun, othersRun, rfl⟩
      · exact ⟨[], [], rfl, rfl, by simp, .noMethods⟩
      obtain ⟨marked, afterWord, accepted, functionRun⟩ := bind_ok.1 declRun
      obtain ⟨keyword, behind, rfl, held, kind, rfl⟩ | ⟨rfl, -, rfl⟩ := accept_ok.1 accepted
      · obtain ⟨words, added, formed⟩ := function_produces recovers _ _ _ _ functionRun closed
        obtain ⟨otherWords, otherAdded, othersFormed⟩ :=
          induction _ _ _ othersRun (formed.finish ▸ closed)
        refine ⟨keyword :: words ++ otherWords, added ++ otherAdded, ?_,
          othersFormed.finish.trans formed.finish, ?_,
          .keywordMethod kind formed.forms othersFormed.forms⟩
        · rw [held, show behind = _ from formed.rest, othersFormed.rest]
          simp
        · rw [othersFormed.faults, formed.faults, List.append_assoc]
      · obtain ⟨words, added, formed⟩ := function_produces recovers _ _ _ _ functionRun closed
        obtain ⟨otherWords, otherAdded, othersFormed⟩ :=
          induction _ _ _ othersRun (formed.finish ▸ closed)
        refine ⟨words ++ otherWords, added ++ otherAdded, ?_,
          othersFormed.finish.trans formed.finish, ?_,
          .method formed.forms othersFormed.forms⟩
        · rw [formed.rest, othersFormed.rest, List.append_assoc]
        · rw [othersFormed.faults, formed.faults, List.append_assoc]

theorem class_declaration_produces {keyword : Token} (keywordKind : keyword.kind = .classWord)
    {start stop : Cursor} {stmt : Stmt} {behind : List Token}
    (held : start.rest = keyword :: behind)
    (run : classDeclaration declaration { start with rest := behind } = .ok stmt stop)
    (closed : start.finish.kind = .endOfInput) :
    ∃ words added, Formed (.declaration stmt) start stop words added := by
  obtain ⟨name, afterName, nameExpected, baseRun⟩ := bind_ok.1 run
  obtain ⟨behindName, nameHeld, nameKind, rfl⟩ := expect_ok.1 nameExpected
  obtain ⟨base, afterBase, classBaseRun, openRun⟩ := bind_ok.1 baseRun
  obtain ⟨left, afterLeft, leftExpected, countRun⟩ := bind_ok.1 openRun
  obtain ⟨behindLeft, leftHeld, leftKind, rfl⟩ := expect_ok.1 leftExpected
  obtain ⟨count, same, remainingRun, methodsRun⟩ := bind_ok.1 countRun
  obtain ⟨-, rfl⟩ := remaining_ok.1 remainingRun
  obtain ⟨decls, afterDecls, declsRun, closeRun⟩ := bind_ok.1 methodsRun
  obtain ⟨right, afterRight, rightExpected, finished⟩ := bind_ok.1 closeRun
  obtain ⟨last, rightHeld, rightKind, rfl⟩ := expect_ok.1 rightExpected
  obtain ⟨rfl, rfl⟩ := pure_ok.1 finished
  obtain ⟨derived, afterColon, accepted, named⟩ := bind_ok.1 classBaseRun
  obtain ⟨colon, behindColon, rfl, colonHeld, colonKind, rfl⟩ | ⟨rfl, -, rfl⟩ :=
    accept_ok.1 accepted
  · obtain ⟨baseName, afterBaseName, baseExpected, makeRun⟩ := bind_ok.1 named
    obtain ⟨behindBase, baseHeld, baseKind, rfl⟩ := expect_ok.1 baseExpected
    obtain ⟨made, afterMake, makeStep, returned⟩ := bind_ok.1 makeRun
    obtain ⟨rfl, rfl⟩ := make_ok.1 makeStep
    obtain ⟨rfl, rfl⟩ := pure_ok.1 returned
    obtain ⟨words, added, formed⟩ := methods_from_produce recovers _ _ _ _ declsRun closed
    refine ⟨keyword :: name :: colon :: baseName :: left :: words ++ [right], added, ?_,
      formed.finish, formed.faults, .derivedClass keywordKind nameKind colonKind baseKind leftKind
        formed.forms rightKind⟩
    rw [held, show behind = _ from nameHeld, show behindName = _ from colonHeld,
      show behindColon = _ from baseHeld, show behindBase = _ from leftHeld,
      show behindLeft = _ from formed.rest, rightHeld]
    simp
  · obtain ⟨rfl, rfl⟩ := pure_ok.1 named
    obtain ⟨words, added, formed⟩ := methods_from_produce recovers _ _ _ _ declsRun closed
    refine ⟨keyword :: name :: left :: words ++ [right], added, ?_, formed.finish, formed.faults,
      .plainClass keywordKind nameKind leftKind formed.forms rightKind⟩
    rw [held, show behind = _ from nameHeld, show behindName = _ from leftHeld,
      show behindLeft = _ from formed.rest, rightHeld]
    simp

end Declarations

section Statements

variable {statement : Parser Stmt} (produces : Produces statement .statement)

include produces

/-- What is read behind the first word of a counting loop is the loop of its parts. Only one without
a condition takes a number for itself, after those of its parts. -/
theorem for_statement_written {start stop : Cursor} {loop : Stmt}
    (run : forStatement statement start = .ok loop stop)
    (closed : start.finish.kind = .endOfInput) :
    ∃ counting words next added, Written counting words start.nextId next added ∧
      start.rest = words ++ stop.rest ∧ stop.finish = start.finish ∧
        stop.faults = start.faults ++ added ∧ loop = counting.loop next ∧
          stop.nextId = if counting.condition.isSome then next else next + 1 := by
  obtain ⟨left, afterLeft, leftExpected, startRun⟩ := bind_ok.1 run
  obtain ⟨behindLeft, leftHeld, leftKind, rfl⟩ := expect_ok.1 leftExpected
  obtain ⟨initializer, afterStart, initializerRun, testRun⟩ := bind_ok.1 startRun
  obtain ⟨startWords, starts⟩ := for_initializer_gives _ _ _ initializerRun closed
  obtain ⟨condition, afterTest, conditionRun, semicolonRun⟩ := bind_ok.1 testRun
  obtain ⟨testWords, tests⟩ := optional_expression_gives _ _ _ _ conditionRun
    (starts.finish ▸ closed)
  obtain ⟨semicolon, afterSemicolon, semicolonExpected, stepRun⟩ := bind_ok.1 semicolonRun
  obtain ⟨behindSemicolon, semicolonHeld, semicolonKind, rfl⟩ := expect_ok.1 semicolonExpected
  obtain ⟨increment, afterStep, incrementRun, rightRun⟩ := bind_ok.1 stepRun
  have testFinish := tests.finish.trans starts.finish
  obtain ⟨stepWords, steps⟩ := optional_expression_gives _ _ _ _ incrementRun
    (testFinish ▸ closed)
  obtain ⟨right, afterRight, rightExpected, bodyRun⟩ := bind_ok.1 rightRun
  obtain ⟨behindRight, rightHeld, rightKind, rfl⟩ := expect_ok.1 rightExpected
  obtain ⟨body, afterBody, statementRun, loopRun⟩ := bind_ok.1 bodyRun
  have stepFinish := steps.finish.trans testFinish
  obtain ⟨bodyWords, added, repeats⟩ := produces _ _ _ statementRun (stepFinish ▸ closed)
  have clean : afterStep.faults = start.faults := by
    simpa [tests.faults, starts.faults] using steps.faults
  have rest : start.rest = left :: startWords ++ testWords ++ semicolon :: stepWords ++
      right :: bodyWords ++ afterBody.rest := by
    rw [leftHeld, show behindLeft = _ from starts.rest, tests.rest, semicolonHeld,
      show behindSemicolon = _ from steps.rest, rightHeld, show behindRight = _ from repeats.rest]
    simp
  have finish : afterBody.finish = start.finish := repeats.finish.trans stepFinish
  have faults : afterBody.faults = start.faults ++ added := by
    rw [repeats.faults]
    simp [clean]
  have written : Written ⟨initializer, condition, increment, body⟩ _ start.nextId afterBody.nextId
      added :=
    .parts leftKind starts.forms tests.forms semicolonKind steps.forms rightKind repeats.forms
  refine ⟨⟨initializer, condition, increment, body⟩, _, _, added, written, ?_⟩
  cases condition with
  | some condition =>
      obtain ⟨rfl, rfl⟩ := pure_ok.1 loopRun
      exact ⟨rest, finish, faults, rfl, rfl⟩
  | none =>
      obtain ⟨made, afterMake, makeRun, finished⟩ := bind_ok.1 loopRun
      obtain ⟨rfl, rfl⟩ := make_ok.1 makeRun
      obtain ⟨rfl, rfl⟩ := pure_ok.1 finished
      exact ⟨rest, finish, faults, rfl, rfl⟩

theorem for_statement_produces {keyword : Token} (keywordKind : keyword.kind = .forWord)
    {start stop : Cursor} {stmt : Stmt} {behind : List Token}
    (held : start.rest = keyword :: behind)
    (run : forStatement statement { start with rest := behind } = .ok stmt stop)
    (closed : start.finish.kind = .endOfInput) :
    ∃ words added, Formed (.statement stmt) start stop words added := by
  obtain ⟨counting, words, next, added, written, rest, finish, faults, built, numbered⟩ :=
    for_statement_written produces run closed
  cases written with
  | parts leftKind starts tests semicolonKind steps rightKind repeats =>
      refine ⟨keyword :: _, added, ?_, finish, faults, .forLoop keywordKind leftKind starts tests
        semicolonKind steps rightKind repeats built numbered⟩
      rw [held, show behind = _ from rest]
      rfl

theorem if_statement_produces {keyword : Token} (keywordKind : keyword.kind = .ifWord)
    {start stop : Cursor} {stmt : Stmt} {behind : List Token}
    (held : start.rest = keyword :: behind)
    (run : ifStatement statement { start with rest := behind } = .ok stmt stop)
    (closed : start.finish.kind = .endOfInput) :
    ∃ words added, Formed (.statement stmt) start stop words added := by
  obtain ⟨left, afterLeft, leftExpected, testRun⟩ := bind_ok.1 run
  obtain ⟨behindLeft, leftHeld, leftKind, rfl⟩ := expect_ok.1 leftExpected
  obtain ⟨condition, afterTest, conditionRun, rightRun⟩ := bind_ok.1 testRun
  obtain ⟨words, read⟩ := expression_yields _ _ _ conditionRun closed
  obtain ⟨right, afterRight, rightExpected, thenRun⟩ := bind_ok.1 rightRun
  obtain ⟨behindRight, rightHeld, rightKind, rfl⟩ := expect_ok.1 rightExpected
  obtain ⟨branch, afterBranch, branchRun, elseRun⟩ := bind_ok.1 thenRun
  obtain ⟨branchWords, added, formed⟩ := produces _ _ _ branchRun (read.finish ▸ closed)
  have branchFinish := formed.finish.trans read.finish
  have branchFaults : afterBranch.faults = start.faults ++ added := by
    rw [formed.faults]
    simp [read.faults]
  have branchRest : start.rest = keyword :: left :: words ++ right :: branchWords ++
      afterBranch.rest := by
    rw [held, show behind = _ from leftHeld, show behindLeft = _ from read.rest, rightHeld,
      show behindRight = _ from formed.rest]
    simp
  obtain ⟨answer, afterElse, accepted, followed⟩ := bind_ok.1 elseRun
  obtain ⟨otherwise, behindElse, rfl, elseHeld, elseKind, rfl⟩ | ⟨rfl, -, rfl⟩ :=
    accept_ok.1 accepted
  · obtain ⟨other, afterOther, otherRun, finished⟩ := bind_ok.1 followed
    obtain ⟨rfl, rfl⟩ := pure_ok.1 finished
    obtain ⟨otherWords, otherAdded, otherFormed⟩ := produces _ _ _ otherRun (branchFinish ▸ closed)
    refine ⟨keyword :: left :: words ++ right :: branchWords ++ otherwise :: otherWords,
      added ++ otherAdded, ?_, otherFormed.finish.trans branchFinish, ?_,
      .ifElse keywordKind leftKind read.reads rightKind formed.forms elseKind otherFormed.forms⟩
    · rw [branchRest, elseHeld, show behindElse = _ from otherFormed.rest]
      simp
    · rw [otherFormed.faults]
      simp [branchFaults]
  · obtain ⟨rfl, rfl⟩ := pure_ok.1 followed
    exact ⟨_, added, branchRest, branchFinish, branchFaults,
      .ifThen keywordKind leftKind read.reads rightKind formed.forms⟩

theorem while_statement_produces {keyword : Token} (keywordKind : keyword.kind = .whileWord)
    {start stop : Cursor} {stmt : Stmt} {behind : List Token}
    (held : start.rest = keyword :: behind)
    (run : whileStatement statement { start with rest := behind } = .ok stmt stop)
    (closed : start.finish.kind = .endOfInput) :
    ∃ words added, Formed (.statement stmt) start stop words added := by
  obtain ⟨left, afterLeft, leftExpected, testRun⟩ := bind_ok.1 run
  obtain ⟨behindLeft, leftHeld, leftKind, rfl⟩ := expect_ok.1 leftExpected
  obtain ⟨condition, afterTest, conditionRun, rightRun⟩ := bind_ok.1 testRun
  obtain ⟨words, read⟩ := expression_yields _ _ _ conditionRun closed
  obtain ⟨right, afterRight, rightExpected, bodyRun⟩ := bind_ok.1 rightRun
  obtain ⟨behindRight, rightHeld, rightKind, rfl⟩ := expect_ok.1 rightExpected
  obtain ⟨body, afterBody, statementRun, finished⟩ := bind_ok.1 bodyRun
  obtain ⟨rfl, rfl⟩ := pure_ok.1 finished
  obtain ⟨bodyWords, added, formed⟩ := produces _ _ _ statementRun (read.finish ▸ closed)
  refine ⟨keyword :: left :: words ++ right :: bodyWords, added, ?_,
    formed.finish.trans read.finish, ?_,
    .whileLoop keywordKind leftKind read.reads rightKind formed.forms⟩
  · rw [held, show behind = _ from leftHeld, show behindLeft = _ from read.rest, rightHeld,
      show behindRight = _ from formed.rest]
    simp
  · rw [formed.faults]
    simp [read.faults]

variable {declaration : Parser (Option Stmt)} (recovers : Recovers declaration)

include recovers

/-- The first word of a statement decides how it is read. Without one of these words it is an
expression with a semicolon. -/
theorem statement_rule_produces : Produces (statementRule statement declaration) .statement := by
  intro start stop stmt run closed
  obtain ⟨taken, middle, accepted, followed⟩ := bind_ok.1 run
  obtain ⟨token, behind, rfl, held, member, rfl⟩ | ⟨rfl, -, rfl⟩ := accept_option_ok.1 accepted
  · obtain ⟨rule, isRule, chosen⟩ : ∃ rule : Parser Stmt, rule = _ ∧
        rule { start with rest := behind } = .ok stmt stop := ⟨_, rfl, followed⟩
    dsimp only at isRule
    split at isRule <;> subst isRule
    next kind => exact for_statement_produces produces kind held chosen closed
    next kind => exact if_statement_produces produces kind held chosen closed
    next kind => exact while_statement_produces produces kind held chosen closed
    next kind =>
      obtain ⟨words, formed⟩ := return_statement_gives kind held chosen closed
      exact ⟨words, [], formed⟩
    next noFor noIf noWhile noReturn =>
      have kind : token.kind = .leftBrace := by
        simp only [List.mem_cons, List.not_mem_nil, or_false] at member
        tauto
      obtain ⟨body, bodyRun, rfl⟩ := map_ok.1 chosen
      obtain ⟨words, closing, added, closeKind, rest, finish, faults, forms⟩ :=
        block_produces recovers held bodyRun closed
      exact ⟨_, added, rest, finish, faults, .block kind forms closeKind⟩
  · obtain ⟨words, formed⟩ := expression_statement_gives _ _ _ followed closed
    exact ⟨words, [], formed⟩

theorem declaration_rule_produces :
    Produces (declarationRule statement declaration) .declaration := by
  intro start stop stmt run closed
  obtain ⟨taken, middle, accepted, followed⟩ := bind_ok.1 run
  obtain ⟨token, behind, rfl, held, member, rfl⟩ | ⟨rfl, -, rfl⟩ := accept_option_ok.1 accepted
  · obtain ⟨rule, isRule, chosen⟩ : ∃ rule : Parser Stmt, rule = _ ∧
        rule { start with rest := behind } = .ok stmt stop := ⟨_, rfl, followed⟩
    dsimp only at isRule
    split at isRule <;> subst isRule
    next kind => exact class_declaration_produces recovers kind held chosen closed
    next kind =>
      obtain ⟨decl, declRun, rfl⟩ := map_ok.1 chosen
      obtain ⟨words, added, formed⟩ := function_produces recovers _ _ _ _ declRun closed
      refine ⟨token :: words, added, ?_, formed.finish, formed.faults,
        .functionDeclaration kind formed.forms⟩
      rw [held, show behind = _ from formed.rest]
      simp
    next noClass noFunction =>
      have kind : token.kind = .varWord := by
        simp only [List.mem_cons, List.not_mem_nil, or_false] at member
        tauto
      obtain ⟨words, formed⟩ := var_declaration_gives _ _ _ chosen closed
      refine ⟨token :: words, [], ?_, formed.finish, formed.faults,
        .varDeclaration kind formed.forms⟩
      rw [held, show behind = _ from formed.rest]
      simp
  · obtain ⟨words, added, formed⟩ := statement_rule_produces produces recovers _ _ _ followed closed
    exact ⟨words, added, { formed with forms := .ofStatement formed.forms }⟩

end Statements

theorem within_produces (budget : Nat) :
    Produces (statementWithin budget) .statement ∧ Recovers (declarationWithin budget) := by
  induction budget with
  | zero =>
      refine ⟨fun _ _ _ run _ => absurd run refuse_here_ok, ?_⟩
      exact recovering_recovers (advances_refuse_here _)
        (fun _ _ _ run _ => absurd run refuse_here_ok)
  | succ budget induction =>
      rcases induction with ⟨produces, recovers⟩
      obtain ⟨statementAdvances, declarationAdvances⟩ := advances_closed.within budget
      refine ⟨fun start => statement_rule_produces produces recovers start, fun start => ?_⟩
      exact recovering_recovers (advances_closed.declaration_rule statementAdvances declarationAdvances)
        (declaration_rule_produces produces recovers) start

theorem declaration_recovers : Recovers declaration :=
  fun start => (within_produces start.rest.length).2 start

theorem program_produces : Produces program .body := by
  intro start stop stmts run closed
  obtain ⟨count, same, remainingRun, bodyRun⟩ := bind_ok.1 run
  obtain ⟨-, rfl⟩ := remaining_ok.1 remainingRun
  exact declarations_from_produce declaration_recovers _ _ _ _ _ bodyRun closed

end Quill.Grammar
