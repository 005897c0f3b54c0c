import Quill.Proofs.Grammar.Consumption

/-!
A semicolon that nothing passes. Among tokens that end with their only semicolon and open no
brace and no counting loop, a declaration that takes the semicolon is complete. One that fails
has left the semicolon where it was; and no other declaration was dropped within it.
-/

namespace Quill.Grammar

set_option autoImplicit false

/-- Tokens up to a semicolon, with none before it that takes more than one declaration. -/
def Sealed (rest : List Token) : Prop :=
  ∃ front last, rest = front ++ [last] ∧ last.kind = .semicolon ∧
    ∀ token ∈ front, token.kind ∉ [Kind.semicolon, .leftBrace, .forWord]

theorem sealed_cases {rest : List Token} (isSealed : Sealed rest) :
    ∃ token behind, rest = token :: behind ∧ token.kind ∉ [Kind.leftBrace, .forWord] ∧
      (token.kind = .semicolon ∧ behind = [] ∨ token.kind ≠ .semicolon ∧ Sealed behind) := by
  rcases isSealed with ⟨front, last, rfl, ends, plain⟩
  cases front with
  | nil => exact ⟨last, [], rfl, by simp [ends], .inl ⟨ends, rfl⟩⟩
  | cons token front =>
      have head := plain token List.mem_cons_self
      refine ⟨token, front ++ [last], rfl, by simp_all, .inr ⟨by simp_all, front, last, rfl, ends,
        fun other member => plain other (List.mem_cons_of_mem _ member)⟩⟩

structure Keeps (start stop : Cursor) : Prop where
  isSealed : Sealed stop.rest
  faults : stop.faults = start.faults

/-- However it ends, the parser leaves the semicolon. This is so of all that stands inside a
declaration which has no semicolons within. -/
def Spares {Result : Type} (parser : Parser Result) : Prop :=
  ∀ start : Cursor, Sealed start.rest → Keeps start (stopOf (parser start))

/-- The parser takes all tokens, or it fails and leaves the semicolon. So whatever remains of a
faulty declaration can be skipped. -/
def Finishes {Result : Type} (parser : Parser Result) : Prop :=
  ∀ start : Cursor, Sealed start.rest →
    (∀ result stop, parser start = .ok result stop →
      stop.rest = [] ∧ stop.faults = start.faults) ∧
    ∀ fault stop, parser start = .error fault stop → Keeps start stop

variable {Result Next : Type} {parser : Parser Result}

theorem keeps_refl {cursor : Cursor} (isSealed : Sealed cursor.rest) : Keeps cursor cursor :=
  ⟨isSealed, rfl⟩

theorem Keeps.trans {start middle stop : Cursor} (first : Keeps start middle)
    (second : Keeps middle stop) : Keeps start stop :=
  ⟨second.isSealed, second.faults.trans first.faults⟩

theorem Spares.of_ok (spares : Spares parser) {start stop : Cursor} {result : Result}
    (isSealed : Sealed start.rest) (run : parser start = .ok result stop) : Keeps start stop := by
  have kept := spares start isSealed
  rwa [run] at kept

theorem Spares.of_error (spares : Spares parser) {start stop : Cursor} {fault : Located Fault}
    (isSealed : Sealed start.rest) (run : parser start = .error fault stop) :
    Keeps start stop := by
  have kept := spares start isSealed
  rwa [run] at kept

theorem bind_error {first : Parser Result} {proceed : Result → Parser Next}
    {start stop : Cursor} {fault : Located Fault}
    (run : (first >>= proceed) start = .error fault stop) :
    first start = .error fault stop ∨
      ∃ value middle, first start = .ok value middle ∧ proceed value middle = .error fault stop := by
  change EStateM.bind first proceed start = _ at run
  unfold EStateM.bind at run
  cases found : first start with
  | ok value middle =>
      rw [found] at run
      exact .inr ⟨value, middle, rfl, run⟩
  | error cause middle =>
      rw [found] at run
      cases run
      exact .inl rfl

theorem map_error {build : Result → Next} {start stop : Cursor} {fault : Located Fault}
    (run : (build <$> parser) start = .error fault stop) : parser start = .error fault stop := by
  change EStateM.map build parser start = _ at run
  unfold EStateM.map at run
  cases found : parser start with
  | ok value middle =>
      rw [found] at run
      cases run
  | error cause middle =>
      rw [found] at run
      cases run
      rfl

section Combining

variable {proceed : Result → Parser Next}

theorem Spares.bind (first : Spares parser) (second : ∀ value, Spares (proceed value)) :
    Spares (parser >>= proceed) := by
  intro start isSealed
  cases run : (parser >>= proceed) start with
  | ok result stop =>
      obtain ⟨value, middle, firstRun, lastRun⟩ := bind_ok.1 run
      have kept := first.of_ok isSealed firstRun
      exact kept.trans ((second value).of_ok kept.isSealed lastRun)
  | error fault stop =>
      rcases bind_error run with firstRun | ⟨value, middle, firstRun, lastRun⟩
      · exact first.of_error isSealed firstRun
      · have kept := first.of_ok isSealed firstRun
        exact kept.trans ((second value).of_error kept.isSealed lastRun)

theorem Spares.before_of {possible : Result → Prop} (first : Spares parser)
    (results : ∀ start value middle, Sealed start.rest → parser start = .ok value middle →
      possible value)
    (second : ∀ value, possible value → Finishes (proceed value)) :
    Finishes (parser >>= proceed) := by
  intro start isSealed
  refine ⟨fun result stop run => ?_, fun fault stop run => ?_⟩
  · obtain ⟨value, middle, firstRun, lastRun⟩ := bind_ok.1 run
    have kept := first.of_ok isSealed firstRun
    have rest := second value (results start value middle isSealed firstRun)
    obtain ⟨ended, faults⟩ := (rest middle kept.isSealed).1 result stop lastRun
    exact ⟨ended, faults.trans kept.faults⟩
  · rcases bind_error run with firstRun | ⟨value, middle, firstRun, lastRun⟩
    · exact first.of_error isSealed firstRun
    · have kept := first.of_ok isSealed firstRun
      have rest := second value (results start value middle isSealed firstRun)
      exact kept.trans ((rest middle kept.isSealed).2 fault stop lastRun)

theorem Spares.before (first : Spares parser) (second : ∀ value, Finishes (proceed value)) :
    Finishes (parser >>= proceed) :=
  first.before_of (fun _ _ _ _ _ => trivial) fun value _ => second value

theorem Finishes.map (build : Result → Next) (finishes : Finishes parser) :
    Finishes (build <$> parser) := by
  intro start isSealed
  refine ⟨fun result stop run => ?_, fun fault stop run => ?_⟩
  · obtain ⟨value, innerRun, -⟩ := map_ok.1 run
    exact (finishes start isSealed).1 value stop innerRun
  · exact (finishes start isSealed).2 fault stop (map_error run)

/-- Behind the end of a declaration there is nothing left to fail on. -/
theorem Finishes.followed (first : Finishes parser)
    (second : ∀ value cursor, cursor.rest = [] → ∃ result, proceed value cursor = .ok result cursor) :
    Finishes (parser >>= proceed) := by
  intro start isSealed
  obtain ⟨succeeds, fails⟩ := first start isSealed
  refine ⟨fun result stop run => ?_, fun fault stop run => ?_⟩
  · obtain ⟨value, middle, firstRun, lastRun⟩ := bind_ok.1 run
    obtain ⟨ended, faults⟩ := succeeds value middle firstRun
    obtain ⟨other, same⟩ := second value middle ended
    rw [same] at lastRun
    cases lastRun
    exact ⟨ended, faults⟩
  · rcases bind_error run with firstRun | ⟨value, middle, firstRun, lastRun⟩
    · exact fails fault stop firstRun
    · obtain ⟨ended, -⟩ := succeeds value middle firstRun
      obtain ⟨other, same⟩ := second value middle ended
      rw [same] at lastRun
      cases lastRun

end Combining

section Steps

theorem spares_pure (value : Result) : Spares (pure value) := fun _ isSealed => keeps_refl isSealed

theorem spares_remaining : Spares remaining := fun _ isSealed => keeps_refl isSealed

theorem spares_refuse (token : Token) (fault : Fault) :
    Spares (refuse token fault : Parser Result) := fun _ isSealed => keeps_refl isSealed

theorem spares_refuse_here (fault : Fault) : Spares (refuseHere fault : Parser Result) :=
  fun _ isSealed => keeps_refl isSealed

theorem spares_make (build : Nat → Expr) : Spares (make build) := fun _ isSealed => ⟨isSealed, rfl⟩

theorem spares_check (kinds : List Kind) : Spares (check kinds) := by
  intro start isSealed
  unfold check
  split <;> exact keeps_refl isSealed

theorem keeps_behind {start : Cursor} {token : Token} {behind : List Token}
    (isSealed : Sealed start.rest) (held : start.rest = token :: behind)
    (other : token.kind ≠ .semicolon) : Keeps start { start with rest := behind } := by
  obtain ⟨first, more, same, -, sealing⟩ := sealed_cases isSealed
  rw [held] at same
  cases same
  rcases sealing with ⟨isSemicolon, -⟩ | ⟨-, isSealedBehind⟩
  · exact absurd isSemicolon other
  · exact ⟨isSealedBehind, rfl⟩

theorem spares_accept_option {kinds : List Kind} (others : Kind.semicolon ∉ kinds) :
    Spares (accept? kinds) := by
  intro start isSealed
  cases run : accept? kinds start with
  | ok taken stop =>
      rcases accept_option_ok.1 run with ⟨token, behind, -, held, member, rfl⟩ | ⟨-, -, rfl⟩
      · exact keeps_behind isSealed held fun same => others (same ▸ member)
      · exact keeps_refl isSealed
  | error fault stop =>
      unfold accept? at run
      repeat' split at run
      all_goals cases run

theorem expect_error {kind : Kind} {wanted : Wanted} {start stop : Cursor} {fault : Located Fault}
    (run : expect kind wanted start = .error fault stop) : stop = start := by
  unfold expect at run
  repeat' split at run
  all_goals cases run
  all_goals rfl

theorem spares_expect {kind : Kind} (other : kind ≠ .semicolon) (wanted : Wanted) :
    Spares (expect kind wanted) := by
  intro start isSealed
  cases run : expect kind wanted start with
  | ok token stop =>
      obtain ⟨behind, held, same, rfl⟩ := expect_ok.1 run
      exact keeps_behind isSealed held (same ▸ other)
  | error fault stop =>
      rw [expect_error run]
      exact keeps_refl isSealed

theorem spares_accept_all {kinds : List Kind} (others : Kind.semicolon ∉ kinds) :
    Spares (acceptAll kinds) := by
  intro start isSealed
  refine ⟨?_, rfl⟩
  rcases isSealed with ⟨front, last, held, ends, plain⟩
  have stops : last.kind ∉ kinds := by rwa [ends]
  refine ⟨front.dropWhile (kinds.contains ·.kind), last, ?_, ends,
    fun token member => plain token ((List.dropWhile_suffix _).subset member)⟩
  change start.rest.dropWhile _ = _
  rw [held, List.dropWhile_append]
  cases left : front.dropWhile (kinds.contains ·.kind) with
  | nil =>
      simp only [List.isEmpty_nil, if_true, List.nil_append]
      exact List.dropWhile_cons_of_neg (by simpa using stops)
  | cons token behind => simp

theorem finishes_semicolon (wanted : Wanted) (value : Result) :
    Finishes (expect .semicolon wanted >>= fun _ => pure value) := by
  intro start isSealed
  refine ⟨fun result stop run => ?_, fun fault stop run => ?_⟩
  · obtain ⟨token, middle, expected, ended⟩ := bind_ok.1 run
    obtain ⟨rfl, rfl⟩ := pure_ok.1 ended
    obtain ⟨behind, held, same, rfl⟩ := expect_ok.1 expected
    obtain ⟨first, more, heldToo, -, sealing⟩ := sealed_cases isSealed
    rw [held] at heldToo
    cases heldToo
    rcases sealing with ⟨-, ended⟩ | ⟨other, -⟩
    · exact ⟨ended, rfl⟩
    · exact absurd same other
  · rcases bind_error run with expected | ⟨token, middle, -, ended⟩
    · rw [expect_error expected]
      exact keeps_refl isSealed
    · cases ended

theorem finishes_brace {wanted : Wanted} {proceed : Token → Parser Next} :
    Finishes (expect .leftBrace wanted >>= proceed) := by
  intro start isSealed
  have absent : ∀ token stop, expect .leftBrace wanted start ≠ .ok token stop := by
    intro token stop expected
    obtain ⟨behind, held, same, -⟩ := expect_ok.1 expected
    obtain ⟨first, more, heldToo, plain, -⟩ := sealed_cases isSealed
    rw [held] at heldToo
    cases heldToo
    exact plain (by simp [same])
  refine ⟨fun result stop run => ?_, fun fault stop run => ?_⟩
  · obtain ⟨token, middle, expected, -⟩ := bind_ok.1 run
    exact absurd expected (absent token middle)
  · rcases bind_error run with expected | ⟨token, middle, expected, -⟩
    · rw [expect_error expected]
      exact keeps_refl isSealed
    · exact absurd expected (absent token middle)

end Steps

section Expressions

variable {inner : Parser Expr} (spares : Spares inner)

include spares

omit spares in
theorem keeps_advance {follow : Unit → Parser Result} (follows : Spares (follow ()))
    {start : Cursor} (isSealed : Sealed start.rest) (other : start.peek.kind ≠ .semicolon) :
    Keeps start (stopOf ((advance >>= follow) start)) := by
  obtain ⟨token, behind, held, -⟩ := sealed_cases isSealed
  have seen : start.peek = token := by simp [Cursor.peek, held]
  have moved : start.advance = { start with rest := behind } := by
    rw [Cursor.advance, held, List.tail_cons]
  have kept := keeps_behind isSealed held (seen ▸ other)
  change Keeps start (stopOf (follow () start.advance))
  rw [moved]
  exact kept.trans (follows _ kept.isSealed)

theorem spares_primary : Spares (primary inner) := by
  intro start isSealed
  have leaves (build : Nat → Expr) (other : start.peek.kind ≠ .semicolon) :
      Keeps start (stopOf (leaf build start)) :=
    keeps_advance (spares_make build) isSealed other
  rw [primary, bind_of_ok (peek_ok.2 ⟨rfl, rfl⟩)]
  generalize seen : start.peek.kind = kind
  cases kind
  case falseWord | trueWord | nilWord | string | identifier | thisWord =>
    exact leaves _ (by simp [seen])
  case number =>
    cases Number.read? start.peek.lexeme with
    | some bits => exact leaves _ (by simp [seen])
    | none => exact keeps_refl isSealed
  case baseWord =>
    refine keeps_advance ?_ isSealed (by simp [seen])
    exact (spares_expect (by decide) _).bind fun _ =>
      (spares_expect (by decide) _).bind fun method => spares_make _
  case leftParen =>
    refine keeps_advance ?_ isSealed (by simp [seen])
    exact spares.bind fun grouped => (spares_expect (by decide) _).bind fun _ => spares_make _
  all_goals exact keeps_refl isSealed

end Expressions

theorem spares_stepwise : Stepwise (fun {_} parser => Spares parser) where
  value := spares_pure
  bind := Spares.bind
  measured spares start := spares start.rest.length start
  atEnd _ := keeps_refl
  remaining := spares_remaining
  check := spares_check
  taking := spares_accept_option
  takingAll := spares_accept_all
  expect := spares_expect
  make := spares_make
  refusal _ := spares_refuse_here _

theorem spares_expressive : Expressive (fun {_} parser => Spares parser) where
  toStepwise := spares_stepwise
  primary := spares_primary
  assignment spares := spares_stepwise.assignment_with spares fun _ => spares_refuse _ _

section Declarations

theorem finishes_function {declaration : Parser (Option Stmt)} (role : Role) :
    Finishes (function declaration role) :=
  (spares_expect (by decide) _).before fun _ => (spares_expect (by decide) _).before fun _ =>
    spares_expressive.parameter_list.before fun _ => (spares_expect (by decide) _).before fun _ =>
      finishes_brace

theorem finishes_class_declaration {declaration : Parser (Option Stmt)} :
    Finishes (classDeclaration declaration) :=
  (spares_expect (by decide) _).before fun _ => spares_expressive.class_base.before fun _ => finishes_brace

theorem finishes_var_declaration : Finishes varDeclaration :=
  (spares_expect (by decide) _).before fun _ => spares_expressive.initializer.before fun _ =>
    finishes_semicolon _ _

theorem finishes_expression_statement : Finishes expressionStatement :=
  spares_expressive.expression.before fun _ => finishes_semicolon _ _

theorem finishes_return_statement (keyword : Token) : Finishes (returnStatement keyword) :=
  (spares_expressive.optional_expression _).before fun _ => finishes_semicolon _ _

variable {statement : Parser Stmt} (finishes : Finishes statement)

include finishes

theorem finishes_if_statement : Finishes (ifStatement statement) := by
  refine (spares_expect (by decide) _).before fun _ => spares_expressive.expression.before fun condition =>
    (spares_expect (by decide) _).before fun _ => finishes.followed
      fun thenBranch cursor ended => ?_
  have quiet : accept .elseWord cursor = .ok false cursor :=
    accept_ok.2 (.inr ⟨rfl, by simp [Follows, ended], rfl⟩)
  refine ⟨.ifThen condition thenBranch, bind_ok.2 ⟨false, cursor, quiet, rfl⟩⟩

theorem finishes_while_statement : Finishes (whileStatement statement) :=
  (spares_expect (by decide) _).before fun _ => spares_expressive.expression.before fun _ =>
    (spares_expect (by decide) _).before fun _ => finishes.followed
      fun body cursor _ => ⟨_, rfl⟩

variable {declaration : Parser (Option Stmt)}

/-- A statement without braces and counting loops ends at the only semicolon, or it fails before it.
-/
theorem finishes_statement_rule : Finishes (statementRule statement declaration) := by
  -- There is no token that opens a block or a counting loop.
  have results : ∀ start taken middle, Sealed start.rest →
      accept? [.forWord, .ifWord, .whileWord, .returnWord, .leftBrace] start = .ok taken middle →
        ∀ token, taken = some token → token.kind ∈ [Kind.ifWord, .whileWord, .returnWord] := by
    rintro start taken middle isSealed run token rfl
    rcases accept_option_ok.1 run with ⟨other, behind, same, held, member, -⟩ | ⟨absent, -⟩
    · cases same
      obtain ⟨first, more, heldToo, plain, -⟩ := sealed_cases isSealed
      rw [held] at heldToo
      cases heldToo
      simp only [List.mem_cons, List.not_mem_nil, or_false, not_or] at member plain ⊢
      rcases member with isFor | rest
      · exact absurd isFor plain.2
      · simpa [plain.1] using rest
    · cases absent
  refine (spares_accept_option (by decide)).before_of results fun taken possible => ?_
  cases taken with
  | none => exact finishes_expression_statement
  | some token =>
      have kinds := possible token rfl
      simp only [List.mem_cons, List.not_mem_nil, or_false] at kinds
      rcases kinds with kind | kind | kind <;> simp only [kind]
      · exact finishes_if_statement finishes
      · exact finishes_while_statement finishes
      · exact finishes_return_statement token

theorem finishes_declaration_rule : Finishes (declarationRule statement declaration) := by
  refine (spares_accept_option (by decide)).before fun taken => ?_
  cases taken with
  | none => exact finishes_statement_rule finishes
  | some token =>
      dsimp only
      split
      · exact finishes_class_declaration
      · exact (finishes_function _).map _
      · exact finishes_var_declaration

end Declarations

theorem finishes_statement_within (budget : Nat) : Finishes (statementWithin budget) := by
  induction budget with
  | zero =>
      intro start isSealed
      refine ⟨fun result stop run => absurd run refuse_here_ok, fun fault stop run => ?_⟩
      cases run
      exact keeps_refl isSealed
  | succ budget induction => exact fun start => finishes_statement_rule induction start

end Quill.Grammar
