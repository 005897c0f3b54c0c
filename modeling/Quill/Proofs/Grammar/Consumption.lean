import Quill.Proofs.Grammar.Progress
import Quill.Proofs.Grammar.Steps

/-!
Which parsers take a token. A declaration always does, whether it is kept or dropped, so a
repetition of declarations comes to an end.
-/

namespace Quill.Grammar

set_option autoImplicit false

variable {Result Next : Type} {parser : Parser Result}

theorem bind_of_ok {first : Parser Result} {proceed : Result → Parser Next} {start middle : Cursor}
    {result : Result} (run : first start = .ok result middle) :
    (first >>= proceed) start = proceed result middle := by
  change EStateM.bind first proceed start = _
  simp only [EStateM.bind, run]

theorem bind_of_fault {first : Parser Result} {proceed : Result → Parser Next}
    {start stop : Cursor} {fault : Located Fault} (run : first start = .error fault stop) :
    (first >>= proceed) start = .error fault stop := by
  change EStateM.bind first proceed start = _
  simp only [EStateM.bind, run]

theorem Advance.length_le {start stop : Cursor} (advance : Advance start stop) :
    stop.rest.length ≤ start.rest.length := advance.rest.length_le

/-- A parser that succeeds has taken a token, unless there was none. This is what repetitions need
of their items to come to an end within the tokens left. -/
def Consumes (parser : Parser Result) : Prop :=
  ∀ cursor result stop, parser cursor = .ok result stop →
    stop.rest.length ≤ cursor.rest.length - 1

theorem consumes_advance : Consumes advance := by
  rintro cursor - - ⟨⟩
  simp [Cursor.advance]

theorem consumes_expect (kind : Kind) (wanted : Wanted) : Consumes (expect kind wanted) := by
  intro cursor token stop run
  obtain ⟨rest, held, -, rfl⟩ := expect_ok.1 run
  simp [held]

theorem Consumes.bind {proceed : Result → Parser Next} (consumes : Consumes parser)
    (advances : ∀ result, Advances (proceed result)) : Consumes (parser >>= proceed) := by
  intro cursor result stop run
  obtain ⟨first, middle, firstRun, lastRun⟩ := bind_ok.1 run
  have fewer := consumes cursor first middle firstRun
  have onward := ((advances first).of_ok lastRun).length_le
  omega

theorem Consumes.behind {proceed : Result → Parser Next} (advances : Advances parser)
    (consumes : ∀ result, Consumes (proceed result)) : Consumes (parser >>= proceed) := by
  intro cursor result stop run
  obtain ⟨first, middle, firstRun, lastRun⟩ := bind_ok.1 run
  have fewer := consumes first middle result stop lastRun
  have onward := (advances.of_ok firstRun).length_le
  omega

theorem consumes_taking {kinds : List Kind} {proceed : Option Token → Parser Next}
    (absent : Consumes (proceed none)) (advances : ∀ token, Advances (proceed (some token))) :
    Consumes (accept? kinds >>= proceed) := by
  intro cursor result stop run
  obtain ⟨taken, middle, takenRun, lastRun⟩ := bind_ok.1 run
  rcases accept_option_ok.1 takenRun with ⟨token, rest, rfl, held, -, rfl⟩ | ⟨rfl, -, rfl⟩
  · have onward := ((advances token).of_ok lastRun).length_le
    rw [held, List.length_cons]
    exact onward
  · exact absent _ _ _ lastRun

theorem consumes_expression_statement : Consumes expressionStatement :=
  .behind advances_closed.expression fun _ => (consumes_expect _ _).bind fun _ => advances_pure _

section Rules

variable {statement : Parser Stmt} (statementAdvances : Advances statement)
  {declaration : Parser (Option Stmt)} (declarationAdvances : Advances declaration)

include declarationAdvances

theorem consumes_function (role : Role) : Consumes (function declaration role) :=
  (consumes_expect _ _).bind fun _ =>
    advances_bind (advances_expect _ _) fun _ =>
      advances_bind advances_closed.parameter_list fun _ =>
        advances_bind (advances_expect _ _) fun _ =>
          advances_bind (advances_expect _ _) fun _ =>
            advances_bind (advances_closed.block declarationAdvances) fun _ => advances_pure _

theorem consumes_method :
    Consumes (accept .functionWord >>= fun _ => function declaration .method) :=
  .behind (advances_accept _) fun _ => consumes_function declarationAdvances .method

include statementAdvances

theorem consumes_statement_rule : Consumes (statementRule statement declaration) := by
  refine consumes_taking consumes_expression_statement fun token => ?_
  dsimp only
  split
  · exact advances_closed.for_statement statementAdvances
  · exact advances_closed.if_statement statementAdvances
  · exact advances_closed.while_statement statementAdvances
  · exact advances_closed.return_statement token
  · exact advances_map _ (advances_closed.block declarationAdvances)

theorem consumes_declaration_rule : Consumes (declarationRule statement declaration) := by
  refine consumes_taking (consumes_statement_rule statementAdvances declarationAdvances)
    fun token => ?_
  dsimp only
  split
  · exact advances_closed.class_declaration declarationAdvances
  · exact advances_map _ (advances_closed.function declarationAdvances _)
  · exact advances_closed.var_declaration

end Rules

/-- Even a declaration that is dropped takes a token with it. -/
theorem consumes_recovering {rule : Parser Stmt} (advances : Advances rule)
    (consumes : Consumes rule) : Consumes (recovering rule) := by
  intro cursor result stop run
  unfold recovering at run
  cases found : rule cursor with
  | ok stmt next =>
      simp only [found, EStateM.Result.ok.injEq] at run
      rcases run with ⟨rfl, rfl⟩
      exact consumes cursor stmt next found
  | error fault next =>
      have moved := advances cursor
      rw [found] at moved
      have shorter := ((resync_suffix next.rest).trans moved.rest).length_le
      simp only [found, EStateM.Result.ok.injEq] at run
      rcases run with ⟨-, rfl⟩
      split
      next same => simp [Cursor.advance, same]
      next different =>
        have fewer : (resync next.rest).length < cursor.rest.length :=
          Nat.lt_of_le_of_ne shorter different
        exact Nat.le_pred_of_lt fewer

theorem consumes_declaration_within (budget : Nat) : Consumes (declarationWithin budget) := by
  cases budget with
  | zero =>
      refine consumes_recovering (advances_refuse_here _) fun cursor result stop run => ?_
      exact absurd run refuse_here_ok
  | succ budget =>
      obtain ⟨statementAdvances, declarationAdvances⟩ := advances_closed.within budget
      have advances := advances_closed.declaration_rule statementAdvances declarationAdvances
      have consumes := consumes_declaration_rule statementAdvances declarationAdvances
      exact fun cursor => consumes_recovering advances consumes cursor

theorem consumes_declaration : Consumes declaration :=
  fun cursor => consumes_declaration_within cursor.rest.length cursor

/-- Recovery that has recorded nothing has done nothing: the rule was successful. -/
theorem recovering_clean {rule : Parser Stmt} (advances : Advances rule) {start stop : Cursor}
    {result : Option Stmt} (run : recovering rule start = .ok result stop)
    (clean : stop.faults = start.faults) :
    ∃ stmt, result = some stmt ∧ rule start = .ok stmt stop := by
  unfold recovering at run
  cases found : rule start with
  | ok stmt next =>
      simp only [found, EStateM.Result.ok.injEq] at run
      rcases run with ⟨rfl, rfl⟩
      exact ⟨stmt, rfl, rfl⟩
  | error fault next =>
      have moved := advances start
      rw [found] at moved
      obtain ⟨added, grown⟩ := moved.faults
      simp only [found, EStateM.Result.ok.injEq] at run
      rcases run with ⟨-, rfl⟩
      have recorded : next.faults ++ [fault] = start.faults := by
        rw [← clean]
        split <;> rfl
      have lengths := congrArg List.length recorded
      rw [show next.faults = start.faults ++ added from grown] at lengths
      simp at lengths

theorem declaration_within_total (budget : Nat) (cursor : Cursor) :
    ∃ result stop, declarationWithin budget cursor = .ok result stop := by
  have total (rule : Parser Stmt) : ∃ result stop, recovering rule cursor = .ok result stop := by
    unfold recovering
    cases rule cursor with
    | ok stmt next => exact ⟨_, _, rfl⟩
    | error fault next => exact ⟨_, _, rfl⟩
  cases budget with
  | zero => exact total _
  | succ budget => exact total _

theorem declaration_total (cursor : Cursor) :
    ∃ result stop, declaration cursor = .ok result stop :=
  declaration_within_total cursor.rest.length cursor

section Repetitions

variable {First Item : Type}

namespace Repeats

variable {closing : List Kind} {item : Parser First} {join : First → List Item → List Item}
  {loop : Nat → Parser (List Item)} (repeats : Repeats closing item join loop) {budget : Nat}
  {cursor : Cursor}

include repeats

theorem ended (held : cursor.rest = []) : loop budget cursor = .ok [] cursor := by
  cases budget with
  | zero =>
      rw [repeats.spent]
      rfl
  | succ budget =>
      have seen : atEnd cursor = .ok true cursor := at_end_ok.2 (by simp [held])
      rw [repeats.turn]
      exact bind_of_ok seen

theorem run_cases {items : List Item} {stop : Cursor}
    (run : loop (budget + 1) cursor = .ok items stop) :
    (items = [] ∧ cursor = stop) ∨
      ∃ first middle others, item cursor = .ok first middle ∧ loop budget middle = .ok others stop ∧
        items = join first others := by
  rw [repeats.turn] at run
  obtain ⟨ended, _, seen, present⟩ := bind_ok.1 run
  obtain ⟨-, rfl⟩ := at_end_ok.1 seen
  split at present
  · obtain ⟨rfl, rfl⟩ := pure_ok.1 present
    exact .inl ⟨rfl, rfl⟩
  obtain ⟨closes, _, checked, further⟩ := bind_ok.1 present
  obtain ⟨-, rfl⟩ := check_ok.1 checked
  split at further
  · obtain ⟨rfl, rfl⟩ := pure_ok.1 further
    exact .inl ⟨rfl, rfl⟩
  obtain ⟨first, middle, firstRun, followed⟩ := bind_ok.1 further
  obtain ⟨others, last, othersRun, joined⟩ := bind_ok.1 followed
  obtain ⟨rfl, rfl⟩ := pure_ok.1 joined
  exact .inr ⟨first, middle, others, firstRun, othersRun, rfl⟩

variable {token : Token} {rest : List Token} (held : cursor.rest = token :: rest)

include held

theorem closed (closes : token.kind ∈ closing) : loop (budget + 1) cursor = .ok [] cursor := by
  have seen : atEnd cursor = .ok false cursor := at_end_ok.2 (by simp [held])
  have checked : check closing cursor = .ok true cursor :=
    check_ok.2 ⟨by simp [Follows, held, closes], rfl⟩
  rw [repeats.turn]
  exact (bind_of_ok seen).trans (bind_of_ok checked)

theorem continued (other : token.kind ∉ closing) :
    loop (budget + 1) cursor =
      (item >>= fun first => loop budget >>= fun others => pure (join first others)) cursor := by
  have seen : atEnd cursor = .ok false cursor := at_end_ok.2 (by simp [held])
  have unclosed : check closing cursor = .ok false cursor :=
    check_ok.2 ⟨by simp [Follows, held, other], rfl⟩
  rw [repeats.turn]
  exact (bind_of_ok seen).trans (bind_of_ok unclosed)

end Repeats

end Repetitions

section Programs

theorem declarations_nil {closing : List Kind} {budget : Nat} {cursor : Cursor}
    (ended : cursor.rest = []) :
    declarationsFrom declaration closing budget cursor = .ok [] cursor :=
  (repeats_declarations declaration closing).ended ended

theorem declarations_step {budget : Nat} {cursor : Cursor} (present : cursor.rest ≠ []) :
    declarationsFrom declaration [] (budget + 1) cursor =
      (declaration >>= fun first => declarationsFrom declaration [] budget >>= fun others =>
        pure (first.toList ++ others)) cursor := by
  obtain ⟨token, rest, held⟩ := List.exists_cons_of_ne_nil present
  exact (repeats_declarations declaration []).continued held (by simp)

theorem declarations_enough {budget other : Nat} {cursor : Cursor}
    (enough : cursor.rest.length ≤ budget) (enoughOther : cursor.rest.length ≤ other) :
    declarationsFrom declaration [] budget cursor =
      declarationsFrom declaration [] other cursor := by
  induction budget generalizing other cursor with
  | zero =>
      have ended := List.length_eq_zero_iff.1 (Nat.le_zero.1 enough)
      rw [declarations_nil ended, declarations_nil ended]
  | succ budget induction =>
      by_cases ended : cursor.rest = []
      · rw [declarations_nil ended, declarations_nil ended]
      · have positive := List.length_pos_iff.2 ended
        obtain ⟨fewer, rfl⟩ := Nat.exists_eq_add_of_le' (Nat.le_trans positive enoughOther)
        obtain ⟨first, middle, firstRun⟩ := declaration_total cursor
        have shorter := consumes_declaration cursor first middle firstRun
        have same : declarationsFrom declaration [] budget middle =
            declarationsFrom declaration [] fewer middle := induction (by omega) (by omega)
        rw [declarations_step ended, declarations_step ended, bind_of_ok firstRun,
          bind_of_ok firstRun]
        change EStateM.bind _ _ _ = EStateM.bind _ _ _
        simp only [EStateM.bind, same]

theorem program_nil {cursor : Cursor} (ended : cursor.rest = []) :
    program cursor = .ok [] cursor := by
  change declarationsFrom declaration [] cursor.rest.length cursor = _
  exact declarations_nil ended

theorem program_step {cursor : Cursor} (present : cursor.rest ≠ []) :
    program cursor =
      (declaration >>= fun first => program >>= fun others => pure (first.toList ++ others))
        cursor := by
  obtain ⟨budget, length⟩ := Nat.exists_eq_add_of_le' (List.length_pos_iff.2 present)
  obtain ⟨first, middle, firstRun⟩ := declaration_total cursor
  have shorter := consumes_declaration cursor first middle firstRun
  have same : declarationsFrom declaration [] budget middle = program middle :=
    declarations_enough (by omega) (Nat.le_refl _)
  change declarationsFrom declaration [] cursor.rest.length cursor = _
  rw [length, declarations_step present, bind_of_ok firstRun, bind_of_ok firstRun]
  change EStateM.bind _ _ _ = EStateM.bind _ _ _
  simp only [EStateM.bind, same]

theorem start_front (tokens : List Token) (finish : Token) :
    (Cursor.start tokens finish).rest ++ [(Cursor.start tokens finish).finish] <+:
      tokens ++ [finish] := by
  unfold Cursor.start
  induction tokens with
  | nil => exact List.prefix_refl _
  | cons token tokens induction =>
      by_cases ended : token.kind = .endOfInput
      · simp [ended]
      · simpa [ended] using induction

/-- Reading a program never fails and never stops before the end: what cannot be read is dropped
under recovery, and every declaration takes a token with it. -/
theorem program_total (cursor : Cursor) :
    ∃ stmts stop, program cursor = .ok stmts stop ∧ stop.rest = [] := by
  -- A declaration is never without a token, so that what is left gets shorter.
  induction length : cursor.rest.length using Nat.strongRecOn generalizing cursor with
  | _ size induction =>
  by_cases ended : cursor.rest = []
  · exact ⟨[], cursor, program_nil ended, ended⟩
  · obtain ⟨first, middle, firstRun⟩ := declaration_total cursor
    have shorter := consumes_declaration cursor first middle firstRun
    have positive := List.length_pos_iff.2 ended
    obtain ⟨others, stop, othersRun, reached⟩ := induction _ (by omega) middle rfl
    refine ⟨first.toList ++ others, stop, ?_, reached⟩
    rw [program_step ended, bind_of_ok firstRun, bind_of_ok othersRun]
    rfl

end Programs

end Quill.Grammar
