import Quill.Proofs.Grammar.Acceptance
import Quill.Proofs.Layout.Reading

/-!
Declarations that end at a seam. The last token of a declaration tells that it is complete,
except after an `if` without `else`: there the next token is looked at. So a program that is
read without a fault is read the same before any tokens that do not begin with `else`.
-/

namespace Quill.Grammar

set_option autoImplicit false

variable {Result Next Image Mirror : Type} {seam : Seam} {bound : Nat}

/-- `Carries seam bound image parser mirror`: where `parser` succeeds it has found a token, and
`mirror` succeeds across the seam, also if the result ends at it. -/
structure Carries (seam : Seam) (bound : Nat) (image : Result → Image) (parser : Parser Result)
    (mirror : Parser Image) : Prop where
  present : ∀ cursor result stop, cursor.rest.length ≤ bound → parser cursor = .ok result stop →
    cursor.rest ≠ []
  carried : ∀ cursor result stop, cursor.rest.length ≤ bound → parser cursor = .ok result stop →
    mirror (cursor.across seam) = .ok (image result) (stop.across seam)

variable {image : Result → Image} {imageNext : Next → Mirror} {parser : Parser Result}
  {mirror : Parser Image}

namespace Carries

/-- The second part of a sequence has found a token, so the first part has not seen the end, and it
is enough that it is mirrored. -/
theorem after {proceed : Result → Parser Next} {proceedMirror : Image → Parser Mirror}
    (first : Mirrors seam bound image parser mirror)
    (second : ∀ result,
      Carries seam bound imageNext (proceed result) (proceedMirror (image result))) :
    Carries seam bound imageNext (parser >>= proceed) (mirror >>= proceedMirror) := by
  have between : ∀ cursor result stop, cursor.rest.length ≤ bound →
      (parser >>= proceed) cursor = .ok result stop → ∃ early middle,
        parser cursor = .ok early middle ∧ proceed early middle = .ok result stop ∧
          Advance cursor middle ∧ middle.rest.length ≤ bound ∧ middle.rest ≠ [] := by
    intro cursor result stop within run
    obtain ⟨early, middle, firstRun, lastRun⟩ := bind_ok.1 run
    have moved := first.advances.of_ok firstRun
    have still := Nat.le_trans moved.length_le within
    exact ⟨early, middle, firstRun, lastRun, moved, still,
      (second early).present middle result stop still lastRun⟩
  constructor
  · intro cursor result stop within run ended
    obtain ⟨early, middle, -, -, moved, -, present⟩ := between cursor result stop within run
    have suffix := moved.rest
    rw [ended] at suffix
    exact present (List.suffix_nil.1 suffix)
  · intro cursor result stop within run
    obtain ⟨early, middle, firstRun, lastRun, moved, still, present⟩ :=
      between cursor result stop within run
    rw [bind_of_ok (first.of_ok within firstRun (.inl present))]
    exact (second early).carried middle result stop still lastRun

theorem then_blind {proceed : Result → Parser Next} {proceedMirror : Image → Parser Mirror}
    (first : Carries seam bound image parser mirror)
    (blind : ∀ result cursor, proceedMirror (image result) (cursor.across seam) =
      acrossOutcome seam imageNext (proceed result cursor)) :
    Carries seam bound imageNext (parser >>= proceed) (mirror >>= proceedMirror) := by
  constructor
  · intro cursor result stop within run
    obtain ⟨early, middle, firstRun, -⟩ := bind_ok.1 run
    exact first.present cursor early middle within firstRun
  · intro cursor result stop within run
    obtain ⟨early, middle, firstRun, lastRun⟩ := bind_ok.1 run
    rw [bind_of_ok (first.carried cursor early middle within firstRun), blind, lastRun]
    rfl

theorem map {build : Result → Next} {buildMirror : Image → Mirror}
    (carries : Carries seam bound image parser mirror)
    (same : ∀ result, buildMirror (image result) = imageNext (build result)) :
    Carries seam bound imageNext (build <$> parser) (buildMirror <$> mirror) := by
  constructor
  · intro cursor result stop within run
    obtain ⟨early, firstRun, -⟩ := map_ok.1 run
    exact carries.present cursor early stop within firstRun
  · intro cursor result stop within run
    obtain ⟨early, firstRun, rfl⟩ := map_ok.1 run
    exact map_ok.2 ⟨_, carries.carried cursor early stop within firstRun, same early⟩

end Carries

theorem carries_expect (kind : Kind) (wanted : Wanted) :
    Carries seam bound (Token.relabel seam.labels) (expect kind wanted) (expect kind wanted) := by
  constructor
  · intro cursor token stop _ run
    obtain ⟨behind, held, -, -⟩ := expect_ok.1 run
    simp [held]
  · intro cursor token stop _ run
    obtain ⟨behind, held, same, rfl⟩ := expect_ok.1 run
    exact expect_ok.2 ⟨_, by simp [Cursor.across, held], same, rfl⟩

theorem carries_closing (kind : Kind) (wanted : Wanted) (value : Result) :
    Carries seam bound image (expect kind wanted >>= fun _ => pure value)
      (expect kind wanted >>= fun _ => pure (image value)) :=
  (carries_expect kind wanted).then_blind fun _ _ => rfl

theorem carries_remaining {proceed : Nat → Parser Next} {proceedMirror : Nat → Parser Mirror}
    (second : ∀ count further, count ≤ bound → seam.Room count further →
      Carries seam count imageNext (proceed count) (proceedMirror further)) :
    Carries seam bound imageNext (remaining >>= proceed) (remaining >>= proceedMirror) := by
  have here : ∀ cursor : Cursor, cursor.rest.length ≤ bound →
      Carries seam cursor.rest.length imageNext (proceed cursor.rest.length)
        (proceedMirror (cursor.across seam).rest.length) :=
    fun cursor within => second _ _ within (across_room cursor)
  exact ⟨fun cursor result stop within => (here cursor within).present cursor result stop
      (Nat.le_refl _), fun cursor result stop within => (here cursor within).carried cursor result
        stop (Nat.le_refl _)⟩

theorem carries_taking {kinds : List Kind} {proceed : Option Token → Parser Next}
    {proceedMirror : Option Token → Parser Mirror}
    (absent : Carries seam (bound + 1) imageNext (proceed none) (proceedMirror none))
    (taken : ∀ token, Carries seam bound imageNext (proceed (some token))
      (proceedMirror (some (token.relabel seam.labels)))) :
    Carries seam (bound + 1) imageNext (accept? kinds >>= proceed)
      (accept? kinds >>= proceedMirror) := by
  constructor
  · intro cursor result stop within run
    obtain ⟨answer, middle, firstRun, lastRun⟩ := bind_ok.1 run
    rcases accept_option_ok.1 firstRun with ⟨token, rest, -, held, -, -⟩ | ⟨rfl, -, rfl⟩
    · simp [held]
    · exact absent.present _ _ _ within lastRun
  · intro cursor result stop within run
    obtain ⟨answer, middle, firstRun, lastRun⟩ := bind_ok.1 run
    rcases accept_option_ok.1 firstRun with
      ⟨token, rest, rfl, held, member, rfl⟩ | ⟨rfl, stops, rfl⟩
    · rw [held, List.length_cons] at within
      have across : accept? kinds (cursor.across seam) = .ok (some (token.relabel seam.labels))
          (Cursor.across seam { cursor with rest := rest }) :=
        accept_option_ok.2 (.inl ⟨_, _, rfl, by simp [Cursor.across, held], member, rfl⟩)
      rw [bind_of_ok across]
      exact (taken token).carried _ _ _ (Nat.le_of_succ_le_succ within) lastRun
    · have present := absent.present _ _ _ within lastRun
      have across : accept? kinds (middle.across seam) = .ok none (middle.across seam) :=
        (mirrors_accept_option kinds).of_ok within firstRun (.inl present)
      rw [bind_of_ok across]
      exact absent.carried _ _ _ within lastRun

section Statements

theorem carries_expression_statement :
    Carries seam bound (Stmt.relabel seam.labels) expressionStatement expressionStatement :=
  .after mirrors_expression fun expr => carries_closing _ _ (Stmt.expression expr)

theorem carries_var_declaration :
    Carries seam bound (Stmt.relabel seam.labels) varDeclaration varDeclaration :=
  .after (mirrors_expect _ _) fun name => .after mirrors_initializer fun value =>
    carries_closing _ _ (Stmt.varDecl name value)

theorem carries_return_statement (keyword : Token) :
    Carries seam bound (Stmt.relabel seam.labels) (returnStatement keyword)
      (returnStatement (keyword.relabel seam.labels)) :=
  .after (mirrors_optional_expression _) fun value =>
    carries_closing _ _ (Stmt.returnStmt keyword value)

section Bodies

variable {declaration declarationMirror : Parser (Option Stmt)}
  (mirrors : Mirrors seam bound (Option.map (Stmt.relabel seam.labels)) declaration
    declarationMirror)
  (consumes : Consumes declaration)

include mirrors consumes

theorem carries_block :
    Carries seam bound (relabelStmts seam.labels) (block declaration) (block declarationMirror) :=
  carries_remaining fun _ _ within room =>
    .after (mirrors_declarations_from mirrors consumes _ within room) fun body =>
      carries_closing _ _ body

theorem carries_function (role : Role) :
    Carries seam bound (FunctionDecl.relabel seam.labels) (function declaration role)
      (function declarationMirror role) :=
  .after (mirrors_expect _ _) fun name => .after (mirrors_expect _ _) fun _ =>
    .after mirrors_parameter_list fun names => .after (mirrors_expect _ _) fun _ =>
      .after (mirrors_expect _ _) fun _ => (carries_block mirrors consumes).then_blind fun body _ =>
        show _ = EStateM.Result.ok (FunctionDecl.relabel seam.labels ⟨name, names, body⟩) _ from rfl

theorem carries_class_declaration :
    Carries seam bound (Stmt.relabel seam.labels) (classDeclaration declaration)
      (classDeclaration declarationMirror) :=
  .after (mirrors_expect _ _) fun name => .after mirrors_class_base fun base =>
    .after (mirrors_expect _ _) fun _ => carries_remaining fun _ _ within room =>
      .after (mirrors_methods_from mirrors consumes within room) fun methods =>
        carries_closing _ _ (Stmt.classDecl name base methods)

end Bodies

variable (quiet : Stops [.elseWord] seam.tail)

include quiet in
theorem accept_else_across {cursor stop : Cursor} {found : Bool}
    (run : accept .elseWord cursor = .ok found stop) :
    accept .elseWord (cursor.across seam) = .ok found (stop.across seam) := by
  rcases accept_ok.1 run with ⟨token, behind, rfl, held, same, rfl⟩ | ⟨rfl, stops, rfl⟩
  · refine accept_ok.2 (.inl ⟨token.relabel seam.labels,
      behind.map (Token.relabel seam.labels) ++ seam.tail, rfl, ?_, same, rfl⟩)
    simp [Cursor.across, held]
  · refine accept_ok.2 (.inr ⟨rfl, ?_, rfl⟩)
    rcases stop with ⟨rest, finish, nextId, faults⟩
    cases rest with
    -- Here the token behind the seam is looked at.
    | nil => exact quiet
    | cons token rest =>
        rintro ⟨other, behind, same, member⟩
        cases same
        exact stops ⟨token, rest, rfl, member⟩

variable {statement statementMirror : Parser Stmt}
  (carries : Carries seam bound (Stmt.relabel seam.labels) statement statementMirror)

include carries

theorem carries_while_statement :
    Carries seam bound (Stmt.relabel seam.labels) (whileStatement statement)
      (whileStatement statementMirror) :=
  .after (mirrors_expect _ _) fun _ => .after mirrors_expression fun condition =>
    .after (mirrors_expect _ _) fun _ => carries.then_blind fun body _ =>
      show _ = EStateM.Result.ok (Stmt.relabel seam.labels (.whileLoop condition body)) _ from rfl

theorem carries_for_statement :
    Carries seam bound (Stmt.relabel seam.labels) (forStatement statement)
      (forStatement statementMirror) :=
  .after (mirrors_expect _ _) fun _ => .after mirrors_for_initializer fun start =>
    .after (mirrors_optional_expression _) fun condition => .after (mirrors_expect _ _) fun _ =>
      .after (mirrors_optional_expression _) fun increment => .after (mirrors_expect _ _) fun _ =>
        carries.then_blind fun body cursor =>
          close_loop_across start condition increment body cursor

variable (advances : Advances statement)

include quiet advances

theorem carries_if_statement :
    Carries seam bound (Stmt.relabel seam.labels) (ifStatement statement)
      (ifStatement statementMirror) := by
  refine .after (mirrors_expect _ _) fun _ => .after mirrors_expression fun condition =>
    .after (mirrors_expect _ _) fun _ => ⟨?_, ?_⟩
  · intro cursor result stop within run
    obtain ⟨thenBranch, middle, thenRun, -⟩ := bind_ok.1 run
    exact carries.present cursor thenBranch middle within thenRun
  · intro cursor result stop within run
    obtain ⟨thenBranch, middle, thenRun, elseRun⟩ := bind_ok.1 run
    obtain ⟨more, next, acceptRun, lastRun⟩ := bind_ok.1 elseRun
    have shorter := (advances.of_ok thenRun).length_le
    have fewer := ((advances_accept .elseWord).of_ok acceptRun).length_le
    have left : next.rest.length ≤ bound := by omega
    rw [bind_of_ok (carries.carried cursor thenBranch middle within thenRun),
      bind_of_ok (accept_else_across quiet acceptRun)]
    cases more with
    | true =>
        have both : Carries seam bound (Stmt.relabel seam.labels)
            (statement >>= fun elseBranch => pure (.ifElse condition thenBranch elseBranch))
            (statementMirror >>= fun elseBranch => pure (.ifElse (condition.relabel seam.labels)
              (thenBranch.relabel seam.labels) elseBranch)) :=
          carries.then_blind fun _ _ => rfl
        exact both.carried next result stop left lastRun
    | false =>
        obtain ⟨rfl, rfl⟩ := pure_ok.1 lastRun
        rfl

variable {declaration declarationMirror : Parser (Option Stmt)}
  (mirrors : Mirrors seam bound (Option.map (Stmt.relabel seam.labels)) declaration
    declarationMirror)
  (consumes : Consumes declaration)

include mirrors consumes

theorem carries_statement_rule :
    Carries seam (bound + 1) (Stmt.relabel seam.labels) (statementRule statement declaration)
      (statementRule statementMirror declarationMirror) := by
  refine carries_taking carries_expression_statement fun token => ?_
  simp only [relabel_kind]
  split
  · exact carries_for_statement carries
  · exact carries_if_statement quiet carries advances
  · exact carries_while_statement carries
  · exact carries_return_statement token
  · exact (carries_block mirrors consumes).map fun _ => rfl

theorem carries_declaration_rule :
    Carries seam (bound + 1) (Stmt.relabel seam.labels) (declarationRule statement declaration)
      (declarationRule statementMirror declarationMirror) := by
  refine carries_taking (carries_statement_rule quiet carries advances mirrors consumes)
    fun token => ?_
  simp only [relabel_kind]
  split
  · exact carries_class_declaration mirrors consumes
  · exact (carries_function mirrors consumes .function).map fun _ => rfl
  · exact carries_var_declaration

end Statements

theorem carries_statement_within (quiet : Stops [.elseWord] seam.tail) {budget further : Nat}
    (room : seam.Room budget further) :
    Carries seam budget (Stmt.relabel seam.labels) (statementWithin budget)
      (statementWithin further) := by
  induction budget generalizing further with
  | zero =>
      exact ⟨fun _ _ _ _ run => absurd run refuse_here_ok,
        fun _ _ _ _ run => absurd run refuse_here_ok⟩
  | succ budget induction =>
      obtain ⟨fewer, rfl, less⟩ := room.succ
      exact carries_statement_rule quiet (induction less) (advances_closed.within budget).1
        (mirrors_within less).2 (consumes_declaration_within budget)

/-- A declaration that is read without a fault is read the same across the seam, if what stands
there cannot be taken for the `else` of an open branch. -/
theorem declaration_across (quiet : Stops [.elseWord] seam.tail) {cursor stop : Cursor}
    {result : Option Stmt} (run : declaration cursor = .ok result stop)
    (clean : stop.faults = cursor.faults) :
    ∃ stmt, result = some stmt ∧ declaration (cursor.across seam) =
      .ok (some (stmt.relabel seam.labels)) (stop.across seam) := by
  unfold declaration at run ⊢
  cases count : cursor.rest.length with
  | zero =>
      rw [count] at run
      obtain ⟨stmt, -, refused⟩ := recovering_clean (advances_refuse_here _) run clean
      exact absurd refused refuse_here_ok
  | succ budget =>
      have room : seam.Room cursor.rest.length (cursor.across seam).rest.length :=
        across_room cursor
      rw [count] at run room
      obtain ⟨further, length, less⟩ := room.succ
      obtain ⟨statementAdvances, declarationAdvances⟩ := advances_closed.within budget
      have carries := carries_declaration_rule quiet (carries_statement_within quiet less)
        statementAdvances (mirrors_within less).2 (consumes_declaration_within budget)
      obtain ⟨stmt, kept, ruleRun⟩ := recovering_clean
        (advances_closed.declaration_rule statementAdvances declarationAdvances) run clean
      refine ⟨stmt, kept, ?_⟩
      rw [length]
      change recovering _ _ = _
      unfold recovering
      rw [carries.carried cursor stmt stop (Nat.le_of_eq count) ruleRun]

/-- A program that is read without a fault is read the same before whatever does not begin with
`else`, and reading goes on behind it. -/
theorem program_across (quiet : Stops [.elseWord] seam.tail) {cursor stop last : Cursor}
    {stmts others : List Stmt} (run : program cursor = .ok stmts stop)
    (clean : stop.faults = cursor.faults)
    (onward : program (stop.across seam) = .ok others last) :
    program (cursor.across seam) = .ok (relabelStmts seam.labels stmts ++ others) last := by
  induction length : cursor.rest.length using Nat.strongRecOn generalizing cursor stmts with
  | _ size induction =>
  by_cases ended : cursor.rest = []
  · rw [program_nil ended] at run
    cases run
    exact onward
  · rw [program_step ended] at run
    obtain ⟨first, middle, firstRun, restRun⟩ := bind_ok.1 run
    obtain ⟨later, next, laterRun, pureRun⟩ := bind_ok.1 restRun
    obtain ⟨rfl, rfl⟩ := pure_ok.1 pureRun
    obtain ⟨early, moved⟩ := (advances_closed.declaration.of_ok firstRun).faults
    obtain ⟨late, movedOn⟩ := (advances_closed.program.of_ok laterRun).faults
    have nothing : early = [] ∧ late = [] := by
      rw [movedOn, moved, List.append_assoc] at clean
      exact List.append_eq_nil_iff.1 (List.append_right_eq_self.1 clean)
    obtain ⟨stmt, rfl, across⟩ := declaration_across quiet firstRun (by simp [moved, nothing.1])
    have positive := List.length_pos_iff.2 ended
    have shorter := consumes_declaration cursor _ middle firstRun
    have present : (cursor.across seam).rest ≠ [] := by simp [Cursor.across, ended]
    have rest := induction _ (by omega) laterRun (by simp [movedOn, nothing.2]) rfl
    rw [program_step present, bind_of_ok across, bind_of_ok rest, relabel_stmts_append,
      List.append_assoc]
    rfl

end Quill.Grammar
