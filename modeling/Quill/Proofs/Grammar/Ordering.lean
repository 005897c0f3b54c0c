import Quill.Proofs.Grammar.Pointing

/-!
The order of faults. If every token stands on a higher line than the one before it, then the
faults of a parse stand on rising lines, apart from those at the end of the input. Faults are
recorded from within declarations that may themselves fail later; what keeps them in order is
that all of them lie before the cursor. Only a recovery may leave the cursor at the very token
that it has recorded. That token then begins a declaration, and the rule that reads it takes
it before anything else can fail.
-/

namespace Quill.Grammar

set_option autoImplicit false

variable {Result Next : Type}

/-- One line is above the other, or both are the last. -/
def Precedes (closing early late : Nat) : Prop :=
  early < late ∨ early = closing ∧ late = closing

theorem Precedes.le_trans {closing early late further : Nat} (first : Precedes closing early late)
    (second : late ≤ further) (within : further ≤ closing) : Precedes closing early further := by
  unfold Precedes at first ⊢
  omega

theorem precedes_of_le {closing early late : Nat} (le : early ≤ late) (ended : late = closing) :
    Precedes closing early late := by
  unfold Precedes
  omega

def Ordered (closing : Nat) (faults : List (Located Fault)) : Prop :=
  faults.Pairwise fun early late => Precedes closing early.line late.line

/-- The faults recorded so far are in order and lie before the cursor. -/
structure Neat (cursor : Cursor) : Prop where
  ordered : Ordered cursor.finish.line cursor.faults
  behind : ∀ fault ∈ cursor.faults, Precedes cursor.finish.line fault.line cursor.peek.line

structure Near (cursor : Cursor) : Prop where
  ordered : Ordered cursor.finish.line cursor.faults
  reached : ∀ fault ∈ cursor.faults, Precedes cursor.finish.line fault.line cursor.peek.line ∨
    fault.line = cursor.peek.line ∧ startsDeclaration cursor.peek.kind = true

structure Latest (fault : Located Fault) (cursor : Cursor) : Prop where
  ordered : Ordered cursor.finish.line (cursor.faults ++ [fault])
  within : fault.line ≤ cursor.peek.line

def Leaves : EStateM.Result (Located Fault) Cursor Result → Prop
  | .ok _ stop => Neat stop
  | .error fault stop => Latest fault stop

/-- From a cursor behind all faults with at most `bound` tokens left, the parser leaves faults
in order. -/
structure Orderly (bound : Nat) (parser : Parser Result) : Prop where
  advances : Advances parser
  leaves : ∀ start, start.rest.length ≤ bound → start.Ascending → Neat start →
    Leaves (parser start)

section Cursors

variable {cursor : Cursor}

theorem Neat.near (neat : Neat cursor) : Near cursor :=
  ⟨neat.ordered, fun fault member => .inl (neat.behind fault member)⟩

theorem Near.reached_le (near : Near cursor) {fault : Located Fault}
    (member : fault ∈ cursor.faults) : fault.line ≤ cursor.peek.line := by
  rcases near.reached fault member with before | ⟨same, -⟩
  · unfold Precedes at before
    omega
  · exact Nat.le_of_eq same

theorem Near.ended (near : Near cursor) (ended : cursor.rest = []) : Neat cursor := by
  have last : cursor.peek.line = cursor.finish.line := by simp [Cursor.peek, ended]
  exact ⟨near.ordered, fun fault member => precedes_of_le (near.reached_le member) last⟩

theorem Near.plain (near : Near cursor) (plain : startsDeclaration cursor.peek.kind = false) :
    Neat cursor := by
  refine ⟨near.ordered, fun fault member => ?_⟩
  rcases near.reached fault member with before | ⟨-, starts⟩
  · exact before
  · rw [plain] at starts
    cases starts

/-- Once the token under it has been taken, a cursor is behind all faults, also behind one that was
charged to this token. -/
theorem Near.taken (near : Near cursor) (ascending : cursor.Ascending) {token : Token}
    {behind : List Token} (held : cursor.rest = token :: behind) :
    Neat { cursor with rest := behind } := by
  have moved : Advance cursor { cursor with rest := behind } :=
    Advance.drop (by rw [held]; exact List.suffix_cons token behind)
  have onward := peek_lt moved ascending (by simp [held])
  refine ⟨near.ordered, fun fault member => .inl ?_⟩
  exact Nat.lt_of_le_of_lt (near.reached_le member) onward

theorem Near.advance (near : Near cursor) (ascending : cursor.Ascending) :
    Near cursor.advance := by
  unfold Cursor.advance
  cases held : cursor.rest with
  | nil =>
      have same : { cursor with rest := List.tail [] } = cursor := by rw [List.tail_nil, ← held]
      rw [same]
      exact near
  | cons token rest => exact (near.taken ascending held).near

end Cursors

section Combining

variable {bound : Nat} {parser : Parser Result} {proceed : Result → Parser Next}

theorem Orderly.bind (first : Orderly bound parser)
    (second : ∀ value, Orderly bound (proceed value)) : Orderly bound (parser >>= proceed) := by
  refine ⟨advances_bind first.advances fun value => (second value).advances, ?_⟩
  intro start within ascending neat
  have before := first.leaves start within ascending neat
  have moved := first.advances start
  change Leaves (EStateM.bind parser proceed start)
  unfold EStateM.bind
  cases run : parser start with
  | error fault middle =>
      rw [run] at before
      exact before
  | ok value middle =>
      rw [run] at before moved
      exact (second value).leaves middle (Nat.le_trans moved.length_le within)
        (moved.ascending ascending) before

theorem Orderly.map (build : Result → Next) (orderly : Orderly bound parser) :
    Orderly bound (build <$> parser) := by
  refine ⟨advances_map build orderly.advances, fun start within ascending neat => ?_⟩
  have leaves := orderly.leaves start within ascending neat
  change Leaves (EStateM.map build parser start)
  unfold EStateM.map
  cases run : parser start with
  | ok value stop | error fault stop =>
      rw [run] at leaves
      exact leaves

/-- A parser that records nothing keeps the order, since it does not go back. -/
theorem Points.orderly (points : Points parser) : Orderly bound parser := by
  refine ⟨points.advances, fun start _ ascending neat => ?_⟩
  have moved := points.advances start
  have pointing := points.pointing start start.peek.line ascending (Nat.le_refl _)
  have onward := peek_le moved ascending
  have inside := peek_le_finish (moved.ascending ascending)
  unfold PointsFrom at pointing
  cases run : parser start with
  | ok value stop =>
      rw [run] at pointing moved onward inside
      have closing : stop.finish = start.finish := moved.finish
      change stop.peek.line ≤ stop.finish.line at inside
      rw [closing] at inside
      constructor
      · rw [pointing, closing]
        exact neat.ordered
      · rw [pointing, closing]
        exact fun fault member => (neat.behind fault member).le_trans onward inside
  | error fault stop =>
      rw [run] at pointing moved inside
      obtain ⟨same, lower, upper⟩ := pointing
      have closing : stop.finish = start.finish := moved.finish
      change stop.peek.line ≤ stop.finish.line at inside
      rw [closing] at inside
      refine ⟨?_, upper⟩
      rw [same, closing]
      refine List.pairwise_append.2 ⟨neat.ordered, List.pairwise_singleton _ _, ?_⟩
      intro early member late last
      rw [List.mem_singleton.1 last]
      exact (neat.behind early member).le_trans lower (Nat.le_trans upper inside)

theorem Near.taking {kinds : List Kind} {proceed : Option Token → Parser Next} {start : Cursor}
    (near : Near start) (within : start.rest.length ≤ bound + 1) (ascending : start.Ascending)
    (absent : ¬ Follows kinds start.rest → Leaves (proceed none start))
    (present : ∀ token, Orderly bound (proceed (some token))) :
    Leaves ((accept? kinds >>= proceed) start) := by
  have missing (other : ¬ Follows kinds start.rest) :
      Leaves ((accept? kinds >>= proceed) start) := by
    rw [bind_of_ok (accept_option_ok.2 (.inr ⟨rfl, other, rfl⟩))]
    exact absent other
  cases held : start.rest with
  | nil => exact missing (by simp [Follows, held])
  | cons token rest =>
      by_cases member : token.kind ∈ kinds
      · have moved : Advance start { start with rest := rest } :=
          Advance.drop (by rw [held]; exact List.suffix_cons token rest)
        have fewer : rest.length ≤ bound := by
          rw [held, List.length_cons] at within
          exact Nat.le_of_succ_le_succ within
        rw [bind_of_ok (accept_option_ok.2 (.inl ⟨token, rest, rfl, held, member, rfl⟩))]
        exact (present token).leaves _ fewer (moved.ascending ascending)
          (near.taken ascending held)
      · exact missing (by simp [Follows, held, member])

end Combining

section Recovering

/-- A search that skips nothing has found a token that begins a declaration. -/
theorem resync_unmoved {token : Token} {rest : List Token}
    (same : (resync (token :: rest)).length = (token :: rest).length) :
    startsDeclaration token.kind = true := by
  have shorter := (resync_suffix rest).length_le
  by_cases starts : startsDeclaration token.kind = true
  · exact starts
  · by_cases ends : token.kind = .semicolon
    · simp [resync, ends] at same
    · simp [resync, ends, starts] at same
      omega

/-- Where a recovery goes on: behind the last fault, or at a token that begins a declaration, which
may be the very token that was refused. -/
theorem resync_near {fault : Located Fault} {stop : Cursor} (ascending : stop.Ascending)
    (latest : Latest fault stop) :
    Near { stop.record fault with rest := resync stop.rest } := by
  refine ⟨latest.ordered, fun early member => ?_⟩
  have reached : early.line ≤ stop.peek.line := by
    rcases List.mem_append.1 member with recorded | last
    · have before := (List.pairwise_append.1 latest.ordered).2.2 early recorded fault
        List.mem_cons_self
      have within := latest.within
      have closing := peek_le_finish ascending
      unfold Precedes at before
      omega
    · rw [List.mem_singleton.1 last]
      exact latest.within
  change Precedes stop.finish.line _ _ ∨ _
  have skipped : Advance stop { stop.record fault with rest := resync stop.rest } :=
    ⟨resync_suffix stop.rest, rfl, Nat.le_refl _, [fault], rfl⟩
  rcases Nat.lt_or_eq_of_le (resync_suffix stop.rest).length_le with fewer | same
  · exact .inl (.inl (Nat.lt_of_le_of_lt reached (peek_lt skipped ascending fewer)))
  · have unmoved := peek_same skipped same
    rw [unmoved]
    cases held : stop.rest with
    | nil =>
        have last : stop.peek.line = stop.finish.line := by simp [Cursor.peek, held]
        exact .inl (precedes_of_le reached last)
    | cons token rest =>
        have here : stop.peek = token := by simp [Cursor.peek, held]
        rw [held] at same
        rw [here] at reached ⊢
        rcases Nat.lt_or_eq_of_le reached with before | equal
        · exact .inl (.inl before)
        · exact .inr ⟨equal, resync_unmoved same⟩

theorem near_recovering {rule : Parser Stmt} (advances : Advances rule) {start : Cursor}
    (ascending : start.Ascending) (leaves : Leaves (rule start)) :
    ∃ result stop, recovering rule start = .ok result stop ∧ Near stop := by
  have moved := advances start
  unfold recovering
  cases run : rule start with
  | ok stmt stop =>
      rw [run] at leaves
      exact ⟨some stmt, stop, rfl, leaves.near⟩
  | error fault stop =>
      rw [run] at leaves moved
      have stopAscending : stop.Ascending := moved.ascending ascending
      let resumed : Cursor := { stop.record fault with rest := resync stop.rest }
      have near : Near resumed := resync_near stopAscending leaves
      have skipped : Advance stop resumed :=
        ⟨resync_suffix stop.rest, rfl, Nat.le_refl _, [fault], rfl⟩
      have further := near.advance (skipped.ascending stopAscending)
      refine ⟨none, _, rfl, ?_⟩
      split
      · exact further
      · exact near

end Recovering

section Declarations

/-- Declarations are never at fault themselves, and one may begin at the token of the last
fault. -/
structure Resumes (bound : Nat) (dropping : Parser (Option Stmt)) : Prop where
  advances : Advances dropping
  consumes : Consumes dropping
  near : ∀ start, start.rest.length ≤ bound → start.Ascending → Near start →
    ∃ result stop, dropping start = .ok result stop ∧ Near stop

variable {bound : Nat} {dropping : Parser (Option Stmt)} (resumes : Resumes bound dropping)

include resumes

/-- Declarations under recovery record their faults in order, one behind the other. The first of
them may begin at the line of the last fault, where skipping has come to a stop. -/
theorem declarations_neat {closing : List Kind}
    (plain : ∀ kind ∈ closing, startsDeclaration kind = false) {budget : Nat} {start : Cursor}
    (enough : start.rest.length ≤ budget) (within : start.rest.length ≤ bound)
    (ascending : start.Ascending) (near : Near start) :
    ∃ stmts stop, declarationsFrom dropping closing budget start = .ok stmts stop ∧ Neat stop := by
  have repeats := repeats_declarations dropping closing
  induction budget generalizing start with
  | zero => exact ⟨[], start, rfl, near.ended (List.length_eq_zero_iff.1 (Nat.le_zero.1 enough))⟩
  | succ budget induction =>
      cases held : start.rest with
      | nil => exact ⟨[], start, repeats.ended held, near.ended held⟩
      | cons token rest =>
          by_cases closes : token.kind ∈ closing
          · have here : start.peek = token := by simp [Cursor.peek, held]
            have neat := near.plain (by rw [here]; exact plain token.kind closes)
            exact ⟨[], start, repeats.closed held closes, neat⟩
          · obtain ⟨first, middle, firstRun, middleNear⟩ := resumes.near start within ascending near
            have fewer := resumes.consumes start first middle firstRun
            have moved := resumes.advances.of_ok firstRun
            obtain ⟨others, stop, othersRun, neat⟩ :=
              induction (by omega) (by omega) (moved.ascending ascending) middleNear
            refine ⟨first.toList ++ others, stop, ?_, neat⟩
            exact (repeats.continued held closes).trans
              ((bind_of_ok firstRun).trans (bind_of_ok othersRun))

theorem orderly_block : Orderly bound (block dropping) := by
  have plain : ∀ kind ∈ [Kind.rightBrace], startsDeclaration kind = false := by decide
  have body : Orderly bound (remaining >>= declarationsFrom dropping [.rightBrace]) := by
    refine ⟨advances_bind advances_remaining fun count =>
      advances_closed.declarations_from resumes.advances _ count, fun start within ascending neat => ?_⟩
    obtain ⟨stmts, stop, run, stopNeat⟩ :=
      declarations_neat resumes plain (Nat.le_refl _) within ascending neat.near
    have whole : (remaining >>= declarationsFrom dropping [.rightBrace]) start = .ok stmts stop :=
      (bind_of_ok (remaining_ok.2 ⟨rfl, rfl⟩)).trans run
    rw [whole]
    exact stopNeat
  have closing (stmts : List Stmt) :
      Orderly bound (expect .rightBrace .closeBlock >>= fun _ => pure stmts) :=
    (points_expect _ _).orderly.bind fun _ => (points_pure stmts).orderly
  have orderly := body.bind closing
  rw [bind_assoc] at orderly
  exact orderly

theorem orderly_function (role : Role) : Orderly bound (function dropping role) := by
  apply (points_expect _ _).orderly.bind
  intro name
  apply (points_expect _ _).orderly.bind
  intro _
  apply points_clausal.parameter_list.orderly.bind
  intro names
  apply (points_expect _ _).orderly.bind
  intro _
  apply (points_expect _ _).orderly.bind
  intro _
  exact (orderly_block resumes).bind fun body => (points_pure _).orderly

theorem orderly_methods_from (budget : Nat) : Orderly bound (methodsFrom dropping budget) := by
  induction budget with
  | zero => exact (points_pure _).orderly
  | succ budget induction =>
      apply points_at_end.orderly.bind
      intro ended
      cases ended with
      | true => exact (points_pure _).orderly
      | false =>
          apply (points_check _).orderly.bind
          intro closes
          cases closes with
          | true => exact (points_pure _).orderly
          | false =>
              apply (points_accept _).orderly.bind
              intro _
              apply (orderly_function resumes .method).bind
              intro first
              exact induction.bind fun others => (points_pure _).orderly

theorem orderly_class_declaration : Orderly bound (classDeclaration dropping) := by
  apply (points_expect _ _).orderly.bind
  intro name
  apply points_clausal.class_base.orderly.bind
  intro base
  apply (points_expect _ _).orderly.bind
  intro _
  apply points_remaining.orderly.bind
  intro count
  apply (orderly_methods_from resumes count).bind
  intro methods
  exact (points_expect _ _).orderly.bind fun _ => (points_pure _).orderly

end Declarations

section Statements

variable {bound : Nat} {statement : Parser Stmt} (orderly : Orderly bound statement)

include orderly

theorem orderly_for_statement : Orderly bound (forStatement statement) := by
  apply (points_expect _ _).orderly.bind
  intro _
  apply points_clausal.for_initializer.orderly.bind
  intro start
  apply (points_clausal.optional_expression _).orderly.bind
  intro condition
  apply (points_expect _ _).orderly.bind
  intro _
  apply (points_clausal.optional_expression _).orderly.bind
  intro increment
  apply (points_expect _ _).orderly.bind
  intro _
  apply orderly.bind
  intro body
  cases condition with
  | some condition => exact (points_pure _).orderly
  | none => exact (points_make _).orderly.bind fun condition => (points_pure _).orderly

theorem orderly_if_statement : Orderly bound (ifStatement statement) := by
  apply (points_expect _ _).orderly.bind
  intro _
  apply points_clausal.expression.orderly.bind
  intro condition
  apply (points_expect _ _).orderly.bind
  intro _
  apply orderly.bind
  intro thenBranch
  apply (points_accept _).orderly.bind
  intro otherwise
  cases otherwise with
  | true => exact orderly.bind fun elseBranch => (points_pure _).orderly
  | false => exact (points_pure _).orderly

theorem orderly_while_statement : Orderly bound (whileStatement statement) := by
  apply (points_expect _ _).orderly.bind
  intro _
  apply points_clausal.expression.orderly.bind
  intro condition
  apply (points_expect _ _).orderly.bind
  intro _
  exact orderly.bind fun body => (points_pure _).orderly

variable {dropping : Parser (Option Stmt)} (resumes : Resumes bound dropping)

include resumes

theorem orderly_marked (token : Token) :
    Orderly bound (match token.kind with
      | .forWord => forStatement statement
      | .ifWord => ifStatement statement
      | .whileWord => whileStatement statement
      | .returnWord => returnStatement token
      | _ => .block <$> block dropping) := by
  split
  · exact orderly_for_statement orderly
  · exact orderly_if_statement orderly
  · exact orderly_while_statement orderly
  · exact (points_clausal.return_statement token).orderly
  · exact (orderly_block resumes).map _

theorem orderly_statement_rule : Orderly (bound + 1) (statementRule statement dropping) := by
  refine ⟨advances_closed.statement_rule orderly.advances resumes.advances, ?_⟩
  intro start within ascending neat
  refine neat.near.taking within ascending (fun _ => ?_) (orderly_marked orderly resumes)
  exact points_clausal.expression_statement.orderly.leaves start within ascending neat

omit orderly in
theorem orderly_declared (token : Token) :
    Orderly bound (match token.kind with
      | .classWord => classDeclaration dropping
      | .functionWord => .functionDecl <$> function dropping .function
      | _ => varDeclaration) := by
  split
  · exact orderly_class_declaration resumes
  · exact (orderly_function resumes .function).map _
  · exact points_clausal.var_declaration.orderly

/-- The rule for declarations takes a token that begins one before anything can fail. So no token is
refused by two declarations. -/
theorem declaration_rule_leaves {start : Cursor} (within : start.rest.length ≤ bound + 1)
    (ascending : start.Ascending) (near : Near start) :
    Leaves (declarationRule statement dropping start) := by
  refine near.taking within ascending (fun undeclared => ?_) (orderly_declared resumes)
  refine near.taking within ascending (fun unmarked => ?_) (orderly_marked orderly resumes)
  -- An expression begins here, so the last fault is not at this token.
  have neat : Neat start := by
    cases held : start.rest with
    | nil => exact near.ended held
    | cons token rest =>
        have here : start.peek = token := by simp [Cursor.peek, held]
        refine near.plain ?_
        rw [here]
        simp only [Follows, held, List.cons.injEq, not_exists, not_and] at undeclared unmarked
        have first := undeclared token rest ⟨rfl, rfl⟩
        have second := unmarked token rest ⟨rfl, rfl⟩
        revert first second
        cases token.kind <;> decide
  exact points_clausal.expression_statement.orderly.leaves start within ascending neat

end Statements

theorem orderly_within (budget : Nat) :
    Orderly budget (statementWithin budget) ∧ Resumes budget (declarationWithin budget) := by
  induction budget with
  | zero =>
      -- Without a token left, the last fault is at the end, where there may be more.
      refine ⟨(points_refuse_here _).orderly, (advances_closed.within 0).2,
        consumes_declaration_within 0, fun start within ascending near => ?_⟩
      have neat := near.ended (List.length_eq_zero_iff.1 (Nat.le_zero.1 within))
      exact near_recovering (advances_refuse_here _) ascending
        ((points_refuse_here _).orderly.leaves start within ascending neat)
  | succ budget induction =>
      obtain ⟨orderly, resumes⟩ := induction
      refine ⟨orderly_statement_rule orderly resumes, (advances_closed.within (budget + 1)).2,
        consumes_declaration_within (budget + 1), fun start within ascending near => ?_⟩
      have rule := advances_closed.declaration_rule orderly.advances resumes.advances
      exact near_recovering rule ascending
        (declaration_rule_leaves orderly resumes within ascending near)

theorem resumes_declaration (bound : Nat) : Resumes bound declaration :=
  ⟨advances_closed.declaration, consumes_declaration, fun start _ ascending near =>
    (orderly_within start.rest.length).2.near start (Nat.le_refl _) ascending near⟩

theorem program_neat {start : Cursor} (ascending : start.Ascending) (near : Near start) :
    ∃ stmts stop, program start = .ok stmts stop ∧ Neat stop := by
  have plain : ∀ kind ∈ ([] : List Kind), startsDeclaration kind = false := by simp
  exact declarations_neat (resumes_declaration start.rest.length) plain (Nat.le_refl _)
    (Nat.le_refl _) ascending near

end Quill.Grammar
