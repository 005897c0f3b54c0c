import Quill.Proofs.Grammar.Consumption

/-!
Where faults point. Suppose that every token stands on a higher line than the one before it. A
fault of a rule without declarations then points to a line between that of the first token that
the rule sees and that of the token under the cursor, and no fault is recorded on the way. It
is not always the token under the cursor: an assignment to something else is only seen when its
value has been read.
-/

namespace Quill.Grammar

set_option autoImplicit false

variable {Result Next : Type}

/-- Every token stands on a higher line than the one before, and the end on the highest. With such
labels the line of a fault tells at which token it points. -/
def Cursor.Ascending (cursor : Cursor) : Prop :=
  (cursor.rest ++ [cursor.finish]).Pairwise fun early late => early.line < late.line

section Lines

variable {start stop : Cursor}

theorem Advance.ascending (advance : Advance start stop) (ascending : start.Ascending) :
    stop.Ascending := by
  obtain ⟨front, whole⟩ := advance.rest
  unfold Cursor.Ascending at ascending
  rw [← whole, List.append_assoc, ← advance.finish] at ascending
  exact (List.pairwise_append.1 ascending).2.1

theorem peek_cons (cursor : Cursor) :
    ∃ behind, cursor.rest ++ [cursor.finish] = cursor.peek :: behind := by
  unfold Cursor.peek
  cases cursor.rest with
  | nil => exact ⟨[], rfl⟩
  | cons token rest => exact ⟨rest ++ [cursor.finish], rfl⟩

theorem peek_lt (advance : Advance start stop) (ascending : start.Ascending)
    (fewer : stop.rest.length < start.rest.length) : start.peek.line < stop.peek.line := by
  obtain ⟨front, whole⟩ := advance.rest
  obtain ⟨behind, last⟩ := peek_cons stop
  unfold Cursor.Ascending at ascending
  rw [← whole, List.append_assoc, ← advance.finish, last] at ascending
  cases front with
  | nil => simp [← whole] at fewer
  | cons token front =>
      have first : start.peek = token := by simp [Cursor.peek, ← whole]
      rw [first]
      exact (List.pairwise_append.1 ascending).2.2 token List.mem_cons_self stop.peek
        List.mem_cons_self

theorem peek_same (advance : Advance start stop) (same : stop.rest.length = start.rest.length) :
    stop.peek = start.peek := by
  have rest := advance.rest.eq_of_length same
  simp [Cursor.peek, rest, advance.finish]

theorem peek_le (advance : Advance start stop) (ascending : start.Ascending) :
    start.peek.line ≤ stop.peek.line := by
  rcases Nat.lt_or_eq_of_le advance.length_le with fewer | same
  · exact Nat.le_of_lt (peek_lt advance ascending fewer)
  · exact Nat.le_of_eq (congrArg Token.line (peek_same advance same).symm)

theorem peek_le_finish (ascending : start.Ascending) : start.peek.line ≤ start.finish.line := by
  have ended : Advance start { start with rest := [] } := Advance.drop (List.nil_suffix)
  exact peek_le ended ascending

end Lines

/-- From a cursor, the parser records no fault, and one that it ends in points to a line
between `low` and the token under the cursor. -/
def PointsFrom (low : Nat) (parser : Parser Result) (start : Cursor) : Prop :=
  match parser start with
  | .ok _ stop => stop.faults = start.faults
  | .error fault stop =>
      stop.faults = start.faults ∧ low ≤ fault.line ∧ fault.line ≤ stop.peek.line

/-- Faults of the parser point to what it has seen: to a token that it has taken, or to the one
under the cursor where it ends. -/
structure Points (parser : Parser Result) : Prop where
  advances : Advances parser
  pointing : ∀ start low, start.Ascending → low ≤ start.peek.line → PointsFrom low parser start

section Combining

variable {parser : Parser Result} {proceed : Result → Parser Next} {low : Nat} {start : Cursor}

theorem PointsFrom.bind (first : PointsFrom low parser start)
    (second : ∀ value middle, parser start = .ok value middle →
      PointsFrom low (proceed value) middle) : PointsFrom low (parser >>= proceed) start := by
  unfold PointsFrom at first ⊢
  change match EStateM.bind parser proceed start with
    | .ok _ stop => stop.faults = start.faults
    | .error fault stop =>
        stop.faults = start.faults ∧ low ≤ fault.line ∧ fault.line ≤ stop.peek.line
  unfold EStateM.bind
  cases run : parser start with
  | error fault middle =>
      rw [run] at first
      exact first
  | ok value middle =>
      rw [run] at first
      have follows := second value middle run
      unfold PointsFrom at follows
      simp only [← first]
      exact follows

theorem Points.bind (first : Points parser) (second : ∀ value, Points (proceed value)) :
    Points (parser >>= proceed) := by
  refine ⟨advances_bind first.advances fun value => (second value).advances, ?_⟩
  intro start low ascending below
  refine (first.pointing start low ascending below).bind fun value middle run => ?_
  have moved := first.advances.of_ok run
  exact (second value).pointing middle low (moved.ascending ascending)
    (Nat.le_trans below (peek_le moved ascending))

theorem Points.map (build : Result → Next) (points : Points parser) :
    Points (build <$> parser) := by
  refine ⟨advances_map build points.advances, fun start low ascending below => ?_⟩
  have pointing := points.pointing start low ascending below
  unfold PointsFrom at pointing ⊢
  change match EStateM.map build parser start with
    | .ok _ stop => stop.faults = start.faults
    | .error fault stop =>
        stop.faults = start.faults ∧ low ≤ fault.line ∧ fault.line ≤ stop.peek.line
  unfold EStateM.map
  cases run : parser start with
  | ok value stop | error fault stop =>
      rw [run] at pointing
      exact pointing

end Combining

section Steps

theorem points_pure (value : Result) : Points (pure value) :=
  ⟨advances_pure value, fun _ _ _ _ => rfl⟩

theorem points_peek : Points peek := ⟨advances_peek, fun _ _ _ _ => rfl⟩

theorem points_advance : Points advance := ⟨advances_advance, fun _ _ _ _ => rfl⟩

theorem points_at_end : Points atEnd := ⟨advances_at_end, fun _ _ _ _ => rfl⟩

theorem points_remaining : Points remaining := ⟨advances_remaining, fun _ _ _ _ => rfl⟩

theorem points_make (build : Nat → Expr) : Points (make build) :=
  ⟨advances_make build, fun _ _ _ _ => rfl⟩

theorem points_accept_all (kinds : List Kind) : Points (acceptAll kinds) :=
  ⟨advances_accept_all kinds, fun _ _ _ _ => rfl⟩

theorem points_refuse_here (fault : Fault) : Points (refuseHere fault : Parser Result) :=
  ⟨advances_refuse_here fault, fun _ _ _ below => ⟨rfl, below, Nat.le_refl _⟩⟩

theorem points_check (kinds : List Kind) : Points (check kinds) := by
  refine ⟨advances_check kinds, fun start low _ _ => ?_⟩
  unfold PointsFrom check
  cases start.rest <;> rfl

theorem points_accept_option (kinds : List Kind) : Points (accept? kinds) := by
  refine ⟨advances_accept_option kinds, fun start low _ _ => ?_⟩
  unfold PointsFrom accept?
  cases start.rest with
  | nil => rfl
  | cons token rest =>
      by_cases taken : token.kind ∈ kinds
      · simp [taken]
      · simp [taken]

theorem points_accept (kind : Kind) : Points (accept kind) :=
  (points_accept_option [kind]).map _

theorem points_expect (kind : Kind) (wanted : Wanted) : Points (expect kind wanted) := by
  refine ⟨advances_expect kind wanted, fun start low _ below => ?_⟩
  unfold PointsFrom expect
  unfold Cursor.peek at below ⊢
  cases held : start.rest with
  | nil =>
      rw [held] at below
      simpa [held] using below
  | cons token rest =>
      rw [held] at below
      by_cases same : token.kind = kind
      · simp [same]
      · simpa [same, held] using below

end Steps

section Expressions

variable {inner : Parser Expr} (points : Points inner)

include points

omit points in
theorem points_leaf (build : Nat → Expr) : Points (leaf build) :=
  points_advance.bind fun _ => points_make build

theorem points_primary : Points (primary inner) := by
  refine ⟨advances_primary points.advances, fun start low ascending below => ?_⟩
  have refused (fault : Fault) : PointsFrom low (refuse start.peek fault : Parser Expr) start :=
    ⟨rfl, below, Nat.le_refl _⟩
  have reads {parser : Parser Expr} (rule : Points parser) : PointsFrom low parser start :=
    rule.pointing start low ascending below
  refine (points_peek.pointing start low ascending below).bind fun token middle run => ?_
  obtain ⟨rfl, rfl⟩ := peek_ok.1 run
  split
  case h_4 =>
    split
    · exact reads (points_leaf _)
    · exact refused _
  case h_8 =>
    apply reads
    apply points_advance.bind
    intro _
    apply (points_expect _ _).bind
    intro _
    exact (points_expect _ _).bind fun method => points_make _
  case h_9 =>
    apply reads
    apply points_advance.bind
    intro _
    apply points.bind
    intro grouped
    exact (points_expect _ _).bind fun _ => points_make _
  case h_10 => exact refused _
  all_goals exact reads (points_leaf _)

/-- A target that is refused points to the sign of the assignment, which lies behind. -/
theorem points_assignment (targets : Points (disjunction inner)) : Points (assignment inner) := by
  refine ⟨advances_closed.assignment points.advances targets.advances,
    fun start low ascending below => ?_⟩
  refine (targets.pointing start low ascending below).bind fun target middle targetRun => ?_
  have moved := targets.advances.of_ok targetRun
  have middleAscending := moved.ascending ascending
  have middleBelow := Nat.le_trans below (peek_le moved ascending)
  have accepts := (points_accept_option [.equal]).pointing middle low middleAscending middleBelow
  refine accepts.bind fun taken behind takenRun => ?_
  have passed := (advances_accept_option [.equal]).of_ok takenRun
  have behindAscending := passed.ascending middleAscending
  have behindBelow := Nat.le_trans middleBelow (peek_le passed middleAscending)
  rcases accept_option_ok.1 takenRun with ⟨equals, rest, rfl, held, -, rfl⟩ | ⟨rfl, -, rfl⟩
  · have here : middle.peek = equals := by simp [Cursor.peek, held]
    have further := (points.pointing _ low behindAscending behindBelow)
    refine further.bind fun value stop valueRun => ?_
    have reached := passed.trans (points.advances.of_ok valueRun)
    have refused : PointsFrom low (refuse equals .invalidTarget : Parser Expr) stop := by
      rw [here] at middleBelow
      have reachedLine := peek_le reached middleAscending
      rw [here] at reachedLine
      exact ⟨rfl, middleBelow, reachedLine⟩
    unfold assignTo
    split
    · exact rfl
    · exact rfl
    · exact refused
  · exact rfl

end Expressions

theorem points_clausal : Clausal (fun {_} parser => Points parser) where
  value := points_pure
  bind := Points.bind
  measured points := ⟨fun start => (points start.rest.length).advances start,
    fun start => (points start.rest.length).pointing start⟩
  atEnd := points_at_end
  remaining := points_remaining
  check := points_check
  taking _ := points_accept_option _
  takingAll _ := points_accept_all _
  expect _ := points_expect _
  make := points_make
  refusal _ := points_refuse_here _
  primary := points_primary
  assignment := points_assignment
  semicolon := points_expect _
  optionalSemicolon := points_accept _

end Quill.Grammar
