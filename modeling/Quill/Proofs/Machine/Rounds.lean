import Quill.Proofs.Grammar.Clause
import Quill.Proofs.Machine.Lifting

/-!
Counting loops, told by their parts: the initializer runs once in a frame around the loop; a
round is a test, a run of the body in a frame of its own and one evaluation of the increment
behind it; and the loop ends with the first test that comes out false, or with whatever leaves
one of its parts. The statement that a loop is written as ends in this way and in no other.
-/

namespace Quill.Machine

set_option autoImplicit false

open Grammar (Counting)

/-- `Ends work before outcome after`: begun in the first state, the work ends in the second and
with this outcome, whatever it is done for. -/
def Ends (work : Work) (before : State) (outcome : Control) (after : State) : Prop :=
  ∀ stack, ∃ ending, EndsAt (work.start before stack) stack ending ∧
    (work.start before stack).run ending = ⟨after, outcome, stack⟩

theorem start_onto (work : Work) (state : State) (stack : List Task) :
    work.start state stack = (work.start state []).onto stack := by
  cases work with
  | call callee given line => exact call_value_onto state [] stack callee given line
  | _ => rfl

theorem ends_iff (work : Work) {before after : State} {outcome : Control} :
    Ends work before outcome after ↔ Halts (work.start before []) outcome after := by
  constructor
  · intro ends
    obtain ⟨ending, isEnd, run⟩ := ends []
    have finished := isEnd.finished.2
    rw [run] at finished
    exact ⟨ending, run, finished⟩
  · intro halts stack
    rw [start_onto]
    exact ends_iff_halts.2 halts

def State.nested (state : State) : State := state.enter state.environment .empty

def State.back (state : State) (frame : FrameRef) : State := { state with environment := frame }

def Control.settled : Control → Control
  | done _ => done .nil
  | control => control

/-! ### What the parts prescribe -/

inductive Tests (counting : Counting) : State → Control → State → Prop where
  | given {test : Expr} {before after : State} {outcome : Control}
      (present : counting.condition = some test)
      (ends : Ends (.evaluate test) before outcome after) : Tests counting before outcome after
  | absent {state : State} (missing : counting.condition = none) :
      Tests counting state (.done (.boolean true)) state

/-- The body runs and, if it ends normally, the increment is evaluated once behind it. Where there
is an increment the body has a frame of its own. -/
inductive Turns (counting : Counting) : State → Control → State → Prop where
  | plain {before after : State} {outcome : Control} (missing : counting.increment = none)
      (ends : Ends (.execute counting.body) before outcome after) :
      Turns counting before outcome after
  | leaves {step : Expr} {before after : State} {outcome : Control}
      (present : counting.increment = some step)
      (ends : Ends (.execute counting.body) before.nested outcome after)
      (departs : outcome.isDone = false) :
      Turns counting before outcome (after.back before.environment)
  | steps {step : Expr} {before middle after : State} {value : Value} {outcome : Control}
      (present : counting.increment = some step)
      (ends : Ends (.execute counting.body) before.nested (.done value) middle)
      (once : Ends (.evaluate step) middle outcome after) :
      Turns counting before outcome.settled (after.back before.environment)

/-- `Repeats counting rounds before after`: so many tests come out true, and each of the turns
behind them ends normally. -/
inductive Repeats (counting : Counting) : Nat → State → State → Prop where
  | zero {state : State} : Repeats counting 0 state state
  | round {rounds : Nat} {before middle later after : State} {value other : Value}
      (tests : Tests counting before (.done value) middle) (truthy : value.isTruthy = true)
      (turns : Turns counting middle (.done other) later)
      (others : Repeats counting rounds later after) :
      Repeats counting (rounds + 1) before after

inductive Stops (counting : Counting) : State → Control → State → Prop where
  | fails {before after : State} {outcome : Control} (tests : Tests counting before outcome after)
      (departs : outcome.isDone = false) : Stops counting before outcome after
  | finishes {before after : State} {value : Value} (tests : Tests counting before (.done value) after)
      (falsy : value.isTruthy = false) : Stops counting before (.done .nil) after
  | leaves {before middle after : State} {value : Value} {outcome : Control}
      (tests : Tests counting before (.done value) middle) (truthy : value.isTruthy = true)
      (turns : Turns counting middle outcome after) (departs : outcome.isDone = false) :
      Stops counting before outcome after

/-- From the first test on: some rounds, each of which ends normally, and then either a test that
does not come out true or a turn that leaves the loop. -/
def Loops (counting : Counting) (before : State) (outcome : Control) (after : State) : Prop :=
  ∃ rounds last, Repeats counting rounds before last ∧ Stops counting last outcome after

/-- `Begins counting before after`: in the second state the loop comes to its first test. The
initializer has run in a new frame. -/
inductive Begins (counting : Counting) : State → State → Prop where
  | bare {state : State} (missing : counting.initializer = none) : Begins counting state state
  | started {first : Stmt} {before after : State} {value : Value}
      (present : counting.initializer = some first)
      (ends : Ends (.execute first) before.nested (.done value) after) :
      Begins counting before after

/-- `Counts counting before outcome after`: how the loop ends. After it the frame is the one from
before it. -/
inductive Counts (counting : Counting) : State → Control → State → Prop where
  | departs {first : Stmt} {before after : State} {outcome : Control}
      (present : counting.initializer = some first)
      (ends : Ends (.execute first) before.nested outcome after)
      (departs : outcome.isDone = false) :
      Counts counting before outcome (after.back before.environment)
  | loops {before middle after : State} {outcome : Control} (begins : Begins counting before middle)
      (loops : Loops counting middle outcome after) :
      Counts counting before outcome (after.back before.environment)

/-! ### What the statement does -/

section Parts

variable {before after state : State} {outcome passed : Control}

theorem ends_outcome {work : Work} (ends : Ends work before outcome after) :
    outcome.isOutcome = true := by
  obtain ⟨steps, -, isOutcome⟩ := (ends_iff _).1 ends
  exact isOutcome

theorem ends_back {work : Work} (ends : Ends work before outcome after) :
    after.back before.environment = after := by
  obtain ⟨ending, isEnd, run⟩ := ends []
  have balanced := balanced_run (start_balanced work before []) ending isEnd.first
  have restored := finished_restored balanced isEnd.finished
  rw [run] at restored
  rw [State.back, ← restored.environment]

theorem halts_outcome_iff (isPassed : passed.isOutcome = true) :
    Halts ⟨state, passed, []⟩ outcome after ↔ outcome = passed ∧ after = state := by
  constructor
  · intro halts
    exact halts_unique halts (halts_at_once isPassed)
  · rintro ⟨rfl, rfl⟩
    exact halts_at_once isPassed

/-- What leaves a piece of work leaves the task below it too. The task must be one that hands a
returned value on, which a call does not. -/
theorem halts_departed_iff {task : Task} (isPassed : passed.isOutcome = true)
    (departs : passed.isDone = false) (plain : ∀ value, unwindReturn state value task [] =
      ⟨task.release state, .returning value, []⟩) :
    Halts ⟨state, passed, [task]⟩ outcome after ↔
      outcome = passed ∧ after = task.release state := by
  rw [halts_next, ← halts_outcome_iff isPassed]
  cases passed with
  | returning value =>
      rw [← plain value]
      rfl
  | failing fault => rfl
  | done value => cases departs
  | evaluate term => cases isPassed
  | execute clause => cases isPassed

theorem settled_of_departed (departs : passed.isDone = false) : passed.settled = passed := by
  cases passed with
  | done value => cases departs
  | _ => rfl

theorem halts_block_iff (isPassed : passed.isOutcome = true) {outer : FrameRef} :
    Halts ⟨state, passed, [.block [] outer]⟩ outcome after ↔
      outcome = passed.settled ∧ after = state.back outer := by
  cases departs : passed.isDone with
  | false =>
      rw [settled_of_departed departs]
      exact halts_departed_iff isPassed departs fun _ => rfl
  | true =>
      cases passed with
      | done value =>
          rw [halts_next, ← halts_outcome_iff rfl]
          rfl
      | _ => cases departs

/-- Two statements in a block: the second is executed if the first ends normally, and what leaves
the first leaves the block. -/
theorem halts_pair_iff {one other : Stmt} :
    Halts ⟨before, .execute (.block [one, other]), []⟩ outcome after ↔
      ∃ passed middle, Halts ⟨before.nested, .execute one, []⟩ passed middle ∧
        (passed.isDone = false ∧ outcome = passed ∧ after = middle.back before.environment ∨
          passed.isDone = true ∧ ∃ last later, Halts ⟨middle, .execute other, []⟩ last later ∧
            outcome = last.settled ∧ after = later.back before.environment) := by
  have inside : Halts ⟨before, .execute (.block [one, other]), []⟩ outcome after ↔
      Halts (Machine.onto ⟨before.nested, .execute one, []⟩ [.block [other] before.environment])
        outcome after := by
    rw [halts_next, halts_next]
    rfl
  rw [inside, halts_onto _]
  refine exists_congr fun passed => exists_congr fun middle => ?_
  refine and_congr_right fun halts => ?_
  have isPassed : passed.isOutcome = true := by
    obtain ⟨steps, -, isPassed⟩ := halts
    exact isPassed
  cases departs : passed.isDone with
  | false =>
      rw [halts_departed_iff isPassed departs fun _ => rfl]
      simp [Task.release, State.back]
  | true =>
      cases passed with
      | done value =>
          have goesOn :
              Halts ⟨middle, .done value, [.block [other] before.environment]⟩ outcome after ↔
                Halts (Machine.onto ⟨middle, .execute other, []⟩ [.block [] before.environment])
                  outcome after := by
            rw [halts_next]
            rfl
          rw [goesOn, halts_onto _]
          simp only [Bool.true_eq_false, false_and, true_and, false_or]
          refine exists_congr fun last => exists_congr fun later => and_congr_right fun ended => ?_
          obtain ⟨steps, -, isLast⟩ := ended
          exact halts_block_iff isLast
      | _ => cases departs

end Parts

section Statement

variable {counting : Counting} {number : Nat} {before after : State} {outcome : Control}

/-- To evaluate the condition is to test it. An absent one is a literal in the statement, which is
true without changing anything. -/
theorem tests_iff : Halts ⟨before, .evaluate (counting.test number), []⟩ outcome after ↔
    Tests counting before outcome after := by
  unfold Counting.test
  cases present : counting.condition with
  | some test =>
      constructor
      · exact fun halts => .given present ((ends_iff _).2 halts)
      · intro tests
        cases tests with
        | given found ends =>
            cases present.symm.trans found
            exact (ends_iff _).1 ends
        | absent missing => cases present.symm.trans missing
  | none =>
      have holds : Halts ⟨before, .evaluate (.literal number (.boolean true)), []⟩ outcome after ↔
          outcome = .done (.boolean true) ∧ after = before := by
        rw [halts_next, ← halts_outcome_iff rfl]
        rfl
      rw [Option.getD_none, holds]
      constructor
      · rintro ⟨rfl, rfl⟩
        exact .absent present
      · intro tests
        cases tests with
        | given found ends => cases present.symm.trans found
        | absent missing => exact ⟨rfl, rfl⟩

theorem tests_outcome (tests : Tests counting before outcome after) : outcome.isOutcome = true := by
  cases tests with
  | given present ends => exact ends_outcome ends
  | absent missing => rfl

def turnOf (counting : Counting) : Stmt :=
  match counting.increment with
  | some step => .block [counting.body, .expression step]
  | none => counting.body

/-- To execute the body with its increment is a turn. The frame that both are in is made before the
body and left behind the increment. -/
theorem turns_iff : Halts ⟨before, .execute (turnOf counting), []⟩ outcome after ↔
    Turns counting before outcome after := by
  unfold turnOf
  cases present : counting.increment with
  | none =>
      constructor
      · exact fun halts => .plain present ((ends_iff _).2 halts)
      · intro turns
        cases turns with
        | plain missing ends => exact (ends_iff _).1 ends
        | leaves found ends departs => cases present.symm.trans found
        | steps found ends once => cases present.symm.trans found
  | some step =>
      rw [halts_pair_iff]
      constructor
      · rintro ⟨passed, middle, halts, ⟨departs, rfl, rfl⟩ | ⟨normal, last, later, once, rfl, rfl⟩⟩
        · exact .leaves present ((ends_iff _).2 halts) departs
        · cases passed with
          | done value =>
              exact .steps present ((ends_iff _).2 halts) ((ends_iff _).2 (halts_next.1 once))
          | _ => cases normal
      · intro turns
        cases turns with
        | plain missing ends => cases present.symm.trans missing
        | leaves found ends departs => exact ⟨_, _, (ends_iff _).1 ends, .inl ⟨departs, rfl, rfl⟩⟩
        | steps found ends once =>
            cases present.symm.trans found
            exact ⟨_, _, (ends_iff _).1 ends,
              .inr ⟨rfl, _, _, halts_next.2 ((ends_iff _).1 once), rfl, rfl⟩⟩

def testing (counting : Counting) (number : Nat) (state : State) (stack : List Task) : Machine :=
  ⟨state, .evaluate (counting.test number),
    .loopTest (counting.test number) (turnOf counting) :: stack⟩

theorem repeats_reaches {rounds : Nat} (repeats : Repeats counting rounds before after)
    (stack : List Task) :
    Reaches (testing counting number before stack) (testing counting number after stack) := by
  induction repeats with
  | zero => exact ⟨0, rfl⟩
  | @round rounds before middle later after value other tests truthy turns others induction =>
      let task := Task.loopBody (counting.test number) (turnOf counting)
      have tested : Reaches (testing counting number before stack)
          ⟨middle, .done value, .loopTest (counting.test number) (turnOf counting) :: stack⟩ :=
        halts_reaches (tests_iff.2 tests) _
      have entered : Reaches
          ⟨middle, .done value, .loopTest (counting.test number) (turnOf counting) :: stack⟩
          ⟨middle, .execute (turnOf counting), task :: stack⟩ := by
        refine ⟨1, ?_⟩
        simp [run, halted, next, resume, truthy, task]
      have turned : Reaches ⟨middle, .execute (turnOf counting), task :: stack⟩
          ⟨later, .done other, task :: stack⟩ :=
        halts_reaches (turns_iff.2 turns) _
      exact ((tested.trans entered).trans turned).trans ((reaches_next _).trans induction)

/-- A run of the loop that halts is some rounds and an end. The induction is on the steps: the run
from the next test on is shorter. -/
theorem halts_repeats {steps : Nat}
    (halts : HaltsIn (testing counting number before []) steps outcome after) :
    Loops counting before outcome after := by
  induction steps using Nat.strongRecOn generalizing before with
  | _ steps induction =>
  obtain ⟨passed, middle, first, -, one, rest⟩ :=
    halts_in_onto ⟨before, .evaluate (counting.test number), []⟩ halts
  have tests : Tests counting before passed middle := tests_iff.1 ⟨first, one⟩
  cases departs : passed.isDone with
  | false =>
      obtain ⟨rfl, rfl⟩ := (halts_departed_iff one.2 departs fun _ => rfl).1 ⟨_, rest⟩
      exact ⟨0, before, .zero, .fails tests departs⟩
  | true =>
  cases passed with
  | done value =>
      obtain ⟨fewer, less, resumed⟩ := halts_in_next rfl rest
      cases truthy : value.isTruthy with
      | false =>
          simp only [next, resume, truthy] at resumed
          obtain ⟨rfl, rfl⟩ := (halts_outcome_iff rfl).1 ⟨_, resumed⟩
          exact ⟨0, before, .zero, .finishes tests truthy⟩
      | true =>
          simp only [next, resume, truthy, if_true] at resumed
          obtain ⟨left, later, second, -, two, others⟩ :=
            halts_in_onto ⟨middle, .execute (turnOf counting), []⟩ resumed
          have turns : Turns counting middle left later := turns_iff.1 ⟨second, two⟩
          cases leaves : left.isDone with
          | false =>
              obtain ⟨rfl, rfl⟩ := (halts_departed_iff two.2 leaves fun _ => rfl).1 ⟨_, others⟩
              exact ⟨0, before, .zero, .leaves tests truthy turns leaves⟩
          | true =>
          cases left with
          | done other =>
              obtain ⟨least, lesser, again⟩ := halts_in_next rfl others
              obtain ⟨rounds, last, repeats, stops⟩ := induction least (by omega) again
              exact ⟨rounds + 1, last, .round tests truthy turns repeats, stops⟩
          | _ => cases leaves
  | _ => cases departs

theorem stops_halts (stops : Stops counting before outcome after) :
    Halts (testing counting number before []) outcome after := by
  have parts : ∀ {passed middle}, Tests counting before passed middle →
      (Halts ⟨middle, passed, [.loopTest (counting.test number) (turnOf counting)]⟩ outcome after) →
        Halts (testing counting number before []) outcome after := fun tests rest =>
    (halts_onto ⟨before, .evaluate (counting.test number), []⟩).2 ⟨_, _, tests_iff.2 tests, rest⟩
  cases stops with
  | fails tests departs =>
      have isOutcome := tests_outcome tests
      exact parts tests ((halts_departed_iff isOutcome departs fun _ => rfl).2 ⟨rfl, rfl⟩)
  | finishes tests falsy =>
      refine parts tests (halts_next.2 ?_)
      simp only [next, resume, falsy]
      exact halts_at_once rfl
  | leaves tests truthy turns departs =>
      obtain ⟨steps, turned⟩ := turns_iff.2 turns
      refine parts tests (halts_next.2 ?_)
      simp only [next, resume, truthy, if_true]
      refine (halts_onto ⟨_, .execute (turnOf counting), []⟩).2 ⟨_, _, ⟨steps, turned⟩, ?_⟩
      exact (halts_departed_iff turned.2 departs fun _ => rfl).2 ⟨rfl, rfl⟩

theorem testing_iff : Halts (testing counting number before []) outcome after ↔
    Loops counting before outcome after := by
  constructor
  · rintro ⟨steps, halts⟩
    exact halts_repeats halts
  · rintro ⟨rounds, last, repeats, stops⟩
    exact (reaches_halts_iff (repeats_reaches repeats [])).2 (stops_halts stops)

theorem loops_settled (loops : Loops counting before outcome after) :
    outcome.settled = outcome := by
  obtain ⟨rounds, last, -, stops⟩ := loops
  cases stops with
  | finishes tests falsy => rfl
  | fails tests departs => exact settled_of_departed departs
  | leaves tests truthy turns departs => exact settled_of_departed departs

theorem loop_of_bare (missing : counting.initializer = none) :
    counting.loop number = .whileLoop (counting.test number) (turnOf counting) := by
  rcases counting with ⟨initializer, condition, increment, body⟩
  cases missing
  cases increment <;> rfl

theorem loop_of_started {first : Stmt} (present : counting.initializer = some first) :
    counting.loop number =
      .block [first, .whileLoop (counting.test number) (turnOf counting)] := by
  rcases counting with ⟨initializer, condition, increment, body⟩
  cases present
  cases increment <;> rfl

theorem begins_reaches (begins : Begins counting before after) (stack : List Task) :
    ∃ below, Reaches ⟨before, .execute (counting.loop number), stack⟩
      (testing counting number after (below ++ stack)) := by
  cases begins with
  | bare missing =>
      rw [loop_of_bare missing]
      exact ⟨[], reaches_next _⟩
  | @started first _ _ value present ends =>
      rw [loop_of_started present]
      let rest := [Stmt.whileLoop (counting.test number) (turnOf counting)]
      have entered : Reaches ⟨before, .execute (.block (first :: rest)), stack⟩
          ⟨before.nested, .execute first, .block rest before.environment :: stack⟩ := ⟨2, rfl⟩
      have begun : Reaches ⟨before.nested, .execute first, .block rest before.environment :: stack⟩
          ⟨after, .done value, .block rest before.environment :: stack⟩ :=
        halts_reaches ((ends_iff _).1 ends) _
      have looped : Reaches ⟨after, .done value, .block rest before.environment :: stack⟩
          (testing counting number after (.block [] before.environment :: stack)) := ⟨2, rfl⟩
      exact ⟨[.block [] before.environment], (entered.trans begun).trans looped⟩

theorem bare_loop_iff (missing : counting.initializer = none) :
    Ends (.execute (counting.loop number)) before outcome after ↔
      Loops counting before outcome after := by
  rw [ends_iff, loop_of_bare missing, ← testing_iff]
  exact halts_next

theorem started_loop_iff {first : Stmt} (present : counting.initializer = some first) :
    Ends (.execute (counting.loop number)) before outcome after ↔
      ∃ passed middle, Ends (.execute first) before.nested passed middle ∧
        (passed.isDone = false ∧ outcome = passed ∧ after = middle.back before.environment ∨
          passed.isDone = true ∧ ∃ later, Loops counting middle outcome later ∧
            after = later.back before.environment) := by
  rw [ends_iff, loop_of_started present]
  refine halts_pair_iff.trans ?_
  refine exists_congr fun passed => exists_congr fun middle => ?_
  refine and_congr (ends_iff (.execute first)).symm ?_
  refine or_congr Iff.rfl (and_congr_right fun _ => ?_)
  have tested : ∀ {last later},
      Halts ⟨middle, .execute (.whileLoop (counting.test number) (turnOf counting)), []⟩ last
        later ↔ Loops counting middle last later := by
    intro last later
    rw [← testing_iff]
    exact halts_next
  constructor
  · rintro ⟨last, later, halts, rfl, rfl⟩
    have loops := tested.1 halts
    rw [loops_settled loops]
    exact ⟨later, loops, rfl⟩
  · rintro ⟨later, loops, rfl⟩
    exact ⟨outcome, later, tested.2 loops, (loops_settled loops).symm, rfl⟩

/-- The statement ends as its parts prescribe, and in no other way. Statements without an
initializer are the loop itself, and others a block around it. -/
theorem loop_iff : Ends (.execute (counting.loop number)) before outcome after ↔
    Counts counting before outcome after := by
  constructor
  · intro ends
    cases present : counting.initializer with
    | none =>
        have loops := (bare_loop_iff present).1 ends
        rw [← ends_back ends]
        exact .loops (.bare present) loops
    | some first =>
        obtain ⟨passed, middle, begins, ⟨departs, rfl, rfl⟩ | ⟨normal, later, loops, rfl⟩⟩ :=
          (started_loop_iff present).1 ends
        · exact .departs present begins departs
        · cases passed with
          | done value => exact .loops (.started present begins) loops
          | _ => cases normal
  · intro counts
    cases counts with
    | departs present ends departs =>
        exact (started_loop_iff present).2 ⟨_, _, ends, .inl ⟨departs, rfl, rfl⟩⟩
    | loops begins loops =>
        cases begins with
        | bare missing =>
            have ends : Ends (.execute (counting.loop number)) _ _ _ :=
              (bare_loop_iff missing).2 loops
            rwa [ends_back ends]
        | started present ends =>
            exact (started_loop_iff present).2 ⟨_, _, ends, .inr ⟨rfl, _, loops, rfl⟩⟩

end Statement

end Quill.Machine
