import Quill.Proofs.Machine.Stopping
import Quill.Proofs.Machine.Statements

/-!
What stands below on the stack plays no part. A step looks at the topmost task at most, so a
machine that has something to do does the same with more tasks below its own. So a piece of
work ends as it does alone, and work in two parts ends as the second part does behind the
first.
-/

namespace Quill

namespace Machine

set_option autoImplicit false

/-- The machine with more tasks below its own. A step of it never looks at them while it has
something to do itself, so a run above a stack is a run alone. -/
def onto (machine : Machine) (below : List Task) : Machine :=
  { machine with stack := machine.stack ++ below }

section Steps

variable (state : State) (tasks below : List Task)

theorem deliver_onto (line : Nat) (result : Except Fault Value) :
    deliver state line result (tasks ++ below) = (deliver state line result tasks).onto below := by
  cases result <;> rfl

theorem deliver_read_onto (line : Nat) (result : Except Heap.AccessFault Value) :
    deliverRead state line result (tasks ++ below) =
      (deliverRead state line result tasks).onto below := by
  cases result <;> rfl

theorem evaluate_onto (term : Expr) :
    evaluate state term (tasks ++ below) = (evaluate state term tasks).onto below := by
  cases term with
  | variableRef id name => exact deliver_read_onto state tasks below _ _
  | thisRef id keyword => exact deliver_read_onto state tasks below _ _
  | baseRef id keyword name =>
      simp only [evaluate, evaluateBase]
      split
      · rfl
      · split
        · rfl
        · split <;> rfl
  | _ => rfl

theorem define_class_onto (name : Token) (parent : Option ClassRef) (methods : List FunctionDecl) :
    defineClass state name parent methods (tasks ++ below) =
      (defineClass state name parent methods tasks).onto below := by
  cases parent <;> rfl

theorem execute_onto (clause : Stmt) :
    execute state clause (tasks ++ below) = (execute state clause tasks).onto below := by
  cases clause with
  | varDecl name initializer => cases initializer <;> rfl
  | classDecl name base methods => cases base <;> rfl
  | returnStmt keyword value => cases value <;> rfl
  | _ => rfl

theorem call_value_onto (callee : Value) (given : List Value) (line : Nat) :
    callValue state callee given line (tasks ++ below) =
      (callValue state callee given line tasks).onto below := by
  cases callee with
  | functionRef ref =>
      simp only [callValue, callFunction]
      split
      · split <;> rfl
      · rfl
  | nativeRef ref =>
      simp only [callValue, callNative, callPrint]
      split
      · split
        · rfl
        · split
          · split <;> rfl
          · rfl
      · rfl
  | classRef ref =>
      simp only [callValue, callClass]
      split
      · rfl
      · split <;> rfl
  | _ => rfl

/-- A task goes on in the same way above other tasks. It is the only one that is taken off, and what
it pushes depends on the value and on itself. -/
theorem resume_onto (value : Value) (task : Task) :
    resume state value task (tasks ++ below) = (resume state value task tasks).onto below := by
  cases task with
  | unary operator => exact deliver_onto state tasks below _ _
  | rightOperand left operator => exact deliver_onto state tasks below _ _
  | logical operator right | assign id name =>
      simp only [resume]
      split <;> rfl
  | callee paren given =>
      cases given with
      | nil => exact call_value_onto state tasks below _ _ _
      | cons first others => rfl
  | argument callee evaluated paren remaining =>
      cases remaining with
      | nil => exact call_value_onto state tasks below _ _ _
      | cons first others => rfl
  | getProperty name =>
      cases value with
      | instanceRef receiver =>
          simp only [resume]
          split <;> rfl
      | _ => rfl
  | setObject name expr => cases value <;> rfl
  | classBase name base methods =>
      cases value with
      | classRef parent => exact define_class_onto state tasks below name (some parent) methods
      | _ => rfl
  | branch thenBranch elseBranch =>
      simp only [resume]
      split
      · rfl
      · split <;> rfl
  | loopTest condition body =>
      simp only [resume]
      split <;> rfl
  | block remaining outer => cases remaining <;> rfl
  | program remaining => cases remaining <;> rfl
  | _ => rfl

theorem unwind_onto (value : Value) (task : Task) :
    unwindReturn state value task (tasks ++ below) =
      (unwindReturn state value task tasks).onto below := by
  cases task <;> rfl

end Steps

theorem next_onto {machine : Machine} (running : machine.halted = false) (below : List Task) :
    (machine.onto below).next = machine.next.onto below := by
  rcases machine with ⟨state, control, tasks⟩
  cases control with
  | evaluate term => exact evaluate_onto state tasks below term
  | execute clause => exact execute_onto state tasks below clause
  | done value =>
      cases tasks with
      | nil => cases running
      | cons task tasks => exact resume_onto state tasks below value task
  | returning value =>
      cases tasks with
      | nil => cases running
      | cons task tasks => exact unwind_onto state tasks below value task
  | failing fault =>
      cases tasks with
      | nil => cases running
      | cons task tasks => rfl

theorem run_onto {machine : Machine} {steps : Nat}
    (running : ∀ moment < steps, (machine.run moment).halted = false) (below : List Task) :
    (machine.onto below).run steps = (machine.run steps).onto below := by
  induction steps with
  | zero => rfl
  | succ steps induction =>
      rw [run_succ, run_succ, induction fun moment before =>
        running moment (Nat.lt_succ_of_lt before), next_onto (running steps (Nat.lt_succ_self _))]

theorem finished_onto {machine : Machine} {below : List Task} :
    Finished below (machine.onto below) ↔ machine.halted = true := by
  rw [← finished_nil_iff]
  simp [Finished, onto]

def HaltsIn (machine : Machine) (steps : Nat) (outcome : Control) (after : State) : Prop :=
  machine.run steps = ⟨after, outcome, []⟩ ∧ outcome.isOutcome = true

def Halts (machine : Machine) (outcome : Control) (after : State) : Prop :=
  ∃ steps, HaltsIn machine steps outcome after

section Halting

variable {machine : Machine} {outcome : Control} {after : State} {steps : Nat}

theorem halts_in_stopped (halts : HaltsIn machine steps outcome after) :
    (machine.run steps).halted = true := by
  rw [halts.1]
  exact (finished_nil_iff _).1 ⟨rfl, halts.2⟩

theorem halts_first (stopped : (machine.run steps).halted = true) :
    ∃ first ≤ steps, machine.run first = machine.run steps ∧
      ∀ moment < first, (machine.run moment).halted = false := by
  classical
  have ends : ∃ moment, (machine.run moment).halted = true := ⟨steps, stopped⟩
  have le := Nat.find_min' ends stopped
  refine ⟨Nat.find ends, le, (run_of_halted (Nat.find_spec ends) le).symm, fun moment before => ?_⟩
  exact Bool.eq_false_iff.2 (Nat.find_min ends before)

theorem halts_unique {other : Control} {later : State} (halts : Halts machine outcome after)
    (halts' : Halts machine other later) : outcome = other ∧ after = later := by
  obtain ⟨steps, halts⟩ := halts
  obtain ⟨further, halts'⟩ := halts'
  have same : machine.run steps = machine.run further := by
    rcases Nat.le_total steps further with le | le
    · exact (run_of_halted (halts_in_stopped halts) le).symm
    · exact run_of_halted (halts_in_stopped halts') le
  rw [halts.1, halts'.1] at same
  cases same
  exact ⟨rfl, rfl⟩

theorem halts_at_once (isOutcome : outcome.isOutcome = true) :
    Halts ⟨after, outcome, []⟩ outcome after :=
  ⟨0, rfl, isOutcome⟩

theorem halts_in_next (running : machine.halted = false)
    (halts : HaltsIn machine steps outcome after) :
    ∃ fewer < steps, HaltsIn machine.next fewer outcome after := by
  cases steps with
  | zero =>
      have stopped := halts_in_stopped halts
      rw [show machine.run 0 = machine from rfl, running] at stopped
      cases stopped
  | succ fewer =>
      refine ⟨fewer, Nat.lt_succ_self fewer, ?_, halts.2⟩
      have run := halts.1
      rwa [Nat.add_comm, run_add, show machine.run 1 = machine.next from run_succ machine 0] at run

theorem halts_next : Halts machine outcome after ↔ Halts machine.next outcome after := by
  have one : machine.run 1 = machine.next := run_succ machine 0
  constructor
  · rintro ⟨steps, halts⟩
    refine ⟨steps, ?_, halts.2⟩
    rw [← one, ← run_add, run_of_halted (halts_in_stopped halts) (Nat.le_add_left steps 1), halts.1]
  · rintro ⟨steps, run, isOutcome⟩
    refine ⟨1 + steps, ?_, isOutcome⟩
    rw [run_add, one, run]

/-- Work in two parts: the first of them is done before the second begins. -/
theorem halts_in_onto (machine : Machine) {below : List Task}
    (halts : HaltsIn (machine.onto below) steps outcome after) :
    ∃ passed middle, ∃ first ≤ steps, HaltsIn machine first passed middle ∧
      HaltsIn ⟨middle, passed, below⟩ (steps - first) outcome after := by
  have ends : ∃ moment ≤ steps, (machine.run moment).halted = true := by
    by_contra never
    have running : ∀ moment ≤ steps, (machine.run moment).halted = false := fun moment le =>
      Bool.eq_false_iff.2 fun halted => never ⟨moment, le, halted⟩
    have above := run_onto (fun moment before => running moment (Nat.le_of_lt before)) below
    rw [halts.1] at above
    have own : (machine.run steps).stack = [] :=
      (List.append_eq_nil_iff.1 (congrArg Machine.stack above).symm).1
    have control : (machine.run steps).control = outcome := (congrArg Machine.control above).symm
    have halted := (finished_nil_iff (machine.run steps)).1 ⟨own, control ▸ halts.2⟩
    rw [running steps (Nat.le_refl _)] at halted
    cases halted
  obtain ⟨moment, le, halted⟩ := ends
  obtain ⟨first, before, same, running⟩ := halts_first halted
  have halted : (machine.run first).halted = true := same ▸ halted
  obtain ⟨own, isPassed⟩ := (finished_nil_iff _).2 halted
  have rest : (⟨(machine.run first).state, (machine.run first).control, below⟩ : Machine) =
      (machine.onto below).run first := by
    rw [run_onto running below, onto, own, List.nil_append]
  refine ⟨(machine.run first).control, (machine.run first).state, first, Nat.le_trans before le,
    ⟨?_, isPassed⟩, ?_, halts.2⟩
  · rw [← own]
  · rw [rest, ← run_add, Nat.add_sub_cancel' (Nat.le_trans before le), halts.1]

def Reaches (machine other : Machine) : Prop := ∃ steps, machine.run steps = other

theorem Reaches.trans {one other last : Machine} (first : Reaches one other)
    (second : Reaches other last) : Reaches one last := by
  obtain ⟨steps, rfl⟩ := first
  obtain ⟨further, rfl⟩ := second
  exact ⟨steps + further, run_add _ _ _⟩

theorem reaches_next (machine : Machine) : Reaches machine machine.next := ⟨1, run_succ machine 0⟩

theorem reaches_halts_iff {other : Machine} (reaches : Reaches machine other) :
    Halts machine outcome after ↔ Halts other outcome after := by
  obtain ⟨steps, rfl⟩ := reaches
  induction steps with
  | zero => rfl
  | succ steps induction => rw [induction, run_succ, halts_next]

theorem halts_reaches (halts : Halts machine outcome after) (below : List Task) :
    Reaches (machine.onto below) ⟨after, outcome, below⟩ := by
  obtain ⟨steps, halts⟩ := halts
  obtain ⟨first, -, same, running⟩ := halts_first (halts_in_stopped halts)
  refine ⟨first, ?_⟩
  rw [run_onto running below, same, halts.1]
  rfl

/-- Work in two parts: the tasks below go on with the outcome of those above. -/
theorem halts_onto (machine : Machine) {below : List Task} :
    Halts (machine.onto below) outcome after ↔
      ∃ passed middle, Halts machine passed middle ∧
        Halts ⟨middle, passed, below⟩ outcome after := by
  constructor
  · rintro ⟨steps, halts⟩
    obtain ⟨passed, middle, first, -, one, other⟩ := halts_in_onto machine halts
    exact ⟨passed, middle, ⟨first, one⟩, ⟨steps - first, other⟩⟩
  · rintro ⟨passed, middle, one, other⟩
    exact (reaches_halts_iff (halts_reaches one below)).2 other

/-- Work ends above a stack as it ends alone. So what a statement means does not depend on what it
is executed for. -/
theorem ends_iff_halts {below : List Task} :
    (∃ ending, EndsAt (machine.onto below) below ending ∧
      (machine.onto below).run ending = ⟨after, outcome, below⟩) ↔ Halts machine outcome after := by
  constructor
  · rintro ⟨ending, ends, run⟩
    have running : ∀ moment < ending, (machine.run moment).halted = false := by
      intro moment
      induction moment using Nat.strongRecOn with
      | _ moment earlier =>
        intro before
        refine Bool.eq_false_iff.2 fun halted => ends.first moment before ?_
        rw [run_onto fun sooner less => earlier sooner less (Nat.lt_trans less before)]
        exact finished_onto.2 halted
    rw [run_onto running] at run
    have finished := ends.finished
    rw [run_onto running] at finished
    have own : (machine.run ending).stack = [] := by
      have sameStack := congrArg Machine.stack run
      exact List.append_left_eq_self.1 sameStack
    have isOutcome : (machine.run ending).control.isOutcome = true := finished.2
    have control : (machine.run ending).control = outcome := congrArg Machine.control run
    have state : (machine.run ending).state = after := congrArg Machine.state run
    refine ⟨ending, ?_, control ▸ isOutcome⟩
    rw [← own, ← control, ← state]
  · rintro ⟨steps, halts⟩
    obtain ⟨first, -, same, running⟩ := halts_first (halts_in_stopped halts)
    have above := run_onto running below
    rw [same, halts.1] at above
    refine ⟨first, ⟨?_, fun moment before finished => ?_⟩, above⟩
    · rw [above]
      exact ⟨rfl, halts.2⟩
    · rw [run_onto fun sooner less => running sooner (Nat.lt_trans less before)] at finished
      have halted := finished_onto.1 finished
      rw [running moment before] at halted
      cases halted

end Halting

end Machine

end Quill
