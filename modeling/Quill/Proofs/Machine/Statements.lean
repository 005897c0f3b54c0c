import Mathlib.Data.Nat.Find
import Quill.Proofs.Machine.Discipline

/-!
The statements of a program. No statement at top level ends with a `return`, so a run that ends
without a fault has executed all of them in their order; and a constructor that ends with a
`return` has nothing to hand back but its receiver.
-/

namespace Quill.Machine

set_option autoImplicit false

theorem work_ends {work : Work} {state : State} {stack : List Task} {steps : Nat}
    (stopped : ((work.start state stack).run steps).halted = true) (waiting : stack ≠ []) :
    ∃ ending, EndsAt (work.start state stack) stack ending := by
  classical
  by_cases ends : ∃ moment, Finished stack ((work.start state stack).run moment)
  · exact ⟨Nat.find ends, Nat.find_spec ends, fun moment before => Nat.find_min ends before⟩
  · obtain ⟨tasks, owes⟩ := balanced_run (start_balanced work state stack) steps
      fun moment _ finished => ends ⟨moment, finished⟩
    have above := owes.above
    rw [((finished_nil_iff _).2 stopped).1] at above
    exact absurd (List.append_eq_nil_iff.1 above.symm).2 waiting

/-- `Performs trace time statements last`: from the time on the statements are executed one after
the other, each of them ends normally before the next one begins, and the last has ended at
`last`. -/
inductive Performs (trace : Nat → Machine) : Nat → List Stmt → Nat → Prop where
  | none {time : Nat} {state : State} {value : Value}
      (idle : trace time = ⟨state, .done value, [.program []]⟩) : Performs trace time [] time
  | one {time ending last : Nat} {state : State} {value : Value} {stmt : Stmt} {rest : List Stmt}
      (begins : trace (time + 1) = ⟨state, .execute stmt, [.program rest]⟩)
      (ends : EndsAt (trace (time + 1)) [.program rest] ending)
      (normally : (trace (time + 1 + ending)).control = .done value)
      (others : Performs trace (time + 1 + ending) rest last) :
      Performs trace time (stmt :: rest) last

theorem performs_idle {trace : Nat → Machine} {time last : Nat} {statements : List Stmt}
    (performs : Performs trace time statements last) :
    ∃ state value, trace last = ⟨state, .done value, [.program []]⟩ := by
  induction performs with
  | none idle => exact ⟨_, _, idle⟩
  | one begins ends normally others induction => exact induction

section Top

variable {entered : List Scope.Entry} {machine : Machine}

theorem obeys_top_level (obeys : Obeys entered machine) {remaining : List Stmt} {stack : List Task}
    (top : machine.stack = .program remaining :: stack) (value : Value) :
    machine.control ≠ .returning value := by
  intro returns
  obtain ⟨routine, within, clear⟩ := obeys
  rw [top] at within
  rw [returns] at clear
  exact clear.1 (within_program within)

/-- A machine that halts without a fault has executed the statements that remained. -/
theorem halted_performs (obeys : ∀ time, Obeys entered (machine.run time)) {steps : Nat}
    (stopped : (machine.run steps).halted = true)
    (faultless : ∀ fault, (machine.run steps).control ≠ .failing fault) {statements : List Stmt}
    {time : Nat} {state : State} {value : Value}
    (ready : machine.run time = ⟨state, .done value, [.program statements]⟩) :
    ∃ last, Performs (fun time => machine.run time) time statements last := by
  have settled : ∀ moment, (machine.run moment).run steps = machine.run steps := by
    intro moment
    rw [← run_add]
    exact run_of_halted stopped (Nat.le_add_left steps moment)
  -- Each statement ends since the machine halts: not with a `return`, which the discipline forbids,
  -- and not with a fault, which the machine would halt with.
  induction statements generalizing time state value with
  | nil => exact ⟨time, .none ready⟩
  | cons stmt rest induction =>
      have begins : machine.run (time + 1) = ⟨state, .execute stmt, [.program rest]⟩ := by
        rw [run_succ, ready]
        rfl
      have stops : (((Work.execute stmt).start state [.program rest]).run steps).halted = true := by
        have same := settled (time + 1)
        rw [begins] at same
        exact (congrArg halted same).trans stopped
      obtain ⟨ending, ends⟩ := work_ends stops (List.cons_ne_nil _ _)
      have isEnd : EndsAt (machine.run (time + 1)) [.program rest] ending := by
        rw [begins]
        exact ends
      have finished := isEnd.finished
      rw [← run_add] at finished
      cases control : (machine.run (time + 1 + ending)).control with
      | evaluate term => exact absurd finished.2 (by simp [control, Control.isOutcome])
      | execute clause => exact absurd finished.2 (by simp [control, Control.isOutcome])
      | returning value => exact absurd control (obeys_top_level (obeys _) finished.1 value)
      | failing fault =>
          have failed := run_failing control steps
          rw [settled] at failed
          exact absurd failed (faultless fault)
      | done outcome =>
          have goesOn : machine.run (time + 1 + ending) =
              ⟨(machine.run (time + 1 + ending)).state, .done outcome, [.program rest]⟩ := by
            rw [← control, ← finished.1]
          obtain ⟨last, others⟩ := induction goesOn
          exact ⟨last, .one begins isEnd control others⟩

theorem performs_halts {steps time last : Nat} {statements : List Stmt}
    (stopped : (machine.run steps).halted = true)
    (performs : Performs (fun time => machine.run time) time statements last) :
    last < steps ∧ (machine.run (last + 1)).halted = true := by
  obtain ⟨state, value, idle⟩ := performs_idle performs
  constructor
  · apply Nat.lt_of_not_le
    intro le
    rw [← run_of_halted stopped le, idle] at stopped
    cases stopped
  · rw [run_succ, idle]
    rfl

end Top

/-- What is promised of the returns in a run of a program: that nothing returns at top level, that a
run without a fault executes all its statements, and that a constructor returns no value. -/
structure ReturnsSoundly (program : Program) (trace : Nat → Machine) : Prop where
  /-- A `return` has a call to end. -/
  called : ∀ time value, (trace time).control = .returning value →
    ∃ completion, .leaveCall completion ∈ (trace time).stack
  /-- No statement at top level ends with a `return`. -/
  statements : ∀ time stmt rest ending value, (trace time).control = .execute stmt →
    (trace time).stack = [.program rest] → EndsAt (trace time) [.program rest] ending →
      (trace (time + ending)).control ≠ .returning value
  /-- A run that ends without a fault ends with the last statement, and has executed all. -/
  complete : ∀ steps, (trace steps).halted = true →
    (∀ fault, (trace steps).control ≠ .failing fault) →
      ∃ last, Performs trace 0 program.statements last ∧ last < steps ∧
        (trace (last + 1)).halted = true
  /-- What a call of a constructor hands back is not what the body returned, and the body
  returned nothing but `nil`. -/
  constructors : ∀ time callee given line stack closure outer completion,
    Calls (trace time) callee given line stack →
      entered? (trace time).state.heap callee = some closure → closure.isConstructor = true →
        (trace (time + 1)).stack =
            .block closure.decl.body outer :: .leaveCall completion :: stack →
          completion ≠ .ordinary ∧
            ∀ ending value, EndsAt (trace (time + 1)) (.leaveCall completion :: stack) ending →
              (trace (time + 1 + ending)).control = .returning value → value = .nil
  /-- The walk has entered every function and every method once and found nothing wrong with it,
  and it has entered it as a constructor if and only if the flag is set. -/
  flags : ∀ time closure, Keeping (trace time).state.heap closure →
    ∃ entry ∈ Scope.entries program.statements, entry.decl = closure.decl ∧
      (∀ other ∈ Scope.entries program.statements, other.decl = closure.decl → other = entry) ∧
        (Scope.walkFunction entry.context entry.decl entry.walk).faults = [] ∧
          (closure.isConstructor = true ↔ entry.context.routine = .constructor)

/-- A call that has entered a constructor does not hand back what the body returns. -/
theorem constructor_completion {machine : Machine} {callee : Value} {given : List Value} {line : Nat}
    {stack : List Task} (calls : Calls machine callee given line stack) {closure : Closure}
    (enters : entered? machine.state.heap callee = some closure)
    (constructs : closure.isConstructor = true) {outer : FrameRef} {completion : Completion}
    (inside : machine.next.stack =
      .block closure.decl.body outer :: .leaveCall completion :: stack) :
    completion ≠ .ordinary := by
  rw [calls_next calls] at inside
  rcases call_value_enters machine.state callee given line stack with
    ⟨ended, -⟩ | ⟨other, base, actual, entersOther, handed, same⟩
  · rw [ended] at inside
    have longer := congrArg List.length inside
    simp only [List.length_cons] at longer
    omega
  · cases enters.symm.trans entersOther
    rw [same] at inside
    simp only [enterCall, List.cons.injEq, Task.leaveCall.injEq] at inside
    rw [← inside.2.1]
    exact handed.2 (.inl constructs)

theorem obeys_constructor {entered : List Scope.Entry} {machine : Machine}
    (obeys : Obeys entered machine) {completion : Completion} {stack : List Task}
    (leaving : machine.stack = .leaveCall completion :: stack) (constructs : completion ≠ .ordinary)
    {value : Value} (returns : machine.control = .returning value) : value = .nil := by
  obtain ⟨routine, within, clear⟩ := obeys
  rw [leaving] at within
  rw [returns] at clear
  exact clear.2 ((within_call within).1 constructs)

/-- The rules on `return` are sound: whatever compiles keeps the promises of `ReturnsSoundly` in
every run. -/
theorem returns_sound {source : String} {program : Program}
    (compiles : Program.compile source = .ok program) (state : State) :
    ReturnsSoundly program fun time => (program.load state).run time := by
  obtain ⟨parsed, -, -, statements, resolved⟩ := compile_ok compiles
  rw [statements] at resolved
  have disciplined := run_disciplined resolved state
  have obeys := fun time => (disciplined time).obeys
  constructor
  · intro time value returns
    obtain ⟨routine, within, clear⟩ := obeys time
    rw [returns] at clear
    exact within_leaves within clear.1
  · intro time stmt rest ending value _ _ ends
    have finished := ends.finished.1
    rw [← run_add] at finished
    exact obeys_top_level (obeys _) finished value
  · intro steps stopped faultless
    have ready : (program.load state).run 0 =
        ⟨state.reset program.locals, .done .nil, [.program program.statements]⟩ := rfl
    obtain ⟨last, performs⟩ := halted_performs obeys stopped faultless ready
    exact ⟨last, performs, performs_halts stopped performs⟩
  · intro time callee given line stack closure outer completion calls enters constructs inside
    rw [run_succ] at inside
    have kept := constructor_completion calls enters constructs inside
    refine ⟨kept, fun ending value ends returns => ?_⟩
    have finished := ends.finished.1
    rw [← run_add] at finished
    exact obeys_constructor (obeys _) finished kept returns
  · intro time closure keeping
    obtain ⟨entry, member, same, -, flag⟩ := (disciplined time).flagged.closures closure keeping
    have checked := (Scope.resolve_cleared resolved).2 entry member
    refine ⟨entry, member, same, ?_, checked.clean, flag⟩
    intro other otherMember otherSame
    exact Scope.entry_unique compiles otherMember member (otherSame.trans same.symm)

def departure? : Machine → Option Completion
  | ⟨_, .returning .nil, .leaveCall completion :: _⟩ => some completion
  | _ => none

theorem departure_control {machine : Machine} {completion : Completion}
    (departs : departure? machine = some completion) :
    machine.control = .returning .nil ∧ .leaveCall completion ∈ machine.stack := by
  unfold departure? at departs
  split at departs
  next =>
    cases departs
    exact ⟨rfl, List.mem_cons_self⟩
  next => cases departs

def Control.isDone : Control → Bool
  | done _ => true
  | _ => false

/-- A function inside a constructor that returns a value, where the constructor returns none; and
a class inside a function, where the constructor returns out of a loop and the function returns
the instance. -/
def departing : String :=
  "class A \x7b A() \x7b function f() \x7b return 1; \x7d if (f()) \x7b return; \x7d \x7d \x7d " ++
    "function g() \x7b class B \x7b B() \x7b while (true) return; \x7d \x7d return B(); \x7d " ++
      "A(); g();"

theorem returns_sound_departing :
    ∃ program last, Program.compile departing = .ok program ∧
      let trace := fun time => (program.load (.fresh ⟨9, fun _ => 0⟩ .unlimited)).run time
      ReturnsSoundly program trace ∧
        ((trace 28).control = .returning .nil ∧ .leaveCall (.created ⟨0⟩) ∈ (trace 28).stack) ∧
          ((trace 48).control = .returning .nil ∧ .leaveCall (.created ⟨1⟩) ∈ (trace 48).stack) ∧
            (trace 53).halted = true ∧ Performs trace 0 program.statements last ∧ last < 53 := by
  have checked : (Program.compile departing).toOption.map (fun program =>
      let trace := fun time => (program.load (.fresh ⟨9, fun _ => 0⟩ .unlimited)).run time
      (departure? (trace 28), departure? (trace 48), (trace 53).halted, (trace 53).control.isDone)) =
        some (some (.created ⟨0⟩), some (.created ⟨1⟩), true, true) := by decide +kernel
  simp only [Option.map_eq_some_iff, Prod.mk.injEq] at checked
  rcases checked with ⟨program, compiled, first, second, stopped, isDone⟩
  have compiles := compiles_of_option compiled
  have sound := returns_sound compiles (.fresh ⟨9, fun _ => 0⟩ .unlimited)
  have faultless : ∀ fault, ((program.load (.fresh ⟨9, fun _ => 0⟩ .unlimited)).run 53).control ≠
      .failing fault := by
    intro fault failing
    rw [failing] at isDone
    cases isDone
  obtain ⟨last, performs, before, -⟩ := sound.complete 53 stopped faultless
  exact ⟨program, last, compiles, sound, departure_control first, departure_control second, stopped,
    performs, before⟩

end Quill.Machine
