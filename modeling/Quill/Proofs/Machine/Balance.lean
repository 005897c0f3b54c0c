import Quill.Proofs.Machine.Known
import Quill.Proofs.Tree.Formed

/-!
Every piece of work gives back what it borrowed. A block borrows the place of the present
frame and a call one level of depth, and the task that waits on the stack for their end owes
it back. So the state at any time differs from the state at the start of the work by what
the tasks above its stack owe, and when the work has ended, normally, by a `return` or by a
fault, no such task is left.
-/

namespace Quill.Machine

set_option autoImplicit false

/-- What no step changes, and the output, which steps only add to. All else that an interpreter has,
a piece of work gives back or leaves on the heap. -/
structure Persists (before after : State) : Prop where
  settings : after.settings = before.settings
  wording : after.wording = before.wording
  globals : after.globals = before.globals
  locals : after.locals = before.locals
  output : ∃ printed, after.sink = { before.sink with stored := before.sink.stored ++ printed }

theorem Persists.refl (state : State) : Persists state state :=
  ⟨rfl, rfl, rfl, rfl, .empty, by rw [ByteArray.append_empty]⟩

theorem Persists.trans {before middle after : State} (first : Persists before middle)
    (second : Persists middle after) : Persists before after := by
  obtain ⟨early, earlySink⟩ := first.output
  obtain ⟨late, lateSink⟩ := second.output
  refine ⟨second.settings.trans first.settings, second.wording.trans first.wording,
    second.globals.trans first.globals, second.locals.trans first.locals, early ++ late, ?_⟩
  rw [lateSink, earlySink, ByteArray.append_assoc]

theorem persists_heap (state : State) (heap : Heap) : Persists state { state with heap := heap } :=
  { Persists.refl state with }

theorem persists_write (state : State) (bytes : ByteArray) : Persists state (state.write bytes) :=
  ⟨rfl, rfl, rfl, rfl, _, rfl⟩

theorem persists_release (task : Task) (state : State) : Persists state (task.release state) := by
  cases task <;> exact { Persists.refl state with }

def Task.isCall : Task → Bool
  | leaveCall _ => true
  | _ => false

def outermost (tasks : List Task) (frame : FrameRef) : FrameRef :=
  tasks.foldl (fun frame task => task.outer frame) frame

def openCalls (tasks : List Task) : Nat := tasks.countP Task.isCall

/-- `Owes before stack tasks machine`: the tasks above the stack owe what the machine has
borrowed since it was in the state `before`. -/
structure Owes (before : State) (stack tasks : List Task) (machine : Machine) : Prop where
  above : machine.stack = tasks ++ stack
  environment : outermost tasks machine.state.environment = before.environment
  depth : machine.state.depth = before.depth + openCalls tasks
  limited : before.depth ≤ before.settings.maxCallDepth →
    machine.state.depth ≤ before.settings.maxCallDepth
  persists : Persists before machine.state

def Balanced (before : State) (stack : List Task) (machine : Machine) : Prop :=
  ∃ tasks, Owes before stack tasks machine

theorem owes_release {before state : State} {stack tasks whole : List Task} {task : Task}
    {control : Control} (owes : Owes before stack (task :: tasks) ⟨state, control, whole⟩)
    (other : Control) : Owes before stack tasks ⟨task.release state, other, tasks ++ stack⟩ := by
  have persists := owes.persists.trans (persists_release task state)
  have depth : state.depth = before.depth + openCalls (task :: tasks) := owes.depth
  have counted : openCalls (task :: tasks) = openCalls tasks + if task.isCall then 1 else 0 :=
    List.countP_cons
  have released : (task.release state).depth = state.depth - if task.isCall then 1 else 0 := by
    cases task <;> rfl
  refine ⟨rfl, ?_, ?_, fun within => ?_, persists⟩
  · rw [← owes.environment]
    cases task <;> rfl
  · simp only [released]
    omega
  · have below : state.depth ≤ before.settings.maxCallDepth := owes.limited within
    simp only [released]
    omega

theorem owes_borrow {before middle : State} {stack tasks whole : List Task} {control : Control}
    {machine : Machine} (owes : Owes before stack tasks ⟨middle, control, whole⟩)
    (balanced : Balanced middle (tasks ++ stack) machine) : Balanced before stack machine := by
  obtain ⟨pushed, more⟩ := balanced
  have settings : middle.settings = before.settings := owes.persists.settings
  refine ⟨pushed ++ tasks, ?_, ?_, ?_, fun within => ?_, owes.persists.trans more.persists⟩
  · rw [more.above, List.append_assoc]
  · have joined : outermost (pushed ++ tasks) machine.state.environment =
        outermost tasks (outermost pushed machine.state.environment) := List.foldl_append
    rw [joined, more.environment]
    exact owes.environment
  · have counted : openCalls (pushed ++ tasks) = openCalls pushed + openCalls tasks :=
      List.countP_append
    have early : middle.depth = before.depth + openCalls tasks := owes.depth
    have late := more.depth
    omega
  · rw [← settings]
    apply more.limited
    rw [settings]
    exact owes.limited within

section Steps

variable (state : State) (stack : List Task)

/-- Tasks that neither restore a frame nor leave a call owe nothing. -/
theorem balanced_push (control : Control) (pushed : List Task)
    (sameFrame : ∀ frame, outermost pushed frame = frame) (noCalls : openCalls pushed = 0) :
    Balanced state stack ⟨state, control, pushed ++ stack⟩ :=
  ⟨pushed, rfl, sameFrame _, by simp [noCalls], id, .refl state⟩

theorem balanced_heap (heap : Heap) (control : Control) :
    Balanced state stack ⟨{ state with heap := heap }, control, stack⟩ :=
  ⟨[], rfl, rfl, rfl, id, persists_heap state heap⟩

theorem balanced_deliver_read (line : Nat) (result : Except Heap.AccessFault Value) :
    Balanced state stack (deliverRead state line result stack) := by
  cases result <;> exact balanced_push state stack _ [] (fun _ => rfl) rfl

theorem evaluate_balanced (term : Expr) : Balanced state stack (evaluate state term stack) := by
  cases term with
  | literal id value => exact balanced_push state stack _ [] (fun _ => rfl) rfl
  | grouping id inner => exact balanced_push state stack _ [] (fun _ => rfl) rfl
  | variableRef id name => exact balanced_deliver_read state stack _ _
  | thisRef id keyword => exact balanced_deliver_read state stack _ _
  | baseRef id keyword name =>
      have outcome := evaluate_base_outcome state id keyword name stack
      simp only [evaluate]
      generalize evaluateBase state id keyword name stack = machine at outcome ⊢
      cases outcome with
      | bound => exact balanced_heap state stack _ _
      | _ => exact balanced_push state stack _ [] (fun _ => rfl) rfl
  | _ => exact balanced_push state stack _ [_] (fun _ => rfl) rfl

theorem define_class_balanced (name : Token) (parent : Option ClassRef)
    (methods : List FunctionDecl) :
    Balanced state stack (defineClass state name parent methods stack) := by
  cases parent <;> exact balanced_heap state stack _ _

theorem execute_balanced (clause : Stmt) : Balanced state stack (execute state clause stack) := by
  cases clause with
  | expression expr => exact balanced_push state stack _ [] (fun _ => rfl) rfl
  | varDecl name initializer =>
      cases initializer with
      | none => exact balanced_heap state stack _ _
      | some initializer => exact balanced_push state stack _ [_] (fun _ => rfl) rfl
  | functionDecl decl => exact balanced_heap state stack _ _
  | classDecl name base methods =>
      cases base with
      | none => exact define_class_balanced state stack name none methods
      | some base => exact balanced_push state stack _ [_] (fun _ => rfl) rfl
  | block body => exact ⟨[_], rfl, rfl, rfl, id, { Persists.refl state with }⟩
  | returnStmt keyword value =>
      cases value with
      | none => exact balanced_push state stack _ [] (fun _ => rfl) rfl
      | some value => exact balanced_push state stack _ [_] (fun _ => rfl) rfl
  | _ => exact balanced_push state stack _ [_] (fun _ => rfl) rfl

theorem enter_call_balanced (heap : Heap) (closure : Closure) (given : List Value)
    (completion : Completion) (room : state.depth < state.settings.maxCallDepth) :
    Balanced state stack (enterCall { state with heap := heap } closure given completion stack) :=
  ⟨[_, _], rfl, rfl, rfl, fun _ => room, { Persists.refl state with }⟩

theorem call_value_balanced (callee : Value) (given : List Value) (line : Nat) :
    Balanced state stack (callValue state callee given line stack) := by
  have outcome := call_value_outcome state given line stack callee
  generalize callValue state callee given line stack = machine at outcome ⊢
  cases outcome with
  | uncallable => exact balanced_push state stack _ [] (fun _ => rfl) rfl
  | refused => exact balanced_push state stack _ [] (fun _ => rfl) rfl
  | printed => exact ⟨[], rfl, rfl, rfl, id, persists_write state _⟩
  | unprinted => exact ⟨[], rfl, rfl, rfl, id, persists_write state _⟩
  | timed => exact ⟨[], rfl, rfl, rfl, id, { Persists.refl state with }⟩
  | entered found allowed =>
      exact enter_call_balanced state stack _ _ _ _ (refusal_none_iff.1 allowed).2
  | created => exact balanced_heap state stack _ _
  | constructed found allowed =>
      exact enter_call_balanced state stack _ _ _ _ (refusal_none_iff.1 allowed).2

theorem resume_balanced (value : Value) (task : Task) :
    Balanced (task.release state) stack (resume state value task stack) := by
  have outcome := resume_outcome state stack value task
  generalize resume state value task stack = machine at outcome ⊢
  cases outcome with
  | bareCall => exact call_value_balanced state stack _ _ _
  | lastCall => exact call_value_balanced state stack _ _ _
  | assigned => exact balanced_heap state stack _ _
  | bound => exact balanced_heap state stack _ _
  | setField => exact balanced_heap state stack _ _
  | declared => exact balanced_heap state stack _ _
  | derived => exact define_class_balanced state stack _ _ _
  | left | firstArgument | nextArgument | setObject | turn | again | programNext =>
      exact balanced_push state stack _ [_] (fun _ => rfl) rfl
  | @blockEnds _ outer =>
      exact balanced_push (Task.release (.block [] outer) state) stack _ [] (fun _ => rfl) rfl
  | blockNext => exact ⟨[_], rfl, rfl, rfl, id, { Persists.refl state with }⟩
  | @callEnds _ completion =>
      exact balanced_push (Task.release (.leaveCall completion) state) stack _ [] (fun _ => rfl) rfl
  | _ => exact balanced_push state stack _ [] (fun _ => rfl) rfl

theorem unwind_balanced (value : Value) (task : Task) :
    Balanced (task.release state) stack (unwindReturn state value task stack) := by
  cases task <;> exact balanced_push (Task.release _ state) stack _ [] (fun _ => rfl) rfl

end Steps

/-- No step changes anything but the heap, the frame in use, the depth and the readings of the
clock, and to the output it only adds. -/
theorem next_persists (machine : Machine) : Persists machine.state machine.next.state := by
  rcases machine with ⟨state, control, stack⟩
  cases control with
  | evaluate term =>
      obtain ⟨_, owes⟩ := evaluate_balanced state stack term
      exact owes.persists
  | execute clause =>
      obtain ⟨_, owes⟩ := execute_balanced state stack clause
      exact owes.persists
  | done value =>
      cases stack with
      | nil => exact .refl state
      | cons task stack =>
          obtain ⟨_, owes⟩ := resume_balanced state stack value task
          exact (persists_release task state).trans owes.persists
  | returning value =>
      cases stack with
      | nil => exact .refl state
      | cons task stack =>
          obtain ⟨_, owes⟩ := unwind_balanced state stack value task
          exact (persists_release task state).trans owes.persists
  | failing fault =>
      cases stack with
      | nil => exact .refl state
      | cons task stack => exact persists_release task state

theorem run_persists (machine : Machine) (steps : Nat) :
    Persists machine.state (machine.run steps).state := by
  induction steps with
  | zero => exact .refl machine.state
  | succ steps induction =>
      rw [run_succ]
      exact induction.trans (next_persists _)

def Control.isOutcome : Control → Bool
  | evaluate _ | execute _ => false
  | done _ | returning _ | failing _ => true

def Finished (stack : List Task) (machine : Machine) : Prop :=
  machine.stack = stack ∧ machine.control.isOutcome = true

/-- As long as the work has not ended, a step keeps the balance. What goes on in the place of a task
pays for it first, and then borrows anew. -/
theorem balanced_next {before : State} {stack : List Task} {machine : Machine}
    (balanced : Balanced before stack machine) (going : ¬ Finished stack machine) :
    Balanced before stack machine.next := by
  obtain ⟨tasks, owes⟩ := balanced
  rcases machine with ⟨state, control, whole⟩
  have above : whole = tasks ++ stack := owes.above
  subst above
  cases control with
  | evaluate term => exact owes_borrow owes (evaluate_balanced state _ term)
  | execute clause => exact owes_borrow owes (execute_balanced state _ clause)
  | done value =>
      cases tasks with
      | nil => exact absurd ⟨rfl, rfl⟩ going
      | cons task tasks =>
          have paid := owes_release owes (.done value)
          exact owes_borrow paid (resume_balanced state _ value task)
  | returning value =>
      cases tasks with
      | nil => exact absurd ⟨rfl, rfl⟩ going
      | cons task tasks =>
          have paid := owes_release owes (.done value)
          exact owes_borrow paid (unwind_balanced state _ value task)
  | failing fault =>
      cases tasks with
      | nil => exact absurd ⟨rfl, rfl⟩ going
      | cons task tasks => exact ⟨tasks, owes_release owes (.failing fault)⟩

theorem balanced_run {before : State} {stack : List Task} {machine : Machine}
    (balanced : Balanced before stack machine) (steps : Nat)
    (going : ∀ moment < steps, ¬ Finished stack (machine.run moment)) :
    Balanced before stack (machine.run steps) := by
  induction steps with
  | zero => exact balanced
  | succ steps induction =>
      rw [run_succ]
      apply balanced_next
      · exact induction fun moment before => going moment (Nat.lt_succ_of_lt before)
      · exact going steps (Nat.lt_succ_self steps)

theorem finished_nil_iff (machine : Machine) : Finished [] machine ↔ machine.halted = true := by
  rcases machine with ⟨state, control, stack⟩
  cases control <;> cases stack <;> simp [Finished, halted, Control.isOutcome]

/-- What the machine can be asked to do: to evaluate an expression, to execute a statement, to
execute statements in a frame, to call a value, and to run a program. -/
inductive Work where
  | evaluate (expr : Expr)
  | execute (stmt : Stmt)
  | block (statements : List Stmt) (frame : FrameRef)
  | call (callee : Value) (given : List Value) (line : Nat)
  | program (statements : List Stmt)

def Work.start (work : Work) (state : State) (stack : List Task) : Machine :=
  match work with
  | evaluate expr => ⟨state, .evaluate expr, stack⟩
  | execute stmt => ⟨state, .execute stmt, stack⟩
  | block statements frame =>
      ⟨{ state with environment := frame }, .done .nil,
        .block statements state.environment :: stack⟩
  | call callee given line => callValue state callee given line stack
  | program statements => ⟨state, .done .nil, .program statements :: stack⟩

theorem start_balanced (work : Work) (state : State) (stack : List Task) :
    Balanced state stack (work.start state stack) := by
  cases work with
  | evaluate expr => exact balanced_push state stack _ [] (fun _ => rfl) rfl
  | execute stmt => exact balanced_push state stack _ [] (fun _ => rfl) rfl
  | block statements frame => exact ⟨[_], rfl, rfl, rfl, id, { Persists.refl state with }⟩
  | call callee given line => exact call_value_balanced state stack callee given line
  | program statements => exact balanced_push state stack _ [_] (fun _ => rfl) rfl

structure EndsAt (machine : Machine) (stack : List Task) (ending : Nat) : Prop where
  finished : Finished stack (machine.run ending)
  first : ∀ moment < ending, ¬ Finished stack (machine.run moment)

/-- After the work all that is not on the heap is as it was before, but for what was printed and
how often the clock was read. -/
structure Restored (before after : State) : Prop where
  environment : after.environment = before.environment
  depth : after.depth = before.depth
  persists : Persists before after

theorem finished_restored {before : State} {stack : List Task} {machine : Machine}
    (balanced : Balanced before stack machine) (finished : Finished stack machine) :
    Restored before machine.state := by
  obtain ⟨tasks, owes⟩ := balanced
  have none : tasks = [] := by
    have above := owes.above
    rw [finished.1] at above
    exact List.append_left_eq_self.1 above.symm
  subst none
  exact ⟨owes.environment, owes.depth, owes.persists⟩

theorem call_value_refused {state : State} {callee : Value} {given : List Value}
    (takes : arity? state.heap callee = some given.length)
    (full : state.settings.maxCallDepth ≤ state.depth) (line : Nat) (stack : List Task) :
    callValue state callee given line stack = fail state line .stackOverflow stack := by
  have refused : state.refusal? given.length given.length = some .stackOverflow := by
    simp [State.refusal?, full]
  cases callee with
  | functionRef ref =>
      obtain ⟨closure, found, arity⟩ := Option.map_eq_some_iff.1 takes
      simp only [callValue, found, callFunction, arity, refused]
  | nativeRef ref =>
      obtain ⟨native, found, arity⟩ := Option.map_eq_some_iff.1 takes
      simp only [callValue, found, callNative, arity, refused]
  | classRef ref =>
      have arity : state.heap.classArity ref = given.length := Option.some.inj takes
      simp only [callValue, callClass, arity, refused]
  | _ => cases takes

/-- Whatever work the machine does in whatever state and above whatever stack: when it has
ended, the frame, the depth and all that is fixed are as before and the output has only grown;
the depth has been within its limit all the time; and a call at the limit is refused with
nothing changed. -/
theorem control_restored (state : State) (within : state.depth ≤ state.settings.maxCallDepth)
    (work : Work) (stack : List Task) :
    (∀ ending, EndsAt (work.start state stack) stack ending →
      Restored state ((work.start state stack).run ending).state) ∧
    (∀ moment, (∀ earlier < moment, ¬ Finished stack ((work.start state stack).run earlier)) →
      ((work.start state stack).run moment).state.depth ≤ state.settings.maxCallDepth) ∧
    Fault.stackOverflow.message = "Stack overflow." ∧
    ∀ (now : State) (callee : Value) (given : List Value) (line : Nat) (below : List Task),
      arity? now.heap callee = some given.length → now.settings.maxCallDepth ≤ now.depth →
        (Work.call callee given line).start now below =
          ⟨now, .failing ⟨line, .stackOverflow⟩, below⟩ ∧
        ∀ machine, machine.state = now → Calls machine callee given line below →
          machine.next = ⟨now, .failing ⟨line, .stackOverflow⟩, below⟩ := by
  have balanced := start_balanced work state stack
  refine ⟨?_, ?_, rfl, ?_⟩
  · intro ending ends
    exact finished_restored (balanced_run balanced ending ends.first) ends.finished
  · intro moment going
    obtain ⟨tasks, owes⟩ := balanced_run balanced moment going
    exact owes.limited within
  · intro now callee given line below takes full
    have refused := call_value_refused takes full line below
    refine ⟨refused, ?_⟩
    intro machine same calls
    rw [calls_next calls, same, refused]
    rfl

def deep : String := "function f(n) \x7b \x7b print(n); return f(n + 1); \x7d \x7d f(0);"

def shallow (program : Program) : Machine := program.load (.fresh ⟨2, fun _ => 0⟩ .unlimited)

theorem control_restored_deep :
    ∃ program, Program.compile deep = .ok program ∧
      (shallow program).state.depth ≤ (shallow program).state.settings.maxCallDepth ∧
      EndsAt (shallow program) [] 46 ∧ ((shallow program).run 32).state.depth = 2 ∧
      ((shallow program).run 46).state.sink.stored.data = #[48, 10] ∧
      Restored (shallow program).state ((shallow program).run 46).state := by
  have checked : (Program.compile deep).toOption.map (fun program =>
      (((shallow program).run 46).halted,
        (List.range 46).all (fun moment => !((shallow program).run moment).halted),
        ((shallow program).run 32).state.depth,
        ((shallow program).run 46).state.sink.stored.data)) = some (true, true, 2, #[48, 10]) := by
    decide +kernel
  obtain ⟨program, compiled, facts⟩ := Option.map_eq_some_iff.1 checked
  simp only [Prod.mk.injEq, List.all_eq_true, List.mem_range, Bool.not_eq_true'] at facts
  obtain ⟨stopped, first, deepest, printed⟩ := facts
  have ends : EndsAt (shallow program) [] 46 := by
    refine ⟨(finished_nil_iff _).2 stopped, fun moment before finished => ?_⟩
    have halted := (finished_nil_iff _).1 finished
    rw [first moment before] at halted
    cases halted
  have within : (shallow program).state.depth ≤ (shallow program).state.settings.maxCallDepth :=
    Nat.zero_le 2
  have restored := control_restored (shallow program).state within (.program program.statements) []
  exact ⟨program, compiles_of_option compiled, within, ends, deepest, printed, restored.1 46 ends⟩

end Quill.Machine
