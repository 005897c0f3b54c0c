import Quill.Proofs.Machine.Effects

/-!
Only calls look at the settings of an interpreter and at its output. Any other step leaves both
alone, and it is the same step under other settings and with another output.
-/

namespace Quill.Machine

set_option autoImplicit false

/-- The state of an interpreter with other settings and another output. Only calls look at either,
which is why machines in different outfits take the same steps in between. -/
def State.outfitted (settings : Settings) (sink : Sink) (state : State) : State :=
  { state with settings := settings, sink := sink }

def outfitted (settings : Settings) (sink : Sink) (machine : Machine) : Machine :=
  { machine with state := machine.state.outfitted settings sink }

section Steps

variable (settings : Settings) (sink : Sink) (state : State) (stack : List Task)

theorem deliver_outfitted (line : Nat) (result : Except Fault Value) :
    deliver (state.outfitted settings sink) line result stack =
      (deliver state line result stack).outfitted settings sink := by
  cases result <;> rfl

theorem deliver_read_outfitted (line : Nat) (result : Except Heap.AccessFault Value) :
    deliverRead (state.outfitted settings sink) line result stack =
      (deliverRead state line result stack).outfitted settings sink := by
  cases result <;> rfl

theorem evaluate_base_outfitted (id : Nat) (keyword method : Token) :
    evaluateBase (state.outfitted settings sink) id keyword method stack =
      (evaluateBase state id keyword method stack).outfitted settings sink := by
  have operands : baseOperands (state.outfitted settings sink) id = baseOperands state id := rfl
  have heap : (state.outfitted settings sink).heap = state.heap := rfl
  simp only [evaluateBase, operands, heap]
  split
  · rfl
  · split
    · rfl
    · split <;> rfl

theorem evaluate_outfitted (term : Expr) :
    evaluate (state.outfitted settings sink) term stack =
      (evaluate state term stack).outfitted settings sink := by
  cases term with
  | variableRef id name => exact deliver_read_outfitted settings sink state stack _ _
  | thisRef id keyword => exact deliver_read_outfitted settings sink state stack _ _
  | baseRef id keyword method => exact evaluate_base_outfitted settings sink state stack _ _ _
  | _ => rfl

theorem define_class_outfitted (name : Token) (parent : Option ClassRef)
    (methods : List FunctionDecl) :
    defineClass (state.outfitted settings sink) name parent methods stack =
      (defineClass state name parent methods stack).outfitted settings sink := by
  cases parent <;> rfl

theorem execute_outfitted (clause : Stmt) :
    execute (state.outfitted settings sink) clause stack =
      (execute state clause stack).outfitted settings sink := by
  cases clause with
  | varDecl name initializer => cases initializer <;> rfl
  | classDecl name base methods =>
      cases base with
      | none => exact define_class_outfitted settings sink state stack name none methods
      | some base => rfl
  | returnStmt keyword value => cases value <;> rfl
  | _ => rfl

theorem resume_outfitted (value : Value) (task : Task)
    (noCall : ∀ callee given line,
      ¬ Calls ⟨state, .done value, task :: stack⟩ callee given line stack) :
    resume (state.outfitted settings sink) value task stack =
      (resume state value task stack).outfitted settings sink := by
  have heap : (state.outfitted settings sink).heap = state.heap := rfl
  cases task with
  | callee paren given =>
      cases given with
      | nil => exact absurd .bare (noCall _ _ _)
      | cons first others => rfl
  | argument callee evaluated paren remaining =>
      cases remaining with
      | nil => exact absurd .last (noCall _ _ _)
      | cons first others => rfl
  | unary operator => exact deliver_outfitted settings sink state stack _ _
  | rightOperand left operator => exact deliver_outfitted settings sink state stack _ _
  | logical operator right =>
      simp only [resume]
      split <;> rfl
  | assign id name =>
      have slot : (state.outfitted settings sink).slot id name.lexeme =
          state.slot id name.lexeme := rfl
      simp only [resume, slot]
      split <;> rfl
  | getProperty name =>
      cases value with
      | instanceRef receiver =>
          simp only [resume, heap]
          split <;> rfl
      | _ => rfl
  | setObject name expr => cases value <;> rfl
  | classBase name base methods =>
      cases value with
      | classRef parent =>
          exact define_class_outfitted settings sink state stack name (some parent) methods
      | _ => rfl
  | branch thenBranch elseBranch =>
      simp only [resume]
      split
      · rfl
      · split <;> rfl
  | loopTest condition body =>
      simp only [resume]
      split <;> rfl
  | block remaining outer => cases remaining <;> rfl
  | leaveCall completion => cases completion <;> rfl
  | program remaining => cases remaining <;> rfl
  | _ => rfl

theorem release_outfitted (task : Task) :
    task.release (state.outfitted settings sink) =
      (task.release state).outfitted settings sink := by
  cases task <;> rfl

theorem unwind_outfitted (value : Value) (task : Task) :
    unwindReturn (state.outfitted settings sink) value task stack =
      (unwindReturn state value task stack).outfitted settings sink := by
  cases task with
  | leaveCall completion => cases completion <;> rfl
  | _ => rfl

end Steps

def Calling (machine : Machine) : Prop :=
  ∃ callee given line stack, Calls machine callee given line stack

theorem calls_outfitted {machine : Machine} {callee : Value} {given : List Value} {line : Nat}
    {stack : List Task} (calls : Calls machine callee given line stack) (settings : Settings)
    (sink : Sink) : Calls (machine.outfitted settings sink) callee given line stack := by
  cases calls with
  | bare => exact .bare
  | last => exact .last

theorem next_outfitted {machine : Machine} (noCall : ¬ Calling machine) (settings : Settings)
    (sink : Sink) :
    (machine.outfitted settings sink).next = machine.next.outfitted settings sink := by
  rcases machine with ⟨state, control, stack⟩
  cases control with
  | evaluate term => exact evaluate_outfitted settings sink state stack term
  | execute clause => exact execute_outfitted settings sink state stack clause
  | done value =>
      cases stack with
      | nil => rfl
      | cons task stack =>
          exact resume_outfitted settings sink state stack value task fun callee given line calls =>
            noCall ⟨callee, given, line, stack, calls⟩
  | returning value =>
      cases stack with
      | nil => rfl
      | cons task stack => exact unwind_outfitted settings sink state stack value task
  | failing fault =>
      cases stack with
      | nil => rfl
      | cons task stack =>
          exact congrArg (Machine.mk · (.failing fault) stack)
            (release_outfitted settings sink state task)

/-- A machine is in its own outfit, and so is the next one. -/
theorem next_outfit {machine : Machine} (noCall : ¬ Calling machine) :
    machine.next.state.settings = machine.state.settings ∧
      machine.next.state.sink = machine.state.sink := by
  have same := next_outfitted noCall machine.state.settings machine.state.sink
  have own : machine.outfitted machine.state.settings machine.state.sink = machine := rfl
  rw [own] at same
  rw [same]
  exact ⟨rfl, rfl⟩

end Quill.Machine
