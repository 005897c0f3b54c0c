import Quill.Proofs.Machine.Known

/-!
How a call ends. A step works on the topmost task only, so the stack below a call that is going
on is left alone. The call ends when its own task is taken off the stack: it has failed, or it
hands back what its completion says.
-/

namespace Quill.Machine

set_option autoImplicit false

variable {completion : Completion} {stack : List Task} {machine : Machine}

def Above (stack : List Task) (machine : Machine) : Prop :=
  ∃ task tasks, machine.stack = task :: tasks ++ stack

/-- The task that leaves a call waits on the stack of its caller. As long as it does, the call is
going on, and what is done belongs to it. -/
def Pending (completion : Completion) (stack : List Task) (machine : Machine) : Prop :=
  ∃ tasks, machine.stack = tasks ++ .leaveCall completion :: stack

theorem pending_above (pending : Pending completion stack machine) : Above stack machine := by
  rcases pending with ⟨tasks, same⟩
  cases tasks with
  | nil => exact ⟨_, [], same⟩
  | cons task tasks =>
      refine ⟨task, tasks ++ [.leaveCall completion], ?_⟩
      rw [same]
      simp

theorem pending_pushed (pushed : List Task) (tasks : List Task)
    (same : machine.stack = pushed ++ (tasks ++ .leaveCall completion :: stack)) :
    Pending completion stack machine :=
  ⟨pushed ++ tasks, by rw [same, List.append_assoc]⟩

theorem evaluate_stack (state : State) (term : Expr) (stack : List Task) :
    ∃ pushed, (evaluate state term stack).stack = pushed ++ stack := by
  have reads : ∀ line id name, (deliverRead state line (state.read id name) stack).stack = stack := by
    intro line id name
    unfold deliverRead
    split <;> rfl
  cases term with
  | literal id value => exact ⟨[], rfl⟩
  | grouping id inner => exact ⟨[], rfl⟩
  | variableRef id name => exact ⟨[], reads _ _ _⟩
  | thisRef id keyword => exact ⟨[], reads _ _ _⟩
  | baseRef id keyword name =>
      have outcome := evaluate_base_outcome state id keyword name stack
      simp only [evaluate]
      generalize evaluateBase state id keyword name stack = machine at outcome ⊢
      cases outcome <;> exact ⟨[], rfl⟩
  | _ => exact ⟨[_], rfl⟩

theorem execute_stack (state : State) (clause : Stmt) (stack : List Task) :
    ∃ pushed, (execute state clause stack).stack = pushed ++ stack := by
  cases clause with
  | expression expr => exact ⟨[], rfl⟩
  | varDecl name initializer =>
      cases initializer with
      | none => exact ⟨[], rfl⟩
      | some initializer => exact ⟨[_], rfl⟩
  | functionDecl decl => exact ⟨[], rfl⟩
  | classDecl name base methods =>
      cases base with
      | none => exact ⟨[], rfl⟩
      | some base => exact ⟨[_], rfl⟩
  | returnStmt keyword value =>
      cases value with
      | none => exact ⟨[], rfl⟩
      | some value => exact ⟨[_], rfl⟩
  | _ => exact ⟨[_], rfl⟩

/-- The function that a call of a value enters. -/
def entered? (heap : Heap) : Value → Option Closure
  | .functionRef ref => heap.function? ref
  | .classRef ref => (heap.constructor? ref).map heap.boundMethod
  | _ => none

/-- A call is over at once, or it enters its function. A call of a class or of a constructor does
not hand back what the function returns. -/
theorem call_value_enters (state : State) (callee : Value) (given : List Value) (line : Nat)
    (stack : List Task) :
    ((callValue state callee given line stack).stack = stack ∧
      ((∃ value, (callValue state callee given line stack).control = .done value) ∨
        ∃ fault, (callValue state callee given line stack).control = .failing fault)) ∨
      ∃ closure base completion, entered? state.heap callee = some closure ∧
        (completion ≠ .ordinary ↔ closure.isConstructor = true ∨ ∃ ref, callee = .classRef ref) ∧
          callValue state callee given line stack =
            enterCall base closure given completion stack := by
  have outcome := call_value_outcome state given line stack callee
  generalize callValue state callee given line stack = machine at outcome ⊢
  cases outcome with
  | uncallable => exact .inl ⟨rfl, .inr ⟨_, rfl⟩⟩
  | refused => exact .inl ⟨rfl, .inr ⟨_, rfl⟩⟩
  | unprinted => exact .inl ⟨rfl, .inr ⟨_, rfl⟩⟩
  | @entered ref closure found =>
      refine .inr ⟨closure, _, _, found, ?_, rfl⟩
      cases closure.isConstructor <;> simp
  | constructed found =>
      refine .inr ⟨_, _, _, ?_, ?_, rfl⟩
      · simp [entered?, found]
      · simp
  | _ => exact .inl ⟨rfl, .inl ⟨_, rfl⟩⟩

theorem call_value_stack (state : State) (callee : Value) (given : List Value) (line : Nat)
    (stack : List Task) :
    ∃ pushed, (callValue state callee given line stack).stack = pushed ++ stack := by
  rcases call_value_enters state callee given line stack with
    ⟨ended, -⟩ | ⟨closure, base, completion, -, -, same⟩
  · exact ⟨[], ended⟩
  · rw [same]
    exact ⟨[_, _], rfl⟩

theorem resume_stack (state : State) (value : Value) (task : Task) (stack : List Task) :
    ∃ pushed, (resume state value task stack).stack = pushed ++ stack := by
  have outcome := resume_outcome state stack value task
  generalize resume state value task stack = machine at outcome ⊢
  cases outcome with
  | bareCall => exact call_value_stack _ _ _ _ _
  | lastCall => exact call_value_stack _ _ _ _ _
  | left | firstArgument | nextArgument | setObject | turn | again | blockNext | programNext =>
      exact ⟨[_], rfl⟩
  | _ => exact ⟨[], rfl⟩

theorem unwind_stack (state : State) (value : Value) (task : Task) (stack : List Task) :
    (unwindReturn state value task stack).stack = stack := by
  cases task <;> rfl

/-- The call has been left: it has failed, or it hands something back to its caller. -/
structure Left (completion : Completion) (stack : List Task) (heap : Heap) (machine : Machine) :
    Prop where
  ended : machine.stack = stack
  kept : machine.state.heap = heap
  outcome : (∃ fault, machine.control = .failing fault) ∨
    ∃ value, machine.control = .done (completion.result heap value)

theorem pending_next (pending : Pending completion stack machine) :
    Pending completion stack machine.next ∨
      Left completion stack machine.state.heap machine.next := by
  rcases pending with ⟨tasks, same⟩
  rcases machine with ⟨state, control, whole⟩
  simp only at same
  subst same
  cases control with
  | evaluate term =>
      obtain ⟨pushed, same⟩ := evaluate_stack state term (tasks ++ .leaveCall completion :: stack)
      exact .inl (pending_pushed pushed tasks same)
  | execute clause =>
      obtain ⟨pushed, same⟩ := execute_stack state clause (tasks ++ .leaveCall completion :: stack)
      exact .inl (pending_pushed pushed tasks same)
  | done value =>
      cases tasks with
      | nil => exact .inr ⟨rfl, rfl, .inr ⟨.nil, rfl⟩⟩
      | cons task tasks =>
          obtain ⟨pushed, same⟩ :=
            resume_stack state value task (tasks ++ .leaveCall completion :: stack)
          exact .inl (pending_pushed pushed tasks same)
  | returning value =>
      cases tasks with
      | nil => exact .inr ⟨rfl, rfl, .inr ⟨value, rfl⟩⟩
      | cons task tasks =>
          exact .inl (pending_pushed [] tasks
            (unwind_stack state value task (tasks ++ .leaveCall completion :: stack)))
  | failing fault =>
      cases tasks with
      | nil => exact .inr ⟨rfl, rfl, .inl ⟨fault, rfl⟩⟩
      | cons task tasks => exact .inl (pending_pushed [] tasks rfl)

/-- `Yields trace time stack good`: the call that is made at the time, for a caller with this
stack, goes on above the stack as long as it lasts, and it ends with a fault or well. -/
def Yields (trace : Nat → Machine) (time : Nat) (stack : List Task) (good : Machine → Prop) : Prop :=
  ∀ later, time < later →
    (∀ moment, time < moment → moment ≤ later → Above stack (trace moment)) ∨
      ∃ ending, time < ending ∧ ending ≤ later ∧
        (∀ moment, time < moment → moment < ending → Above stack (trace moment)) ∧
          (trace ending).stack = stack ∧
            ((∃ fault, (trace ending).control = .failing fault) ∨ good (trace ending))

theorem yields_at_once {trace : Nat → Machine} {time : Nat} {good : Machine → Prop}
    (ended : (trace (time + 1)).stack = stack)
    (outcome : (∃ fault, (trace (time + 1)).control = .failing fault) ∨ good (trace (time + 1))) :
    Yields trace time stack good := by
  intro later after
  refine .inr ⟨time + 1, Nat.lt_succ_self time, after, ?_, ended, outcome⟩
  intro moment isAfter isBefore
  omega

/-- The induction is on the time: up to each time the call is pending, or it was left before. -/
theorem pending_yields {trace : Nat → Machine} (steps : ∀ time, trace (time + 1) = (trace time).next)
    {time : Nat} {good : Machine → Prop} (pending : Pending completion stack (trace (time + 1)))
    (well : ∀ moment value, time < moment →
      (trace (moment + 1)).state.heap = (trace moment).state.heap →
        (trace (moment + 1)).control = .done (completion.result (trace moment).state.heap value) →
          good (trace (moment + 1))) : Yields trace time stack good := by
  have progress : ∀ later, time < later →
      (∀ moment, time < moment → moment ≤ later → Pending completion stack (trace moment)) ∨
        ∃ ending, time < ending ∧ ending ≤ later ∧
          (∀ moment, time < moment → moment < ending → Pending completion stack (trace moment)) ∧
            (trace ending).stack = stack ∧
              ((∃ fault, (trace ending).control = .failing fault) ∨ good (trace ending)) := by
    intro later after
    induction after with
    | refl =>
        left
        intro moment isAfter upTo
        have same : moment = time + 1 := by omega
        rw [same]
        exact pending
    | @step later after induction =>
        rcases induction with going | ⟨ending, isAfter, upTo, going, ended, outcome⟩
        · have now := going later after (Nat.le_refl later)
          rcases pending_next now with still | left
          · left
            intro moment isAfter upTo
            by_cases last : moment = later + 1
            · rw [last, steps]
              exact still
            · exact going moment isAfter (by omega)
          · rw [← steps] at left
            refine .inr ⟨later + 1, Nat.lt_succ_of_lt after, Nat.le_refl _, ?_, left.ended, ?_⟩
            · intro moment isAfter isBefore
              exact going moment isAfter (Nat.le_of_lt_succ isBefore)
            · rcases left.outcome with failed | ⟨value, delivered⟩
              · exact .inl failed
              · exact .inr (well later value after left.kept delivered)
        · exact .inr ⟨ending, isAfter, Nat.le_succ_of_le upTo, going, ended, outcome⟩
  intro later after
  rcases progress later after with going | ⟨ending, isAfter, upTo, going, ended, outcome⟩
  · exact .inl fun moment isAfter upTo => pending_above (going moment isAfter upTo)
  · exact .inr ⟨ending, isAfter, upTo,
      fun moment isAfter isBefore => pending_above (going moment isAfter isBefore), ended, outcome⟩

end Quill.Machine
