import Quill.Proofs.Machine.Lineage

/-!
Frames that stay empty. A frame gets its bindings from the declarations that run while it is
the present one, and an assignment overwrites what is bound already. So if nothing that is
still to run in a frame declares a name there, a frame without bindings stays without them.
-/

namespace Quill

set_option autoImplicit false

/-- A statement that declares nothing in the frame that it runs in. Its blocks have frames of
their own. -/
def Stmt.Undeclaring : Stmt → Prop
  | .varDecl _ _ | .functionDecl _ | .classDecl _ _ _ => False
  | .ifThen _ thenBranch => thenBranch.Undeclaring
  | .ifElse _ thenBranch elseBranch => thenBranch.Undeclaring ∧ elseBranch.Undeclaring
  | .whileLoop _ body => body.Undeclaring
  | .expression _ | .block _ | .returnStmt _ _ => True

/-- Where branches and bodies are statements, only a declaration declares. -/
theorem undeclaring_of_formed {Allowed : Token → Prop} : (stmt : Stmt) →
    Node.AllWellFormed Allowed stmt.nodes → stmt.declared? = none → stmt.Undeclaring
  | .varDecl _ _, _, declared | .functionDecl _, _, declared | .classDecl _ _ _, _, declared => by
      cases declared
  | .ifThen _ thenBranch, formed, _ => by
      simp only [Stmt.nodes, Node.all_well_formed_cons, Node.all_well_formed_append] at formed
      exact undeclaring_of_formed thenBranch formed.2.2 formed.1
  | .ifElse _ thenBranch elseBranch, formed, _ => by
      simp only [Stmt.nodes, Node.all_well_formed_cons, Node.all_well_formed_append] at formed
      exact ⟨undeclaring_of_formed thenBranch formed.2.1.2 formed.1.1,
        undeclaring_of_formed elseBranch formed.2.2 formed.1.2⟩
  | .whileLoop _ body, formed, _ => by
      simp only [Stmt.nodes, Node.all_well_formed_cons, Node.all_well_formed_append] at formed
      exact undeclaring_of_formed body formed.2.2 formed.1
  | .expression _, _, _ | .block _, _, _ | .returnStmt _ _, _, _ => trivial

namespace Machine

def Task.Undeclaring : Task → Prop
  | declareVar _ | classBase _ _ _ => False
  | branch thenBranch elseBranch =>
      thenBranch.Undeclaring ∧ ∀ other, elseBranch = some other → other.Undeclaring
  | loopTest _ body | loopBody _ body => body.Undeclaring
  | block remaining _ | program remaining => ∀ stmt ∈ remaining, stmt.Undeclaring
  | _ => True

/-- No task declares anything in the frame, whatever frame is present at first. -/
def Spared (frame : FrameRef) : FrameRef → List Task → Prop
  | _, [] => True
  | environment, task :: stack =>
      (environment = frame → task.Undeclaring) ∧ Spared frame (task.outer environment) stack

structure Spares (frame : FrameRef) (machine : Machine) : Prop where
  control : ∀ stmt, machine.control = .execute stmt → machine.state.environment = frame →
    stmt.Undeclaring
  stack : Spared frame machine.state.environment machine.stack

section Steps

variable {frame : FrameRef} {state : State} {stack : List Task}

theorem spares_quiet {machine : Machine} (quiet : ∀ stmt, machine.control ≠ .execute stmt)
    (spared : Spared frame machine.state.environment machine.stack) : Spares frame machine :=
  ⟨fun stmt executes => absurd executes (quiet stmt), spared⟩

theorem deliver_read_spares (spared : Spared frame state.environment stack) (line : Nat)
    (result : Except Heap.AccessFault Value) :
    Spares frame (deliverRead state line result stack) := by
  cases result <;> exact spares_quiet (by simp [deliverRead, fail]) spared

theorem evaluate_spares (spared : Spared frame state.environment stack) (term : Expr) :
    Spares frame (evaluate state term stack) := by
  cases term with
  | literal id value => exact spares_quiet (by simp [evaluate]) spared
  | grouping id inner => exact spares_quiet (by simp [evaluate]) spared
  | variableRef id name => exact deliver_read_spares spared _ _
  | thisRef id keyword => exact deliver_read_spares spared _ _
  | baseRef id keyword name =>
      have outcome := evaluate_base_outcome state id keyword name stack
      simp only [evaluate]
      generalize evaluateBase state id keyword name stack = machine at outcome ⊢
      cases outcome <;> exact spares_quiet (by simp [fail, deliverBound]) spared
  | _ => exact spares_quiet (by simp [evaluate]) ⟨fun _ => trivial, spared⟩

theorem define_class_spares (spared : Spared frame state.environment stack) (name : Token)
    (parent : Option ClassRef) (methods : List FunctionDecl) :
    Spares frame (defineClass state name parent methods stack) := by
  cases parent <;> exact spares_quiet (by simp [defineClass]) spared

/-- A statement with something to declare is not executed in the frame, and its parts are executed
in the same frame as it is, or in new ones. -/
theorem execute_spares (older : frame.index < state.heap.frames.size)
    (spared : Spared frame state.environment stack) {clause : Stmt}
    (quiet : state.environment = frame → clause.Undeclaring) :
    Spares frame (execute state clause stack) := by
  cases clause with
  | expression expr => exact spares_quiet (by simp [execute]) spared
  | varDecl name initializer =>
      cases initializer with
      | none => exact spares_quiet (by simp [execute]) spared
      | some initializer =>
          exact spares_quiet (by simp [execute]) ⟨fun same => quiet same, spared⟩
  | functionDecl decl => exact spares_quiet (by simp [execute]) spared
  | classDecl name base methods =>
      cases base with
      | none => exact define_class_spares spared name none methods
      | some base => exact spares_quiet (by simp [execute]) ⟨fun same => quiet same, spared⟩
  | block body =>
      refine spares_quiet (by simp [execute]) ⟨fun same => ?_, spared⟩
      have index : state.heap.frames.size = frame.index := congrArg FrameRef.index same
      omega
  | ifThen condition thenBranch =>
      refine spares_quiet (by simp [execute])
        ⟨fun same => ⟨quiet same, fun other found => ?_⟩, spared⟩
      cases found
  | ifElse condition thenBranch elseBranch =>
      refine spares_quiet (by simp [execute])
        ⟨fun same => ⟨(quiet same).1, fun other found => ?_⟩, spared⟩
      cases found
      exact (quiet same).2
  | whileLoop condition body =>
      exact spares_quiet (by simp [execute]) ⟨fun same => quiet same, spared⟩
  | returnStmt keyword value =>
      cases value with
      | none => exact spares_quiet (by simp [execute]) spared
      | some value => exact spares_quiet (by simp [execute]) ⟨fun _ => trivial, spared⟩

theorem enter_call_spares (older : frame.index < state.heap.frames.size)
    (spared : Spared frame state.environment stack) (closure : Closure) (given : List Value)
    (completion : Completion) : Spares frame (enterCall state closure given completion stack) := by
  refine spares_quiet (by simp [enterCall]) ⟨fun same => ?_, fun _ => trivial, spared⟩
  have index : state.heap.frames.size = frame.index := congrArg FrameRef.index same
  omega

theorem call_value_spares (older : frame.index < state.heap.frames.size)
    (spared : Spared frame state.environment stack) (callee : Value) (given : List Value)
    (line : Nat) : Spares frame (callValue state callee given line stack) := by
  have outcome := call_value_outcome state given line stack callee
  generalize callValue state callee given line stack = machine at outcome ⊢
  cases outcome with
  | entered => exact enter_call_spares older spared _ _ _
  | @constructed ref method =>
      have framed : frame.index < ((state.addInstance ⟨ref, .empty⟩).addFrame
          (Heap.receiverFrame method state.heap.nextInstance)).heap.frames.size := by
        simp only [State.addFrame, State.addInstance, Heap.addFrame, Heap.addInstance,
          Array.size_push]
        omega
      exact enter_call_spares framed spared _ _ _
  | _ => exact spares_quiet (by simp [fail]) spared

theorem resume_spares (older : frame.index < state.heap.frames.size) {task : Task}
    (spared : Spared frame state.environment (task :: stack)) (value : Value) :
    Spares frame (resume state value task stack) := by
  obtain ⟨quiet, below⟩ := spared
  have outcome := resume_outcome state stack value task
  generalize resume state value task stack = machine at outcome ⊢
  cases outcome with
  | bareCall => exact call_value_spares older below _ _ _
  | lastCall => exact call_value_spares older below _ _ _
  | left | firstArgument | nextArgument | setObject =>
      exact spares_quiet (by simp) ⟨fun _ => trivial, below⟩
  | again => exact spares_quiet (by simp) ⟨fun same => quiet same, below⟩
  | derived => exact define_class_spares below _ _ _
  | taken =>
      refine ⟨fun stmt executes same => ?_, below⟩
      cases executes
      exact (quiet same).1
  | otherwise =>
      refine ⟨fun stmt executes same => ?_, below⟩
      cases executes
      exact (quiet same).2 _ rfl
  | turn =>
      refine ⟨fun stmt executes same => ?_, fun same => quiet same, below⟩
      cases executes
      exact quiet same
  | blockNext | programNext =>
      refine ⟨fun stmt executes same => ?_, fun same stmt member => ?_, below⟩
      · cases executes
        exact quiet same _ List.mem_cons_self
      · exact quiet same stmt (List.mem_cons_of_mem _ member)
  | _ => exact spares_quiet (by simp [fail, deliverBound, finishCall]) below

theorem release_environment (task : Task) (state : State) :
    (task.release state).environment = task.outer state.environment := by
  cases task <;> rfl

theorem unwind_spares {task : Task} (spared : Spared frame state.environment (task :: stack))
    (value : Value) : Spares frame (unwindReturn state value task stack) := by
  obtain ⟨-, below⟩ := spared
  cases task <;> exact spares_quiet (by simp [unwindReturn, finishCall]) below

end Steps

/-- A frame without bindings in which nothing will be declared. It stays without bindings, since
only a name that it binds can be assigned to in it. -/
structure Vacant (frame : FrameRef) (parent : Option FrameRef) (machine : Machine) : Prop where
  empty : machine.state.heap.frame? frame = some ⟨parent, .empty⟩
  spares : Spares frame machine

section Vacancy

variable {frame : FrameRef} {parent : Option FrameRef} {machine : Machine}

theorem next_spares (vacant : Vacant frame parent machine) : Spares frame machine.next := by
  rcases machine with ⟨state, control, stack⟩
  obtain ⟨empty, control', spared⟩ := vacant
  have older := frame_lt empty
  cases control with
  | evaluate term => exact evaluate_spares spared term
  | execute clause => exact execute_spares older spared fun same => control' clause rfl same
  | done value =>
      cases stack with
      | nil => exact ⟨control', spared⟩
      | cons task stack => exact resume_spares older spared value
  | returning value =>
      cases stack with
      | nil => exact ⟨control', spared⟩
      | cons task stack => exact unwind_spares spared value
  | failing fault =>
      cases stack with
      | nil => exact ⟨control', spared⟩
      | cons task stack =>
          refine spares_quiet (by simp [next]) ?_
          change Spared frame (task.release state).environment stack
          rw [release_environment]
          exact spared.2

theorem empty_define {heap : Heap} (empty : heap.frame? frame = some ⟨parent, .empty⟩)
    {other : FrameRef} (different : other ≠ frame) (name : String) (value : Value) :
    (heap.define other name value).frame? frame = some ⟨parent, .empty⟩ := by
  rw [frame_define, empty]
  simp [different]

theorem empty_add_frame {heap : Heap} (empty : heap.frame? frame = some ⟨parent, .empty⟩)
    (added : Frame) : (heap.addFrame added).frame? frame = some ⟨parent, .empty⟩ := by
  rw [frame_add_frame, if_neg, empty]
  intro same
  have older := frame_lt empty
  rw [same] at older
  exact Nat.lt_irrefl _ older

/-- Nothing is bound in the frame by a step: declarations are made elsewhere, and an assignment goes
to a frame that holds its name. -/
theorem next_empty (vacant : Vacant frame parent machine) :
    machine.next.state.heap.frame? frame = some ⟨parent, .empty⟩ := by
  have effect : Effect ⟨machine, []⟩ (Tagged.next ⟨machine, []⟩).store := next_effect _
  have empty := vacant.empty
  change (Tagged.next ⟨machine, []⟩).store.heap.frame? frame = _
  generalize (Tagged.next ⟨machine, []⟩).store = later at effect
  -- A declaration is not made in the frame, and an assignment would have found its name there.
  cases effect with
  | quiet => exact empty
  | declare => exact empty_define empty (fun same => vacant.spares.control _ rfl same) _ _
  | initialized => exact empty_define empty (fun same => vacant.spares.stack.1 same) _ _
  | assign slot =>
      refine empty_define empty (fun same => ?_) _ _
      have held := slot_held slot
      rw [same, Heap.local?, empty] at held
      cases held
  | setField => exact empty
  | block => exact empty_add_frame empty _
  | function => exact empty_define empty (fun same => vacant.spares.control _ rfl same) _ _
  | plainClass => exact empty_define empty (fun same => vacant.spares.control _ rfl same) _ _
  | derivedClass =>
      exact empty_define (empty_add_frame empty _) (fun same => vacant.spares.stack.1 same) _ _
  | property found => exact empty_add_frame empty _
  | base operands found => exact empty_add_frame empty _
  | call calls found => exact empty_add_frame empty _
  | create calls none => exact empty
  | construct calls found => exact empty_add_frame (empty_add_frame empty _) _

theorem next_vacant (vacant : Vacant frame parent machine) : Vacant frame parent machine.next :=
  ⟨next_empty vacant, next_spares vacant⟩

theorem run_vacant (vacant : Vacant frame parent machine) (steps : Nat) :
    Vacant frame parent (machine.run steps) := by
  induction steps with
  | zero => exact vacant
  | succ steps induction =>
      rw [run_succ]
      exact next_vacant induction

end Vacancy

end Machine

end Quill
