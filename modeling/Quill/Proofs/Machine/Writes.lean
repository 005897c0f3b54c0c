import Quill.Proofs.Machine.Rooted

/-!
The writes of a run, one after the other. A frame is made empty and then given its names; a class
binds its name before it is made and is assigned to it afterwards. A step carries out its writes
in that order, and carried out from the first heap on, the writes of all steps so far give the
frames that there are.
-/

namespace Quill

set_option autoImplicit false

/-- What may happen to frames: one is made inside another, a name is bound in one, or what a name
holds in one is replaced. -/
inductive Write where
  | enter (parent : FrameRef)
  | define (frame : FrameRef) (name : String) (value : Value)
  | assign (frame : FrameRef) (name : String) (value : Value)

namespace Bindings

variable {Held : Type}

theorem insert_entry_again (name : String) (first second : Held) (entries : List (String × Held)) :
    insertEntry name second (insertEntry name first entries) = insertEntry name second entries := by
  induction entries with
  | nil => simp [insertEntry]
  | cons entry rest induction =>
      by_cases same : name = entry.1
      · simp [insertEntry, same]
      · simp [insertEntry, same, induction]

theorem insert_again (bindings : Bindings Held) (name : String) (first second : Held) :
    (bindings.insert name first).insert name second = bindings.insert name second := by
  rw [insert, insert, insert_entry_again, insert]

end Bindings

namespace Heap

def perform (heap : Heap) : Write → Heap
  | .enter parent => heap.addFrame ⟨some parent, .empty⟩
  | .define frame name value => heap.define frame name value
  | .assign frame name value => heap.define frame name value

def performAll (heap : Heap) (writes : List Write) : Heap := writes.foldl perform heap

@[simp] theorem perform_all_nil (heap : Heap) : heap.performAll [] = heap := rfl

@[simp] theorem perform_all_cons (heap : Heap) (write : Write) (writes : List Write) :
    heap.performAll (write :: writes) = (heap.perform write).performAll writes := rfl

theorem perform_all_append (heap : Heap) (early late : List Write) :
    heap.performAll (early ++ late) = (heap.performAll early).performAll late := List.foldl_append

theorem perform_frames {heap other : Heap} (same : heap.frames = other.frames) (write : Write) :
    (heap.perform write).frames = (other.perform write).frames := by
  cases write <;> simp [perform, addFrame, define, same]

theorem perform_all_frames {heap other : Heap} (same : heap.frames = other.frames)
    (writes : List Write) : (heap.performAll writes).frames = (other.performAll writes).frames := by
  induction writes generalizing heap other with
  | nil => exact same
  | cons write writes induction => exact induction (perform_frames same write)

section Frames

variable (heap : Heap)

theorem define_new (parent : Option FrameRef) (bindings : Bindings Value) (name : String)
    (value : Value) :
    (heap.addFrame ⟨parent, bindings⟩).define heap.nextFrame name value =
      heap.addFrame ⟨parent, bindings.insert name value⟩ := by
  simp only [define, addFrame, nextFrame, mk.injEq, and_true]
  refine Array.ext_getElem? fun index => ?_
  rw [Array.getElem?_modify, Array.getElem?_push, Array.getElem?_push]
  by_cases last : index = heap.frames.size
  · simp [last]
  · simp [last, Ne.symm last]

theorem define_again (frame : FrameRef) (name : String) (first second : Value) :
    (heap.define frame name first).define frame name second = heap.define frame name second := by
  simp only [define, mk.injEq, and_true]
  refine Array.ext_getElem? fun index => ?_
  simp only [Array.getElem?_modify]
  split
  · simp [Bindings.insert_again, Function.comp_def]
  · rfl

theorem add_frame_define {frame : FrameRef} (present : frame.index < heap.frames.size)
    (name : String) (value : Value) (new : Frame) :
    (heap.define frame name value).addFrame new = (heap.addFrame new).define frame name value := by
  simp only [define, addFrame, mk.injEq, and_true]
  refine Array.ext_getElem? fun index => ?_
  simp only [Array.getElem?_modify, Array.getElem?_push, Array.size_modify]
  by_cases last : index = heap.frames.size
  · simp [last, Nat.ne_of_lt present]
  · simp [last]

end Frames

end Heap

namespace Machine

def bindingWrites (heap : Heap) (method : Closure) (receiver : InstanceRef) : List Write :=
  [.enter method.frame, .define heap.nextFrame "this" (.instanceRef receiver)]

def callWrites (frame : FrameRef) (closure : Closure) (given : List Value) : List Write :=
  .enter closure.frame ::
    (closure.decl.parameters.zip given).map fun pair => .define frame pair.1.lexeme pair.2

def valueWrites (state : State) (callee : Value) (given : List Value) : List Write :=
  match callee with
  | .functionRef ref =>
      match state.heap.function? ref with
      | some closure =>
          if (state.refusal? closure.arity given.length).isSome then []
          else callWrites state.heap.nextFrame closure given
      | none => []
  | .classRef ref =>
      if (state.refusal? (state.heap.classArity ref) given.length).isSome then []
      else
        match state.heap.constructor? ref with
        | none => []
        | some method =>
            bindingWrites state.heap method state.heap.nextInstance ++
              callWrites ⟨state.heap.frames.size + 1⟩ (state.heap.boundMethod method) given
  | _ => []

/-- The writes that make a class. Its name is bound first and assigned to when the class is there,
which is why a class is bound once although it is written twice. -/
def classWrites (state : State) (name : Token) : Option ClassRef → List Write
  | none =>
      [.define state.environment name.lexeme .nil,
        .assign state.environment name.lexeme (.classRef state.heap.nextClass)]
  | some parent =>
      [.define state.environment name.lexeme .nil, .enter state.environment,
        .define state.heap.nextFrame "base" (.classRef parent),
        .assign state.environment name.lexeme (.classRef state.heap.nextClass)]

def evaluationWrites (state : State) : Expr → List Write
  | .baseRef id _ method =>
      match baseOperands state id with
      | .error _ => []
      | .ok (parent, receiver) =>
          match state.heap.method? parent method.lexeme with
          | some closure => bindingWrites state.heap closure receiver
          | none => []
  | _ => []

def executionWrites (state : State) : Stmt → List Write
  | .varDecl name none => [.define state.environment name.lexeme .nil]
  | .functionDecl decl =>
      [.define state.environment decl.name.lexeme (.functionRef state.heap.nextFunction)]
  | .classDecl name none _ => classWrites state name none
  | .block _ => [.enter state.environment]
  | _ => []

def resumptionWrites (state : State) (value : Value) : Task → List Write
  | .assign id name =>
      match state.slot id name.lexeme with
      | .ok frame => [.assign frame name.lexeme value]
      | .error _ => []
  | .callee _ [] => valueWrites state value []
  | .argument callee evaluated _ [] => valueWrites state callee (evaluated ++ [value])
  | .getProperty name =>
      match value with
      | .instanceRef receiver =>
          match state.heap.property? receiver name.lexeme with
          | some (.method closure) => bindingWrites state.heap closure receiver
          | _ => []
      | _ => []
  | .declareVar name => [.define state.environment name.lexeme value]
  | .classBase name _ _ =>
      match value with
      | .classRef parent => classWrites state name (some parent)
      | _ => []
  | _ => []

def writes (machine : Machine) : List Write :=
  match machine with
  | ⟨state, .evaluate expr, _⟩ => evaluationWrites state expr
  | ⟨state, .execute stmt, _⟩ => executionWrites state stmt
  | ⟨state, .done value, task :: _⟩ => resumptionWrites state value task
  | _ => []

def history (machine : Machine) : Nat → List Write
  | 0 => []
  | steps + 1 => machine.history steps ++ (machine.run steps).writes

section Performing

variable {state : State} {stack : List Task}

theorem perform_binding (heap : Heap) (method : Closure) (receiver : InstanceRef) :
    heap.performAll (bindingWrites heap method receiver) =
      heap.addFrame (Heap.receiverFrame method receiver) :=
  Heap.define_new heap _ _ _ _

theorem perform_call (heap : Heap) (closure : Closure) (given : List Value) :
    heap.performAll (callWrites heap.nextFrame closure given) =
      heap.addFrame ⟨some closure.frame, parameterBindings closure.decl.parameters given⟩ := by
  have bound (pairs : List (Token × Value)) (bindings : Bindings Value) :
      (heap.addFrame ⟨some closure.frame, bindings⟩).performAll
          (pairs.map fun pair => .define heap.nextFrame pair.1.lexeme pair.2) =
        heap.addFrame ⟨some closure.frame,
          pairs.foldl (fun bindings pair => bindings.insert pair.1.lexeme pair.2) bindings⟩ := by
    induction pairs generalizing bindings with
    | nil => rfl
    | cons pair pairs induction =>
        rw [List.map_cons, Heap.perform_all_cons, Heap.perform, Heap.define_new, induction,
          List.foldl_cons]
  exact bound _ .empty

theorem perform_value (callee : Value) (given : List Value) (line : Nat) :
    (state.heap.performAll (valueWrites state callee given)).frames =
      (callValue state callee given line stack).state.heap.frames := by
  unfold valueWrites callValue
  cases callee with
  | functionRef ref =>
      dsimp only
      cases state.heap.function? ref with
      | none => rfl
      | some closure =>
          unfold callFunction
          dsimp only
          cases state.refusal? closure.arity given.length with
          | some fault => rfl
          | none => exact congrArg Heap.frames (perform_call state.heap closure given)
  | nativeRef ref =>
      dsimp only
      split
      · unfold callNative callPrint
        split
        · rfl
        · split
          · dsimp only
            split <;> rfl
          · rfl
      · rfl
  | classRef ref =>
      unfold callClass
      dsimp only
      cases state.refusal? (state.heap.classArity ref) given.length with
      | some fault => rfl
      | none =>
          cases state.heap.constructor? ref with
          | none => rfl
          | some method =>
              let framed := state.heap.addFrame
                (Heap.receiverFrame method state.heap.nextInstance)
              have last : framed.nextFrame = ⟨state.heap.frames.size + 1⟩ := by
                simp [framed, Heap.addFrame, Heap.nextFrame]
              have entered := perform_call framed (state.heap.boundMethod method) given
              rw [last] at entered
              dsimp only [Option.isSome]
              rw [if_neg Bool.false_ne_true, Heap.perform_all_append, perform_binding, entered]
              rfl
  | _ => rfl

theorem perform_class (present : state.environment.index < state.heap.frames.size) (name : Token)
    (parent : Option ClassRef) (methods : List FunctionDecl) :
    (state.heap.performAll (classWrites state name parent)).frames =
      (defineClass state name parent methods stack).state.heap.frames := by
  cases parent with
  | none =>
      have made := Heap.define_again state.heap state.environment name.lexeme .nil
        (.classRef state.heap.nextClass)
      exact (congrArg Heap.frames made).trans rfl
  | some parent =>
      let base : Frame := ⟨some state.environment, Bindings.empty.insert "base" (.classRef parent)⟩
      have size : (state.heap.define state.environment name.lexeme .nil).nextFrame =
          state.heap.nextFrame := congrArg FrameRef.mk (define_size _ _ _ _)
      have framed := Heap.define_new (state.heap.define state.environment name.lexeme .nil)
        (some state.environment) .empty "base" (.classRef parent)
      rw [size] at framed
      have made : state.heap.performAll (classWrites state name (some parent)) =
          (state.heap.addFrame base).define state.environment name.lexeme
            (.classRef state.heap.nextClass) := by
        simp only [classWrites, Heap.perform_all_cons, Heap.perform_all_nil, Heap.perform]
        rw [framed, Heap.add_frame_define state.heap present, Heap.define_again]
      rw [made]
      rfl

theorem perform_evaluation (expr : Expr) :
    (state.heap.performAll (evaluationWrites state expr)).frames =
      (evaluate state expr stack).state.heap.frames := by
  have reads (line : Nat) (result : Except Heap.AccessFault Value) :
      state.heap.frames = (deliverRead state line result stack).state.heap.frames := by
    cases result <;> rfl
  cases expr with
  | variableRef id name => exact reads _ _
  | thisRef id keyword => exact reads _ _
  | baseRef id keyword method =>
      unfold evaluationWrites evaluate evaluateBase
      dsimp only
      cases baseOperands state id with
      | error fault => rfl
      | ok operands =>
          obtain ⟨parent, receiver⟩ := operands
          dsimp only
          cases state.heap.method? parent method.lexeme with
          | none => dsimp only; split <;> rfl
          | some closure =>
              exact (congrArg Heap.frames (perform_binding state.heap closure receiver)).trans rfl
  | _ => rfl

theorem perform_execution (present : state.environment.index < state.heap.frames.size)
    (stmt : Stmt) : (state.heap.performAll (executionWrites state stmt)).frames =
      (execute state stmt stack).state.heap.frames := by
  cases stmt with
  | varDecl name initializer => cases initializer <;> rfl
  | classDecl name base methods =>
      cases base with
      | none => exact perform_class present name none methods
      | some base => rfl
  | returnStmt keyword value => cases value <;> rfl
  | _ => rfl

/-- The writes of a task, carried out one by one, give the frames that the task leaves. The frame in
use has to exist, so that it is not the one that is made in between. -/
theorem perform_resumption (present : state.environment.index < state.heap.frames.size)
    (value : Value) (task : Task) :
    (state.heap.performAll (resumptionWrites state value task)).frames =
      (resume state value task stack).state.heap.frames := by
  have delivers (line : Nat) (result : Except Fault Value) :
      state.heap.frames = (deliver state line result stack).state.heap.frames := by
    cases result <;> rfl
  cases task with
  | unary operator => exact delivers _ _
  | rightOperand left operator => exact delivers _ _
  | logical operator right =>
      simp only [resume]
      split <;> rfl
  | assign id name =>
      simp only [resume, resumptionWrites]
      cases state.slot id name.lexeme <;> rfl
  | callee paren arguments =>
      cases arguments with
      | nil => exact perform_value value [] paren.line
      | cons first others => rfl
  | argument callee evaluated paren remaining =>
      cases remaining with
      | nil => exact perform_value callee (evaluated ++ [value]) paren.line
      | cons first others => rfl
  | getProperty name =>
      cases value with
      | instanceRef receiver =>
          simp only [resume, resumptionWrites]
          cases state.heap.property? receiver name.lexeme with
          | none => rfl
          | some property =>
              cases property with
              | field held => rfl
              | method closure =>
                  exact (congrArg Heap.frames (perform_binding state.heap closure receiver)).trans rfl
      | _ => rfl
  | setObject name expr => cases value <;> rfl
  | classBase name base methods =>
      cases value with
      | classRef parent => exact perform_class present name (some parent) methods
      | _ => rfl
  | branch thenBranch elseBranch =>
      simp only [resume]
      split
      · rfl
      · split <;> rfl
  | loopTest condition body =>
      simp only [resume]
      split <;> rfl
  | block remaining outer => cases remaining <;> rfl
  | program remaining => cases remaining <;> rfl
  | _ => rfl

/-- A step carries out its writes: what it does to the frames is all in them, and in their order. -/
theorem perform_writes {machine : Machine}
    (present : machine.state.environment.index < machine.state.heap.frames.size) :
    (machine.state.heap.performAll machine.writes).frames = machine.next.state.heap.frames := by
  rcases machine with ⟨state, control, stack⟩
  cases control with
  | evaluate expr => exact perform_evaluation expr
  | execute stmt => exact perform_execution present stmt
  | done value =>
      cases stack with
      | nil => rfl
      | cons task stack => exact perform_resumption present value task
  | returning value =>
      cases stack with
      | nil => rfl
      | cons task stack => cases task <;> rfl
  | failing fault =>
      cases stack with
      | nil => rfl
      | cons task stack => exact congrArg Heap.frames (release_heap task state).symm

end Performing

/-- The writes so far, carried out from the first heap on, give the frames that there are. -/
theorem perform_history (program : Program) (state : State) (steps : Nat) :
    (initialHeap.performAll ((program.load state).history steps)).frames =
      ((program.load state).run steps).state.heap.frames := by
  induction steps with
  | zero => rfl
  | succ steps induction =>
      have present := (anchored_run program state steps).outers _ List.mem_cons_self
      rw [history, Heap.perform_all_append, Heap.perform_all_frames induction,
        perform_writes present, run_succ]

end Machine

end Quill
