import Quill.Proofs.Machine.Lockstep

/-!
What one step does to the heap. A step leaves the heap as it is or makes one of a few
changes, and each change is told together with the sight of the machine that makes it. What
is to hold throughout a run is shown for these changes only.
-/

namespace Quill.Machine

set_option autoImplicit false

namespace Store

def addInstance (store : Store) (object : Instance) : Store :=
  { store with heap := store.heap.addInstance object }

def setField (store : Store) (ref : InstanceRef) (name : String) (value : Value) : Store :=
  { store with heap := store.heap.setField ref name value }

def addBound (store : Store) (method : Closure) (receiver : InstanceRef) : Store :=
  (store.addFrame (Heap.receiverFrame method receiver) .receiver).addFunction
    (store.heap.boundMethod method)

def enter (store : Store) (closure : Closure) (given : List Value) : Store :=
  store.addFrame ⟨some closure.frame, parameterBindings closure.decl.parameters given⟩
    (.call closure.decl)

def addBase (store : Store) (outer : FrameRef) (parent : ClassRef) : Store :=
  store.addFrame ⟨some outer, Bindings.empty.insert "base" (.classRef parent)⟩ .base

end Store

inductive Calls : Machine → Value → List Value → Nat → List Task → Prop where
  | bare {state : State} {callee : Value} {paren : Token} {stack : List Task} :
      Calls ⟨state, .done callee, .callee paren [] :: stack⟩ callee [] paren.line stack
  | last {state : State} {value callee : Value} {evaluated : List Value} {paren : Token}
      {stack : List Task} :
      Calls ⟨state, .done value, .argument callee evaluated paren [] :: stack⟩ callee
        (evaluated ++ [value]) paren.line stack

theorem calls_next {machine : Machine} {callee : Value} {given : List Value} {line : Nat}
    {stack : List Task} (calls : Calls machine callee given line stack) :
    machine.next = callValue machine.state callee given line stack := by
  cases calls <;> rfl

theorem calls_origins {machine : Machine} {callee : Value} {given : List Value} {line : Nat}
    {stack : List Task} (calls : Calls machine callee given line stack) :
    stepOrigins machine = callOrigins machine.state.heap callee := by
  cases calls <;> rfl

/-- `Makes machine name parent methods`: the step makes a class. One without a base is made when its
declaration is executed, and one with a base when the base has been evaluated. -/
inductive Makes : Machine → Token → Option ClassRef → List FunctionDecl → Prop where
  | plain {state : State} {name : Token} {methods : List FunctionDecl} {stack : List Task} :
      Makes ⟨state, .execute (.classDecl name none methods), stack⟩ name none methods
  | derived {state : State} {name : Token} {base : Expr} {methods : List FunctionDecl}
      {parent : ClassRef} {stack : List Task} :
      Makes ⟨state, .done (.classRef parent), .classBase name base methods :: stack⟩ name
        (some parent) methods

/-- `Binds machine method receiver`: the step binds a method to a receiver, as a property, through
`base`, or as the constructor in a call of its class. -/
inductive Binds : Machine → Closure → InstanceRef → Prop where
  | property {state : State} {receiver : InstanceRef} {name : Token} {method : Closure}
      {stack : List Task}
      (found : state.heap.property? receiver name.lexeme = some (.method method)) :
      Binds ⟨state, .done (.instanceRef receiver), .getProperty name :: stack⟩ method receiver
  | base {state : State} {id : Nat} {keyword name : Token} {parent : ClassRef}
      {receiver : InstanceRef} {method : Closure} {stack : List Task}
      (operands : baseOperands state id = .ok (parent, receiver))
      (found : state.heap.method? parent name.lexeme = some method) :
      Binds ⟨state, .evaluate (.baseRef id keyword name), stack⟩ method receiver
  | construct {machine : Machine} {ref : ClassRef} {given : List Value} {line : Nat}
      {stack : List Task} {method : Closure} (calls : Calls machine (.classRef ref) given line stack)
      (allowed : machine.state.refusal? (machine.state.heap.classArity ref) given.length = none)
      (found : machine.state.heap.constructor? ref = some method) :
      Binds machine method machine.state.heap.nextInstance

/-- `Effect tagged later`: the step turns the heap into that of `later`. There is one case for each
thing that a step can do to the heap, and what a heap keeps is proved from these cases alone. -/
inductive Effect : Tagged → Store → Prop where
  | quiet {tagged : Tagged} : Effect tagged tagged.store
  | declare {state : State} {name : Token} {stack : List Task} {origins : List Origin} :
      Effect ⟨⟨state, .execute (.varDecl name none), stack⟩, origins⟩
        (Store.define ⟨state.heap, origins⟩ state.environment name.lexeme .nil)
  | initialized {state : State} {name : Token} {value : Value} {stack : List Task}
      {origins : List Origin} :
      Effect ⟨⟨state, .done value, .declareVar name :: stack⟩, origins⟩
        (Store.define ⟨state.heap, origins⟩ state.environment name.lexeme value)
  | assign {state : State} {id : Nat} {name : Token} {value : Value} {stack : List Task}
      {origins : List Origin} {frame : FrameRef} (slot : state.slot id name.lexeme = .ok frame) :
      Effect ⟨⟨state, .done value, .assign id name :: stack⟩, origins⟩
        (Store.define ⟨state.heap, origins⟩ frame name.lexeme value)
  | setField {state : State} {receiver : InstanceRef} {name : Token} {value : Value}
      {stack : List Task} {origins : List Origin} :
      Effect ⟨⟨state, .done value, .setField receiver name :: stack⟩, origins⟩
        (Store.setField ⟨state.heap, origins⟩ receiver name.lexeme value)
  | block {state : State} {body : List Stmt} {stack : List Task} {origins : List Origin} :
      Effect ⟨⟨state, .execute (.block body), stack⟩, origins⟩
        (Store.addFrame ⟨state.heap, origins⟩ ⟨some state.environment, .empty⟩ (.block body))
  | function {state : State} {decl : FunctionDecl} {stack : List Task} {origins : List Origin} :
      Effect ⟨⟨state, .execute (.functionDecl decl), stack⟩, origins⟩
        ((Store.addFunction ⟨state.heap, origins⟩ ⟨decl, state.environment, false⟩).define
          state.environment decl.name.lexeme (.functionRef state.heap.nextFunction))
  | plainClass {state : State} {name : Token} {methods : List FunctionDecl} {stack : List Task}
      {origins : List Origin} :
      Effect ⟨⟨state, .execute (.classDecl name none methods), stack⟩, origins⟩
        ((Store.addClass ⟨state.heap, origins⟩
          ⟨name.lexeme, none, Heap.methodTable name.lexeme state.environment methods⟩).define
            state.environment name.lexeme (.classRef state.heap.nextClass))
  | derivedClass {state : State} {name : Token} {base : Expr} {methods : List FunctionDecl}
      {parent : ClassRef} {stack : List Task} {origins : List Origin} :
      Effect ⟨⟨state, .done (.classRef parent), .classBase name base methods :: stack⟩, origins⟩
        (((Store.addBase ⟨state.heap, origins⟩ state.environment parent).addClass
          ⟨name.lexeme, some parent, Heap.methodTable name.lexeme state.heap.nextFrame methods⟩).define
            state.environment name.lexeme (.classRef state.heap.nextClass))
  | property {state : State} {receiver : InstanceRef} {name : Token} {method : Closure}
      {stack : List Task} {origins : List Origin}
      (found : state.heap.property? receiver name.lexeme = some (.method method)) :
      Effect ⟨⟨state, .done (.instanceRef receiver), .getProperty name :: stack⟩, origins⟩
        (Store.addBound ⟨state.heap, origins⟩ method receiver)
  | base {state : State} {id : Nat} {keyword name : Token} {parent : ClassRef}
      {receiver : InstanceRef} {method : Closure} {stack : List Task} {origins : List Origin}
      (operands : baseOperands state id = .ok (parent, receiver))
      (found : state.heap.method? parent name.lexeme = some method) :
      Effect ⟨⟨state, .evaluate (.baseRef id keyword name), stack⟩, origins⟩
        (Store.addBound ⟨state.heap, origins⟩ method receiver)
  | call {tagged : Tagged} {ref : FunctionRef} {closure : Closure} {given : List Value} {line : Nat}
      {stack : List Task} (calls : Calls tagged.machine (.functionRef ref) given line stack)
      (found : tagged.machine.state.heap.function? ref = some closure) :
      Effect tagged (tagged.store.enter closure given)
  | create {tagged : Tagged} {ref : ClassRef} {given : List Value} {line : Nat} {stack : List Task}
      (calls : Calls tagged.machine (.classRef ref) given line stack)
      (none : tagged.machine.state.heap.constructor? ref = none) :
      Effect tagged (tagged.store.addInstance ⟨ref, .empty⟩)
  | construct {tagged : Tagged} {ref : ClassRef} {given : List Value} {line : Nat}
      {stack : List Task} {method : Closure}
      (calls : Calls tagged.machine (.classRef ref) given line stack)
      (found : tagged.machine.state.heap.constructor? ref = some method) :
      Effect tagged (((tagged.store.addInstance ⟨ref, .empty⟩).addFrame
        (Heap.receiverFrame method tagged.machine.state.heap.nextInstance) .receiver).enter
          (tagged.machine.state.heap.boundMethod method) given)

variable {tagged : Tagged} {later : Store}

theorem effect_same (heap : tagged.machine.next.state.heap = later.heap)
    (origins : later.origins = tagged.origins)
    (size : later.heap.frames.size = tagged.machine.state.heap.frames.size)
    (effect : Effect tagged later) : Effect tagged tagged.next.store := by
  have same : tagged.next.store = later := by
    rcases later with ⟨changed, tags⟩
    simp only at heap origins size
    simp only [Tagged.store, Tagged.next, heap, size, Nat.sub_self, List.take_zero, List.append_nil,
      origins]
  rw [same]
  exact effect

theorem effect_new (heap : tagged.machine.next.state.heap = later.heap)
    (origins : later.origins = tagged.origins ++ stepOrigins tagged.machine)
    (size : later.heap.frames.size =
      tagged.machine.state.heap.frames.size + (stepOrigins tagged.machine).length)
    (effect : Effect tagged later) : Effect tagged tagged.next.store := by
  have same : tagged.next.store = later := by
    rcases later with ⟨changed, tags⟩
    simp only at heap origins size
    simp only [Tagged.store, Tagged.next, heap, size, Nat.add_sub_cancel_left, List.take_length,
      origins]
  rw [same]
  exact effect

theorem effect_quiet (heap : tagged.machine.next.state.heap = tagged.machine.state.heap) :
    Effect tagged tagged.next.store :=
  effect_same heap rfl rfl .quiet

theorem call_value_effect {callee : Value} {given : List Value} {line : Nat} {stack : List Task}
    (calls : Calls tagged.machine callee given line stack) : Effect tagged tagged.next.store := by
  have next := calls_next calls
  have tags := calls_origins calls
  have outcome := call_value_outcome tagged.machine.state given line stack callee
  rw [← next] at outcome
  generalize after : tagged.machine.next = machine at outcome
  cases outcome with
  | @entered ref closure found =>
      apply effect_new ?_ ?_ ?_ (.call calls found)
      · rw [after]
        rfl
      · rw [tags]
        simp [callOrigins, found, Store.enter, Store.addFrame, Tagged.store]
      · rw [tags]
        simp [callOrigins, found, Store.enter, Store.addFrame, Tagged.store, Heap.addFrame]
  | created none => exact effect_same (by rw [after]; rfl) rfl rfl (.create calls none)
  | @constructed ref method found =>
      apply effect_new ?_ ?_ ?_ (.construct calls found)
      · rw [after]
        rfl
      · rw [tags]
        simp [callOrigins, found, Store.enter, Store.addFrame, Store.addInstance, Tagged.store,
          Heap.boundMethod]
      · rw [tags]
        simp [callOrigins, found, Store.enter, Store.addFrame, Store.addInstance, Tagged.store,
          Heap.addFrame, Heap.addInstance]
  | _ => exact effect_quiet (after ▸ rfl)

theorem resume_effect {state : State} {value : Value} {task : Task} {stack : List Task}
    {origins : List Origin} (shape : tagged = ⟨⟨state, .done value, task :: stack⟩, origins⟩) :
    Effect tagged tagged.next.store := by
  subst shape
  have outcome : ResumeOutcome state stack value task
      (Machine.next ⟨state, .done value, task :: stack⟩) := resume_outcome state stack value task
  generalize after : Machine.next ⟨state, .done value, task :: stack⟩ = machine at outcome
  cases outcome with
  | bareCall => exact call_value_effect .bare
  | lastCall => exact call_value_effect .last
  | assigned slot =>
      exact effect_same (by rw [after]; rfl) rfl (define_size _ _ _ _) (.assign slot)
  | bound found =>
      apply effect_new ?_ rfl ?_ (.property found)
      · rw [after]
        rfl
      · simp [Store.addBound, Store.addFrame, Store.addFunction, Heap.addFrame, Heap.addFunction,
          stepOrigins]
  | setField => exact effect_same rfl rfl rfl .setField
  | declared => exact effect_same rfl rfl (define_size _ _ _ _) .initialized
  | derived =>
      apply effect_new rfl rfl ?_ .derivedClass
      simp [Store.addBase, Store.addFrame, Store.addClass, Store.define, Heap.addFrame,
        Heap.addClass, Heap.define, stepOrigins]
  | callEnds => exact effect_quiet rfl
  | _ => exact effect_quiet (after ▸ rfl)

theorem evaluate_effect {state : State} {term : Expr} {stack : List Task} {origins : List Origin}
    (shape : tagged = ⟨⟨state, .evaluate term, stack⟩, origins⟩) :
    Effect tagged tagged.next.store := by
  subst shape
  cases term with
  | variableRef id name | thisRef id keyword =>
      apply effect_quiet
      simp only [next, evaluate, deliverRead]
      split <;> rfl
  | baseRef id keyword name =>
      have outcome := evaluate_base_outcome state id keyword name stack
      generalize after : evaluateBase state id keyword name stack = machine at outcome
      cases outcome with
      | bound operands found =>
          apply effect_new ?_ rfl ?_ (.base operands found)
          · simp only [next, evaluate, after]
            rfl
          · simp [Store.addBound, Store.addFrame, Store.addFunction, Heap.addFrame,
              Heap.addFunction, stepOrigins]
      | _ => exact effect_quiet (congrArg (fun machine => machine.state.heap) after)
  | _ => exact effect_quiet rfl

theorem execute_effect {state : State} {clause : Stmt} {stack : List Task} {origins : List Origin}
    (shape : tagged = ⟨⟨state, .execute clause, stack⟩, origins⟩) :
    Effect tagged tagged.next.store := by
  subst shape
  cases clause with
  | varDecl name initializer =>
      cases initializer with
      | none => exact effect_same rfl rfl (define_size _ _ _ _) .declare
      | some initializer => exact effect_quiet rfl
  | functionDecl decl => exact effect_same rfl rfl (define_size _ _ _ _) .function
  | classDecl name base methods =>
      cases base with
      | none => exact effect_same rfl rfl (define_size _ _ _ _) .plainClass
      | some base => exact effect_quiet rfl
  | block body =>
      apply effect_new rfl rfl ?_ .block
      simp [Store.addFrame, Heap.addFrame, stepOrigins]
  | returnStmt keyword value =>
      cases value <;> exact effect_quiet rfl
  | _ => exact effect_quiet rfl

theorem release_heap (task : Task) (state : State) : (task.release state).heap = state.heap := by
  cases task <;> rfl

/-- Every step has one of the effects, and the tags that it announces are those of the frames that
the effect makes. -/
theorem next_effect (tagged : Tagged) : Effect tagged tagged.next.store := by
  rcases shape : tagged with ⟨⟨state, control, stack⟩, origins⟩
  rw [← shape]
  cases control with
  | evaluate term => exact evaluate_effect shape
  | execute clause => exact execute_effect shape
  | done value =>
      cases stack with
      | nil => exact effect_quiet (by rw [shape]; rfl)
      | cons task rest => exact resume_effect shape
  | returning value =>
      cases stack with
      | nil => exact effect_quiet (by rw [shape]; rfl)
      | cons task rest =>
          apply effect_quiet
          rw [shape]
          cases task <;> rfl
  | failing fault =>
      cases stack with
      | nil => exact effect_quiet (by rw [shape]; rfl)
      | cons task rest =>
          apply effect_quiet
          rw [shape]
          exact release_heap task state

end Quill.Machine
