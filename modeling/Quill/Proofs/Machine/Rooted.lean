import Quill.Proofs.Heap.Chains
import Quill.Proofs.Machine.Balance

/-!
All ways outwards end. Functions live in the frames that they capture and classes in the frames
that their methods see, but a frame is only ever made inside a frame that exists already, and a
derived class after its base class. So whatever the program and its table, the way from any
frame leads to the outermost frame, and the way from any class to a class without a base.
-/

namespace Quill

set_option autoImplicit false

/-- Frames are inside older ones, up to the outermost, and what is closed over a frame is closed
over one that exists. -/
structure Heap.Rooted (heap : Heap) : Prop where
  outermost : ∃ content, heap.frame? ⟨0⟩ = some content ∧ content.parent = none
  inner : ∀ ref content, heap.frame? ref = some content → ref ≠ ⟨0⟩ →
    ∃ parent, content.parent = some parent ∧ parent.index < ref.index
  functions : ∀ ref closure, heap.function? ref = some closure →
    closure.frame.index < heap.frames.size
  methods : ∀ ref cls name closure, heap.class? ref = some cls →
    cls.methods.get? name = some closure → closure.frame.index < heap.frames.size

namespace Machine

section Heaps

variable {heap : Heap} (rooted : heap.Rooted)

include rooted

theorem rooted_define (ref : FrameRef) (name : String) (value : Value) :
    (heap.define ref name value).Rooted := by
  have same : (heap.define ref name value).frames.size = heap.frames.size :=
    define_size heap ref name value
  have parents {sought : FrameRef} {content : Frame}
      (found : (heap.define ref name value).frame? sought = some content) :
      ∃ before, heap.frame? sought = some before ∧ content.parent = before.parent := by
    rw [frame_define] at found
    obtain ⟨before, isBefore, rfl⟩ := Option.map_eq_some_iff.1 found
    refine ⟨before, isBefore, ?_⟩
    split <;> rfl
  obtain ⟨first, isFirst, noParent⟩ := rooted.outermost
  refine ⟨?_, fun sought content found inside => ?_, fun function closure found => ?_,
    fun cls content method closure found held => ?_⟩
  · refine ⟨_, (frame_define heap ref ⟨0⟩ name value).trans (congrArg _ isFirst), ?_⟩
    split <;> exact noParent
  · obtain ⟨before, isBefore, sameParent⟩ := parents found
    rw [sameParent]
    exact rooted.inner sought before isBefore inside
  · rw [same]
    exact rooted.functions function closure found
  · rw [same]
    exact rooted.methods cls content method closure found held

theorem rooted_add_frame {frame : Frame} {parent : FrameRef} (isParent : frame.parent = some parent)
    (present : parent.index < heap.frames.size) : (heap.addFrame frame).Rooted := by
  have size : (heap.addFrame frame).frames.size = heap.frames.size + 1 := by simp [Heap.addFrame]
  obtain ⟨first, isFirst, noParent⟩ := rooted.outermost
  refine ⟨⟨first, ?_, noParent⟩, fun sought content found inside => ?_,
    fun function closure found => ?_, fun cls content method closure found held => ?_⟩
  · rw [frame_add_frame, if_neg]
    · exact isFirst
    · intro fresh
      have bound := frame_lt isFirst
      rw [fresh] at bound
      exact Nat.lt_irrefl _ bound
  · rw [frame_add_frame] at found
    split at found
    next fresh =>
      cases found
      rw [fresh]
      exact ⟨parent, isParent, present⟩
    next => exact rooted.inner sought content found inside
  · rw [size]
    exact Nat.lt_succ_of_lt (rooted.functions function closure found)
  · rw [size]
    exact Nat.lt_succ_of_lt (rooted.methods cls content method closure found held)

theorem rooted_add_function {closure : Closure} (present : closure.frame.index < heap.frames.size) :
    (heap.addFunction closure).Rooted := by
  refine ⟨rooted.outermost, rooted.inner, fun function other found => ?_, rooted.methods⟩
  simp only [Heap.function?, Heap.addFunction, Array.getElem?_push] at found
  split at found
  · cases found
    exact present
  · exact rooted.functions function other found

theorem rooted_add_class {name : String} {parent : Option ClassRef} {className : String}
    {frame : FrameRef} {methods : List FunctionDecl} (present : frame.index < heap.frames.size) :
    (heap.addClass ⟨name, parent, Heap.methodTable className frame methods⟩).Rooted := by
  refine ⟨rooted.outermost, rooted.inner, rooted.functions, ?_⟩
  intro ref cls method closure found held
  rw [class_add_class] at found
  split at found
  · cases found
    obtain ⟨decl, -, -, rfl⟩ := method_table_made held
    exact present
  · exact rooted.methods ref cls method closure found held

theorem rooted_bound {method : Closure} (present : method.frame.index < heap.frames.size)
    (receiver : InstanceRef) : (heap.addBound method receiver).Rooted := by
  refine rooted_add_function (rooted_add_frame rooted rfl present) ?_
  simp [Heap.boundMethod, Heap.nextFrame, Heap.addFrame]

omit rooted in
theorem rooted_initial : initialHeap.Rooted := by
  refine ⟨⟨_, rfl, rfl⟩, fun ref content found inside => ?_, fun ref closure found => ?_,
    fun ref cls name closure found held => ?_⟩
  · have bound := frame_lt found
    have first : ref.index = 0 := Nat.lt_one_iff.1 bound
    exact absurd (congrArg FrameRef.mk first) inside
  · simp [Heap.function?, initialHeap] at found
  · simp [Heap.class?, initialHeap] at found

theorem rooted_property {receiver : InstanceRef} {name : String} {method : Closure}
    (found : heap.property? receiver name = some (.method method)) :
    method.frame.index < heap.frames.size := by
  obtain ⟨object, -, search⟩ := Heap.property_method found
  obtain ⟨owner, cls, -, isOwner, held⟩ := Heap.finds_belongs (Heap.method_finds search)
  exact rooted.methods owner cls name method isOwner held

theorem rooted_method {ref : ClassRef} {name : String} {method : Closure}
    (found : heap.method? ref name = some method) : method.frame.index < heap.frames.size := by
  obtain ⟨owner, cls, -, isOwner, held⟩ := Heap.finds_belongs (Heap.method_finds found)
  exact rooted.methods owner cls name method isOwner held

theorem rooted_constructor {ref : ClassRef} {method : Closure}
    (found : heap.constructor? ref = some method) : method.frame.index < heap.frames.size := by
  obtain ⟨owner, cls, -, isOwner, held⟩ := Heap.constructor_belongs found
  exact rooted.methods owner cls cls.name method isOwner held

end Heaps

theorem effect_rooted {tagged : Tagged} {later : Store}
    (rooted : tagged.machine.state.heap.Rooted)
    (inUse : tagged.machine.state.environment.index < tagged.machine.state.heap.frames.size)
    (effect : Effect tagged later) : later.heap.Rooted := by
  cases effect with
  | quiet => exact rooted
  | declare => exact rooted_define rooted _ _ _
  | initialized => exact rooted_define rooted _ _ _
  | assign slot => exact rooted_define rooted _ _ _
  | setField => exact ⟨rooted.outermost, rooted.inner, rooted.functions, rooted.methods⟩
  | block => exact rooted_add_frame rooted rfl inUse
  | @function state decl stack origins =>
      have added : (state.heap.addFunction ⟨decl, state.environment, false⟩).Rooted :=
        rooted_add_function rooted inUse
      exact rooted_define added _ _ _
  | plainClass => exact rooted_define (rooted_add_class rooted inUse) _ _ _
  | @derivedClass state name base methods parent stack origins =>
      have framed : (Store.addBase ⟨state.heap, origins⟩ state.environment parent).heap.Rooted :=
        rooted_add_frame rooted rfl inUse
      refine rooted_define (rooted_add_class framed ?_) _ _ _
      simp [Store.addBase, Store.addFrame, Heap.addFrame, Heap.nextFrame]
  | property found => exact rooted_bound rooted (rooted_property rooted found) _
  | base operands found => exact rooted_bound rooted (rooted_method rooted found) _
  | call calls found => exact rooted_add_frame rooted rfl (rooted.functions _ _ found)
  | create calls none =>
      exact ⟨rooted.outermost, rooted.inner, rooted.functions, rooted.methods⟩
  | @construct _ ref given line stack method calls found =>
      have created : (tagged.machine.state.heap.addInstance ⟨ref, .empty⟩).Rooted :=
        ⟨rooted.outermost, rooted.inner, rooted.functions, rooted.methods⟩
      have received : ((tagged.machine.state.heap.addInstance ⟨ref, .empty⟩).addFrame
          (Heap.receiverFrame method tagged.machine.state.heap.nextInstance)).Rooted :=
        rooted_add_frame created rfl (rooted_constructor rooted found)
      refine rooted_add_frame received rfl ?_
      simp [Heap.boundMethod, Heap.nextFrame, Heap.addFrame, Heap.addInstance]

theorem effect_frames_le {tagged : Tagged} {later : Store} (effect : Effect tagged later) :
    tagged.machine.state.heap.frames.size ≤ later.heap.frames.size := by
  cases effect <;>
    simp [Tagged.store, Store.define, Store.setField, Store.addFrame, Store.addFunction,
      Store.addClass, Store.addBase, Store.addBound, Store.addInstance, Store.enter, Heap.define,
      Heap.setField, Heap.addFrame, Heap.addFunction, Heap.addClass, Heap.addInstance,
      Nat.add_assoc]

theorem next_frames_le (machine : Machine) :
    machine.state.heap.frames.size ≤ machine.next.state.heap.frames.size :=
  effect_frames_le (next_effect ⟨machine, []⟩)

def Task.outers : Task → List FrameRef
  | block _ outer => [outer]
  | _ => []

def outers (machine : Machine) : List FrameRef :=
  machine.state.environment :: machine.stack.flatMap Task.outers

def Housed (frames : List FrameRef) (machine : Machine) : Prop :=
  ∀ frame ∈ machine.outers, frame ∈ frames ∨ frame.index < machine.state.heap.frames.size

section Steps

variable {frames : List FrameRef} {state : State} {stack : List Task}
  (home : state.environment ∈ frames) (rest : ∀ frame ∈ stack.flatMap Task.outers, frame ∈ frames)

include home rest

theorem housed_stay {result : State} {control : Control}
    (same : result.environment = state.environment) : Housed frames ⟨result, control, stack⟩ := by
  intro frame member
  rcases List.mem_cons.1 member with rfl | onStack
  · exact .inl (same ▸ home)
  · exact .inl (rest frame onStack)

theorem housed_task {result : State} {control : Control} {task : Task}
    (same : result.environment = state.environment) (plain : task.outers = []) :
    Housed frames ⟨result, control, task :: stack⟩ := by
  intro frame member
  rcases List.mem_cons.1 member with rfl | onStack
  · exact .inl (same ▸ home)
  · rw [List.flatMap_cons, plain, List.nil_append] at onStack
    exact .inl (rest frame onStack)

theorem housed_enter {result : State}
    (fresh : result.environment.index < result.heap.frames.size) (control : Control)
    {task : Task} (restores : task.outers = [state.environment]) (pushed : List Task)
    (plain : pushed.flatMap Task.outers = []) :
    Housed frames ⟨result, control, task :: (pushed ++ stack)⟩ := by
  intro frame member
  rcases List.mem_cons.1 member with rfl | onStack
  · exact .inr fresh
  · rw [List.flatMap_cons, List.flatMap_append, restores, plain, List.nil_append] at onStack
    rcases List.mem_append.1 onStack with present | below
    · rw [List.mem_singleton.1 present]
      exact .inl home
    · exact .inl (rest frame below)

theorem evaluate_housed (term : Expr) : Housed frames (evaluate state term stack) := by
  have reads (line : Nat) (result : Except Heap.AccessFault Value) :
      Housed frames (deliverRead state line result stack) := by
    cases result <;> exact housed_stay home rest rfl
  cases term with
  | literal id value => exact housed_stay home rest rfl
  | grouping id inner => exact housed_stay home rest rfl
  | variableRef id name => exact reads _ _
  | thisRef id keyword => exact reads _ _
  | baseRef id keyword name =>
      have outcome := evaluate_base_outcome state id keyword name stack
      simp only [evaluate]
      generalize evaluateBase state id keyword name stack = machine at outcome ⊢
      cases outcome <;> exact housed_stay home rest rfl
  | _ => exact housed_task home rest rfl rfl

theorem define_class_housed (name : Token) (parent : Option ClassRef)
    (methods : List FunctionDecl) : Housed frames (defineClass state name parent methods stack) := by
  cases parent <;> exact housed_stay home rest rfl

theorem execute_housed (clause : Stmt) : Housed frames (execute state clause stack) := by
  cases clause with
  | expression expr => exact housed_stay home rest rfl
  | varDecl name initializer =>
      cases initializer with
      | none => exact housed_stay home rest rfl
      | some initializer => exact housed_task home rest rfl rfl
  | functionDecl decl => exact housed_stay home rest rfl
  | classDecl name base methods =>
      cases base with
      | none => exact define_class_housed home rest name none methods
      | some base => exact housed_task home rest rfl rfl
  | block body =>
      refine housed_enter home rest ?_ _ rfl [] rfl
      simp [State.enter, Heap.nextFrame, Heap.addFrame]
  | returnStmt keyword value =>
      cases value with
      | none => exact housed_stay home rest rfl
      | some value => exact housed_task home rest rfl rfl
  | _ => exact housed_task home rest rfl rfl

theorem enter_call_housed {heap : Heap} (closure : Closure) (given : List Value)
    (completion : Completion) :
    Housed frames (enterCall { state with heap := heap } closure given completion stack) := by
  refine housed_enter home rest ?_ _ rfl [.leaveCall completion] rfl
  simp [State.enter, Heap.nextFrame, Heap.addFrame]

theorem call_value_housed (callee : Value) (given : List Value) (line : Nat) :
    Housed frames (callValue state callee given line stack) := by
  have outcome := call_value_outcome state given line stack callee
  generalize callValue state callee given line stack = machine at outcome ⊢
  cases outcome with
  | entered => exact enter_call_housed home rest _ _ _
  | constructed => exact enter_call_housed home rest _ _ _
  | _ => exact housed_stay home rest rfl

theorem release_housed {task : Task} (own : ∀ frame ∈ task.outers, frame ∈ frames)
    (control : Control) : Housed frames ⟨task.release state, control, stack⟩ := by
  have restored : (task.release state).environment ∈ frames := by
    cases task with
    | block remaining outer => exact own outer (List.mem_singleton_self _)
    | _ => exact home
  exact housed_stay restored rest rfl

theorem resume_housed (value : Value) {task : Task} (own : ∀ frame ∈ task.outers, frame ∈ frames) :
    Housed frames (resume state value task stack) := by
  have outcome := resume_outcome state stack value task
  generalize resume state value task stack = machine at outcome ⊢
  cases outcome with
  | bareCall => exact call_value_housed home rest _ _ _
  | lastCall => exact call_value_housed home rest _ _ _
  | left | firstArgument | nextArgument | setObject | turn | again | programNext =>
      exact housed_task home rest rfl rfl
  | blockEnds => exact release_housed home rest own _
  | blockNext =>
      intro frame member
      rcases List.mem_cons.1 member with rfl | onStack
      · exact .inl home
      · rcases List.mem_append.1 onStack with restored | below
        · exact .inl (own frame restored)
        · exact .inl (rest frame below)
  | _ => exact housed_stay home rest rfl

end Steps

/-- The present frame after a step was to be restored, or is one that exists. So frames are only
ever left for others that are there. -/
theorem next_housed (machine : Machine) : Housed machine.outers machine.next := by
  rcases machine with ⟨state, control, stack⟩
  have home : state.environment ∈ outers ⟨state, control, stack⟩ := List.mem_cons_self
  have rest : ∀ frame ∈ stack.flatMap Task.outers, frame ∈ outers ⟨state, control, stack⟩ :=
    fun frame member => List.mem_cons_of_mem _ member
  cases control with
  | evaluate term => exact evaluate_housed home rest term
  | execute clause => exact execute_housed home rest clause
  | done value =>
      cases stack with
      | nil => exact housed_stay home rest rfl
      | cons task stack =>
          rw [List.flatMap_cons, List.forall_mem_append] at rest
          exact resume_housed home rest.2 value rest.1
  | returning value =>
      cases stack with
      | nil => exact housed_stay home rest rfl
      | cons task stack =>
          rw [List.flatMap_cons, List.forall_mem_append] at rest
          cases task <;> exact release_housed home rest.2 rest.1 _
  | failing fault =>
      cases stack with
      | nil => exact housed_stay home rest rfl
      | cons task stack =>
          rw [List.flatMap_cons, List.forall_mem_append] at rest
          exact release_housed home rest.2 rest.1 _

def Classed (heap : Heap) : Prop :=
  ∀ ref object, heap.instance? ref = some object → object.cls.index < heap.classes.size

theorem classed_add_instance {heap : Heap} (classed : Classed heap) {ref : ClassRef}
    (present : ref.index < heap.classes.size) : Classed (heap.addInstance ⟨ref, .empty⟩) := by
  intro sought object found
  simp only [Heap.instance?, Heap.addInstance, Array.getElem?_push] at found
  split at found
  · cases found
    exact present
  · exact classed sought object found

theorem classed_set_field {heap : Heap} (classed : Classed heap) (ref : InstanceRef) (name : String)
    (value : Value) : Classed (heap.setField ref name value) := by
  intro sought object found
  simp only [Heap.instance?, Heap.setField, Array.getElem?_modify] at found
  split at found
  · obtain ⟨before, isBefore, rfl⟩ := Option.map_eq_some_iff.1 found
    exact classed sought before isBefore
  · exact classed sought object found

theorem effect_classed {tagged : Tagged} {later : Store} (knows : Knows tagged.machine)
    (classed : Classed tagged.machine.state.heap) (effect : Effect tagged later) :
    Classed later.heap := by
  have more := classes_kept_size (effect_classes effect)
  have kept : ∀ ref object, tagged.machine.state.heap.instance? ref = some object →
      object.cls.index < later.heap.classes.size := fun ref object found =>
    Nat.lt_of_lt_of_le (classed ref object found) more
  cases effect with
  | setField => exact classed_set_field classed _ _ _
  | create calls none =>
      exact classed_add_instance classed (knows.values _ (calls_given calls).1)
  | construct calls found =>
      exact classed_add_instance classed (knows.values _ (calls_given calls).1)
  | _ => exact kept

/-- The ways of a machine outwards: the heap is rooted in the globals, and the frames that are
or will be the present one exist. -/
structure Anchored (machine : Machine) : Prop where
  rooted : machine.state.heap.Rooted
  globals : machine.state.globals = ⟨0⟩
  outers : ∀ frame ∈ machine.outers, frame.index < machine.state.heap.frames.size
  classed : Classed machine.state.heap

theorem anchored_load (program : Program) (state : State) : Anchored (program.load state) := by
  refine ⟨rooted_initial, rfl, fun frame member => ?_, fun ref object found => ?_⟩
  · have first : frame = ⟨0⟩ := by
      simpa [outers, Program.load, load, State.reset, State.fresh, Task.outers] using member
    rw [first]
    exact Nat.one_pos
  · simp [Heap.instance?, Program.load, load, State.reset, State.fresh, initialHeap] at found

theorem anchored_next {machine : Machine} (anchored : Anchored machine) (knows : Knows machine) :
    Anchored machine.next := by
  obtain ⟨rooted, globals, exist, classed⟩ := anchored
  have effect : Effect ⟨machine, []⟩ (Tagged.next ⟨machine, []⟩).store := next_effect ⟨machine, []⟩
  refine ⟨effect_rooted rooted (exist _ List.mem_cons_self) effect,
    (next_persists machine).globals.trans globals, fun frame member => ?_,
    effect_classed knows classed effect⟩
  rcases next_housed machine frame member with before | present
  · exact Nat.lt_of_lt_of_le (exist frame before) (next_frames_le machine)
  · exact present

theorem anchored_run (program : Program) (state : State) (steps : Nat) :
    Anchored ((program.load state).run steps) := by
  induction steps with
  | zero => exact anchored_load program state
  | succ steps induction =>
      rw [run_succ]
      exact anchored_next induction (knows_run program state steps)

end Machine

section Ways

/-- `Outwards heap globals frame path`: from the frame, parent links lead through the path to the
globals. No frame is met twice, and all accesses through the frame look at the frames of the
path only, in their order. -/
structure Outwards (heap : Heap) (globals frame : FrameRef) (path : List FrameRef) : Prop where
  chain : Chain heap.parent? frame path
  nodup : path.Nodup
  ends : path.getLast? = some globals
  fits : path.length ≤ heap.frames.size
  ancestors : ∀ distance, heap.ancestor? frame distance = path[distance]?
  searches : ∀ name budget, path.length ≤ budget →
    heap.holderWithin name budget frame = path.find? fun ref => (heap.local? ref name).isSome

/-- `Upwards heap ref path`: from the class, base classes lead through the path to a class
without a base. No class is met twice, and searches look at the classes of the path only. -/
structure Upwards (heap : Heap) (ref : ClassRef) (path : List ClassRef) : Prop where
  chain : Chain heap.baseClass? ref path
  nodup : path.Nodup
  fits : path.length ≤ heap.classes.size
  methods : ∀ name budget, path.length ≤ budget →
    heap.methodWithin name budget ref = path.findSome? (heap.ownMethod? name)
  constructors : ∀ budget, path.length ≤ budget →
    heap.constructorWithin budget ref = path.findSome? heap.ownConstructor?

theorem nodup_length_le {Ref : Type} {path : List Ref} (index : Ref → Nat)
    (injective : Function.Injective index) (nodup : path.Nodup) {bound : Nat}
    (below : ∀ ref ∈ path, index ref < bound) : path.length ≤ bound := by
  have inside : path.map index ⊆ List.range bound := by
    intro place member
    obtain ⟨ref, inPath, rfl⟩ := List.mem_map.1 member
    exact List.mem_range.2 (below ref inPath)
  simpa using ((List.Nodup.map injective nodup).subperm inside).length_le

variable {heap : Heap}

/-- From every frame there is a way outwards to the globals, since parents are older than what lies
inside them. -/
theorem outwards_exists (rooted : heap.Rooted) {frame : FrameRef}
    (present : frame.index < heap.frames.size) : ∃ path, Outwards heap ⟨0⟩ frame path := by
  have smaller (ref other : FrameRef) (exists_lt : ref.index < heap.frames.size)
      (isParent : heap.parent? ref = some other) :
      other.index < heap.frames.size ∧ other.index < ref.index := by
    obtain ⟨content, found, held⟩ := Option.bind_eq_some_iff.1 isParent
    have inside : ref ≠ ⟨0⟩ := by
      rintro rfl
      obtain ⟨first, isFirst, noParent⟩ := rooted.outermost
      rw [isFirst] at found
      cases found
      rw [noParent] at held
      cases held
    obtain ⟨parent, same, older⟩ := rooted.inner ref content found inside
    rw [held] at same
    cases same
    exact ⟨Nat.lt_trans older exists_lt, older⟩
  obtain ⟨path, chain, exist⟩ := chain_exists FrameRef.index smaller present
  have nodup := chain_nodup chain
  obtain ⟨final, isLast, member, ended⟩ := chain_ends chain
  have isOutermost : final = ⟨0⟩ := by
    by_contra inside
    have found := Array.getElem?_eq_getElem (exist final member)
    obtain ⟨parent, held, -⟩ := rooted.inner final _ found inside
    rw [Heap.parent?, Heap.frame?, found, Option.bind_some, held] at ended
    cases ended
  have injective : Function.Injective FrameRef.index := fun first second same =>
    congrArg FrameRef.mk same
  exact ⟨path, chain, nodup, isOutermost ▸ isLast, nodup_length_le _ injective nodup exist,
    Heap.chain_ancestor chain, fun name budget enough => Heap.chain_holder chain name enough⟩

theorem upwards_exists (ancestral : heap.Ancestral) {ref : ClassRef}
    (present : ref.index < heap.classes.size) : ∃ path, Upwards heap ref path := by
  have smaller (ref other : ClassRef) (exists_lt : ref.index < heap.classes.size)
      (isBase : heap.baseClass? ref = some other) :
      other.index < heap.classes.size ∧ other.index < ref.index := by
    obtain ⟨cls, found, held⟩ := Option.bind_eq_some_iff.1 isBase
    have older := ancestral ref cls other found held
    exact ⟨Nat.lt_trans older exists_lt, older⟩
  obtain ⟨path, chain, exist⟩ := chain_exists ClassRef.index smaller present
  have injective : Function.Injective ClassRef.index := fun first second same =>
    congrArg ClassRef.mk same
  exact ⟨path, chain, chain_nodup chain, nodup_length_le _ injective (chain_nodup chain) exist,
    fun name budget enough => Heap.chain_method chain name enough,
    fun budget enough => Heap.chain_constructor chain enough⟩

end Ways

namespace Machine

/-- All ways of a machine end: those of frames at the globals, which have no parent, and those of
classes at a class without a base. Every class that a value names or that an instance is of is
such a class. -/
structure WaysEnd (machine : Machine) : Prop where
  globals : ∃ content, machine.state.heap.frame? machine.state.globals = some content ∧
    content.parent = none
  present : ∃ path,
    Outwards machine.state.heap machine.state.globals machine.state.environment path
  frames : ∀ frame content, machine.state.heap.frame? frame = some content →
    ∃ path, Outwards machine.state.heap machine.state.globals frame path
  functions : ∀ ref closure, machine.state.heap.function? ref = some closure →
    ∃ path, Outwards machine.state.heap machine.state.globals closure.frame path
  methods : ∀ ref cls name closure, machine.state.heap.class? ref = some cls →
    cls.methods.get? name = some closure →
      ∃ path, Outwards machine.state.heap machine.state.globals closure.frame path
  classes : ∀ ref cls, machine.state.heap.class? ref = some cls →
    ∃ path, Upwards machine.state.heap ref path
  values : ∀ value ∈ machine.values, value.Known machine.state.heap.classes.size
  held : ∀ frame name value, machine.state.heap.local? frame name = some value →
    value.Known machine.state.heap.classes.size
  fields : ∀ ref name value, machine.state.heap.field? ref name = some value →
    value.Known machine.state.heap.classes.size
  instances : ∀ ref object, machine.state.heap.instance? ref = some object →
    object.cls.index < machine.state.heap.classes.size

/-- At every point of every run, with any statements and any table, all ways end. Frames are only
made inside older ones and classes derived from older ones, so no way leads back. -/
theorem ways_end (program : Program) (state : State) (steps : Nat) :
    WaysEnd ((program.load state).run steps) := by
  obtain ⟨rooted, globals, exist, classed⟩ := anchored_run program state steps
  obtain ⟨values, known⟩ := knows_run program state steps
  have outwards {frame : FrameRef}
      (present : frame.index < ((program.load state).run steps).state.heap.frames.size) :
      ∃ path, Outwards ((program.load state).run steps).state.heap
        ((program.load state).run steps).state.globals frame path := by
    rw [globals]
    exact outwards_exists rooted present
  constructor
  case globals => exact globals ▸ rooted.outermost
  case present => exact outwards (exist _ List.mem_cons_self)
  case frames => exact fun frame content found => outwards (frame_lt found)
  case functions => exact fun ref closure found => outwards (rooted.functions ref closure found)
  case methods =>
    intro ref cls name closure found held
    exact outwards (rooted.methods ref cls name closure found held)
  case classes => exact fun ref cls found => upwards_exists known.ancestral (Heap.class_lt found)
  case values => exact values
  case held => exact known.frames
  case fields => exact known.fields
  case instances => exact classed

end Machine

end Quill
