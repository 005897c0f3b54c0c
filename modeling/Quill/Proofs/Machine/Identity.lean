import Quill.Proofs.Machine.Dispatch
import Quill.Proofs.Machine.Returns
import Quill.Proofs.Tree.Routines

/-!
The identity of receivers. A frame that binds a receiver holds nothing else and never changes,
and so does the frame of a base class. A method is bound before a program gets hold of it or
calls it. So a class that is called gives the instance that was made for the call, and a
constructor that is called by itself gives the receiver it is bound to.
-/

namespace Quill.Machine

set_option autoImplicit false

open Scope (Layer Place positions routinePositions)

/-- What holds throughout a run about receivers, base classes, methods and constructors. The trace
gives the machine at each time, and what a step has made is followed to all later times. -/
structure KeepsIdentity (trace : Nat → Machine) : Prop where
  /-- The frame that binds a receiver holds it under `this`, and nothing else, ever after. -/
  receivers : ∀ time method receiver, Binds (trace time) method receiver →
    ∀ later, time < later →
      (trace later).state.heap.frame? (trace time).state.heap.nextFrame =
        some ⟨some method.frame, ⟨[("this", .instanceRef receiver)]⟩⟩
  /-- A derived class keeps its base class, and so does the frame around its methods, which
  holds it under `base`, and nothing else, ever after. -/
  bases : ∀ time name parent methods, Makes (trace time) name (some parent) methods →
    ∀ later, time < later →
      (trace later).state.heap.frame? (trace time).state.heap.nextFrame =
          some ⟨some (trace time).state.environment, ⟨[("base", .classRef parent)]⟩⟩ ∧
        (trace later).state.heap.class? (trace time).state.heap.nextClass =
          some ⟨name.lexeme, some parent,
            Heap.methodTable name.lexeme (trace time).state.heap.nextFrame methods⟩
  /-- Every class with a base class was made so. -/
  derived : ∀ time ref cls parent, (trace time).state.heap.class? ref = some cls →
    cls.parent = some parent → ∃ made, made < time ∧ Derives (trace made) ref parent
  /-- No function of the program is a method as it stands in a table. -/
  unbound : ∀ time owner method, (trace time).state.heap.Belongs owner method →
    ∀ ref, (trace time).state.heap.function? ref ≠ some method
  /-- A call is over at once, or it enters a function that is in no table. -/
  called : ∀ time callee given line stack, Calls (trace time) callee given line stack →
    (trace (time + 1)).stack = stack ∨
      ∃ closure base completion, entered? (trace time).state.heap callee = some closure ∧
        trace (time + 1) = enterCall base closure given completion stack ∧
          ∀ owner, ¬ (trace time).state.heap.Belongs owner closure
  /-- A call of a class fails or gives a new instance of this class. -/
  instances : ∀ time ref given line stack, Calls (trace time) (.classRef ref) given line stack →
    (trace time).state.heap.instance? (trace time).state.heap.nextInstance = none ∧
      Yields trace time stack fun machine =>
        machine.control = .done (.instanceRef (trace time).state.heap.nextInstance) ∧
          ∃ object, machine.state.heap.instance? (trace time).state.heap.nextInstance = some object ∧
            object.cls = ref
  /-- A function that is a constructor is bound, and a call of it fails or gives its receiver. -/
  constructors : ∀ time ref closure given line stack,
    Calls (trace time) (.functionRef ref) given line stack →
      (trace time).state.heap.function? ref = some closure → closure.isConstructor = true →
        ∃ outer receiver, (trace time).state.heap.frame? closure.frame =
            some ⟨some outer, ⟨[("this", .instanceRef receiver)]⟩⟩ ∧
          Yields trace time stack fun machine => machine.control = .done (.instanceRef receiver)

theorem binds_frame {machine : Machine} {method : Closure} {receiver : InstanceRef}
    (binds : Binds machine method receiver) :
    machine.next.state.heap.frame? machine.state.heap.nextFrame =
      some (Heap.receiverFrame method receiver) := by
  cases binds with
  | @property state receiver name method stack found =>
      simp only [next, resume, found]
      exact Heap.frame_addFrame state.heap _
  | @base state id keyword name parent receiver method stack operands found =>
      simp only [next, evaluate, evaluateBase, operands, found]
      exact Heap.frame_addFrame state.heap _
  | @construct machine ref given line stack method calls allowed found =>
      rw [calls_next calls]
      simp only [callValue, callClass, allowed, found]
      have framed := Heap.frame_addFrame (machine.state.heap.addInstance ⟨ref, .empty⟩)
        (Heap.receiverFrame method machine.state.heap.nextInstance)
      refine (frame_add_frame _ _ _).trans ((if_neg ?_).trans framed)
      simp [Heap.nextFrame, State.addInstance, State.addFrame, Heap.addFrame, Heap.addInstance]

theorem derived_frame_made {machine : Machine} {name : Token} {parent : ClassRef}
    {methods : List FunctionDecl}
    (present : machine.state.environment.index < machine.state.heap.frames.size)
    (makes : Makes machine name (some parent) methods) :
    machine.next.state.heap.frame? machine.state.heap.nextFrame =
      some ⟨some machine.state.environment, Bindings.empty.insert "base" (.classRef parent)⟩ := by
  cases makes with
  | @derived state name base methods parent stack =>
      have different : state.environment ≠ state.heap.nextFrame := by
        intro same
        rw [same] at present
        exact Nat.lt_irrefl _ present
      have framed := Heap.frame_addFrame state.heap
        ⟨some state.environment, Bindings.empty.insert "base" (.classRef parent)⟩
      refine (frame_define _ _ _ _ _).trans ((congrArg _ framed).trans ?_)
      exact congrArg some (if_neg different)

section Reached

variable {program : Program} (accepted : Accepted program) (state : State)

include accepted

/-- A frame that holds `this` or `base` never changes again. -/
theorem run_frame_kept {time later : Nat} (le : time ≤ later) {ref : FrameRef} {frame : Frame}
    (found : ((program.load state).run time).state.heap.frame? ref = some frame) {name : String}
    (improper : ¬ Token.Ordinary name) (held : (frame.bindings.get? name).isSome) :
    ((program.load state).run later).state.heap.frame? ref = some frame := by
  rw [← reached_machine] at found ⊢
  have isSealed := holder_sealed (reached_provenance accepted state time) found improper held
  exact (reached_keeps accepted state le).frames ref frame isSealed found

theorem receivers_kept {time : Nat} {method : Closure} {receiver : InstanceRef}
    (binds : Binds ((program.load state).run time) method receiver) {later : Nat}
    (after : time < later) :
    ((program.load state).run later).state.heap.frame?
        ((program.load state).run time).state.heap.nextFrame =
      some (Heap.receiverFrame method receiver) := by
  have made := binds_frame binds
  rw [← run_succ] at made
  have improper : ¬ Token.Ordinary "this" := by decide
  exact run_frame_kept accepted state after made improper (by simp [Heap.receiverFrame])

theorem makes_environment {time : Nat} {name : Token} {parent : ClassRef}
    {methods : List FunctionDecl}
    (makes : Makes ((program.load state).run time) name (some parent) methods) :
    ((program.load state).run time).state.environment.index <
      ((program.load state).run time).state.heap.frames.size := by
  have inStep := reached_in_step accepted state time
  rw [← reached_machine] at makes ⊢
  rcases shape : reached program state time with ⟨machine, origins⟩
  rw [shape] at inStep makes
  simp only at makes
  cases makes with
  | derived =>
      have runs := inStep.runs
      cases runs with
      | done waits =>
          obtain ⟨place, node, member, continues, fits, -⟩ := waits_top waits
          exact fits_lt inStep.state.store fits

theorem bases_kept {time : Nat} {name : Token} {parent : ClassRef} {methods : List FunctionDecl}
    (makes : Makes ((program.load state).run time) name (some parent) methods) {later : Nat}
    (after : time < later) :
    ((program.load state).run later).state.heap.frame?
        ((program.load state).run time).state.heap.nextFrame =
      some ⟨some ((program.load state).run time).state.environment,
        Bindings.empty.insert "base" (.classRef parent)⟩ := by
  have made := derived_frame_made (makes_environment accepted state makes) makes
  rw [← run_succ] at made
  have improper : ¬ Token.Ordinary "base" := by decide
  exact run_frame_kept accepted state after made improper (by simp)

theorem run_instance_kept {time later : Nat} (le : time ≤ later) {ref : InstanceRef}
    {object : Instance}
    (found : ((program.load state).run time).state.heap.instance? ref = some object) :
    ∃ changed, ((program.load state).run later).state.heap.instance? ref = some changed ∧
      changed.cls = object.cls := by
  have kept := (reached_keeps accepted state le).instances ref object
  simp only [Tagged.store, reached_machine] at kept
  exact kept found

end Reached

theorem call_class_cases (state : State) (ref : ClassRef) (given : List Value) (line : Nat)
    (stack : List Task) :
    (∃ fault, callClass state ref given line stack = fail state line fault stack) ∨
      callClass state ref given line stack = ⟨state.addInstance ⟨ref, .empty⟩,
        .done (.instanceRef state.heap.nextInstance), stack⟩ ∨
      ∃ base closure, base.heap.instance? state.heap.nextInstance = some ⟨ref, .empty⟩ ∧
        callClass state ref given line stack =
          enterCall base closure given (.created state.heap.nextInstance) stack := by
  have outcome := call_value_outcome state given line stack (.classRef ref)
  change CallOutcome state given line stack _ (callClass state ref given line stack) at outcome
  generalize callClass state ref given line stack = machine at outcome ⊢
  cases outcome with
  | uncallable takes => cases takes
  | refused => exact .inl ⟨_, rfl⟩
  | created => exact .inr (.inl rfl)
  | constructed =>
      refine .inr (.inr ⟨_, _, ?_, rfl⟩)
      simp [State.addFrame, State.addInstance, Heap.addFrame, Heap.addInstance, Heap.instance?,
        Heap.nextInstance]

theorem enter_call_pending (base : State) (closure : Closure) (given : List Value)
    (completion : Completion) (stack : List Task) :
    Pending completion stack (enterCall base closure given completion stack) :=
  ⟨[_], rfl⟩

section Calls

variable {program : Program} (accepted : Accepted program) (state : State) {time : Nat}
  {given : List Value} {line : Nat} {stack : List Task}

include accepted

/-- A call of a class fails or gives a new instance of this class. The instance is made before its
constructor runs, and is handed back whatever the constructor returns. -/
theorem class_call_yields {ref : ClassRef}
    (calls : Calls ((program.load state).run time) (.classRef ref) given line stack) :
    Yields (fun time => (program.load state).run time) time stack fun machine =>
      machine.control =
          .done (.instanceRef ((program.load state).run time).state.heap.nextInstance) ∧
        ∃ object, machine.state.heap.instance?
            ((program.load state).run time).state.heap.nextInstance = some object ∧
          object.cls = ref := by
  have next : (program.load state).run (time + 1) =
      callClass ((program.load state).run time).state ref given line stack := by
    rw [run_succ]
    exact calls_next calls
  rcases call_class_cases ((program.load state).run time).state ref given line stack with
    ⟨fault, failed⟩ | created | ⟨base, closure, isObject, entered⟩
  · apply yields_at_once
    · rw [next, failed]
      rfl
    · rw [next, failed]
      exact .inl ⟨_, rfl⟩
  · apply yields_at_once
    · rw [next, created]
    · rw [next, created]
      refine .inr ⟨rfl, ⟨ref, .empty⟩, ?_, rfl⟩
      simp [State.addInstance, Heap.addInstance, Heap.instance?, Heap.nextInstance]
  · apply pending_yields (fun time => run_succ _ time)
    · rw [next, entered]
      exact enter_call_pending _ _ _ _ _
    · intro moment value after kept delivered
      have made : ((program.load state).run (time + 1)).state.heap.instance?
          ((program.load state).run time).state.heap.nextInstance = some ⟨ref, .empty⟩ := by
        rw [next, entered]
        exact isObject
      obtain ⟨object, found, same⟩ :=
        run_instance_kept accepted state (Nat.le_succ_of_le after) made
      exact ⟨delivered, object, found, same⟩

theorem constructor_call_yields {ref : FunctionRef} {closure : Closure} {outer : FrameRef}
    {receiver : InstanceRef}
    (calls : Calls ((program.load state).run time) (.functionRef ref) given line stack)
    (found : ((program.load state).run time).state.heap.function? ref = some closure)
    (constructs : closure.isConstructor = true)
    (bound : ((program.load state).run time).state.heap.frame? closure.frame =
      some ⟨some outer, ⟨[("this", .instanceRef receiver)]⟩⟩) :
    Yields (fun time => (program.load state).run time) time stack fun machine =>
      machine.control = .done (.instanceRef receiver) := by
  have next : (program.load state).run (time + 1) =
      callFunction ((program.load state).run time).state closure given line stack := by
    rw [run_succ, calls_next calls]
    simp only [callValue, found]
  unfold callFunction at next
  split at next
  next fault refused =>
    apply yields_at_once
    · rw [next]
      rfl
    · rw [next]
      exact .inl ⟨_, rfl⟩
  next allowed =>
    rw [if_pos constructs] at next
    apply pending_yields (fun time => run_succ _ time)
    · rw [next]
      exact enter_call_pending _ _ _ _ _
    · intro moment value after kept delivered
      have improper : ¬ Token.Ordinary "this" := by decide
      have still := run_frame_kept accepted state (Nat.le_of_lt after) bound improper rfl
      have this : ((program.load state).run moment).state.heap.local? closure.frame "this" =
          some (.instanceRef receiver) := by
        rw [Heap.local?, still]
        rfl
      rw [delivered, Completion.result, this]
      rfl

end Calls

section Unbound

variable {source : String} {program : Program} (compiles : Program.compile source = .ok program)
  {store : Store} (known : Provenance program.statements store)

theorem belongs_frame (known : Provenance program.statements store) {owner : ClassRef}
    {method : Closure} (belongs : store.heap.Belongs owner method) :
    method.frame.index < store.heap.frames.size ∧
      store.origins[method.frame.index]? ≠ some .receiver := by
  obtain ⟨cls, isClass, held⟩ := belongs
  obtain ⟨-, -, surrounds⟩ := known.classes owner cls isClass method.name method held
  have tagged : ∃ origin, store.origins[method.frame.index]? = some origin ∧ origin ≠ .receiver := by
    cases isParent : cls.parent with
    | none =>
        rw [isParent] at surrounds
        obtain ⟨origin, tag, isOpen⟩ := surrounds
        refine ⟨origin, tag, ?_⟩
        intro same
        rw [same] at isOpen
        cases isOpen
    | some parent =>
        rw [isParent] at surrounds
        exact ⟨_, surrounds.1, by simp⟩
  rcases tagged with ⟨origin, tag, different⟩
  constructor
  · rw [← known.sized]
    exact (List.getElem?_eq_some_iff.1 tag).1
  · intro same
    exact different (Option.some.inj (tag.symm.trans same))

include compiles known

/-- A function of the program is no method of a table: it was declared by a statement, which
stands elsewhere, or it closes over the frame of its receiver. -/
theorem function_unbound (sound : StoreSound program.statements store) {owner : ClassRef}
    {method : Closure} (belongs : store.heap.Belongs owner method) (ref : FunctionRef) :
    store.heap.function? ref ≠ some method := by
  intro found
  obtain ⟨-, frame⟩ := belongs_frame known belongs
  obtain ⟨cls, isClass, held⟩ := belongs
  obtain ⟨className, derived, layers, inside, -⟩ := sound.methods owner cls _ _ isClass held
  cases known.functions ref method found with
  | bound isAt bindable => exact frame isAt.1
  | @declared decl _ around stated opened =>
      have below := Scope.below_subset stated
      have function : (.plain (Scope.holding decl.name around), .routine decl) ∈
          positions program.statements := by
        apply below
        rcases decl with ⟨name, parameters, body⟩
        exact List.mem_cons_of_mem _ (List.mem_cons_of_mem _ List.mem_cons_self)
      have ofClass : (.plain (⟨.receiver className derived, ["this"]⟩ :: layers), .routine decl) ∈
          positions program.statements := by
        apply inside
        rcases decl with ⟨name, parameters, body⟩
        exact List.mem_cons_self
      have same := Scope.routine_unique compiles function ofClass
      have housed := (Scope.positions_settled _ _ stated (by simp)).housed
      have code : Scope.Housed (Scope.holding decl.name around) :=
        Scope.housed_holding housed decl.name
      have layered : Scope.holding decl.name around =
          ⟨.receiver className derived, ["this"]⟩ :: layers := congrArg Place.layers same
      rw [layered] at code
      cases Scope.housed_head code

theorem entered_unbound (sound : StoreSound program.statements store) {callee : Value}
    {closure : Closure} (entered : entered? store.heap callee = some closure) (owner : ClassRef) :
    ¬ store.heap.Belongs owner closure := by
  intro belongs
  cases callee with
  | functionRef ref => exact function_unbound compiles known sound belongs ref entered
  | classRef ref =>
      obtain ⟨method, -, rfl⟩ := Option.map_eq_some_iff.1 entered
      exact Nat.lt_irrefl _ (belongs_frame known belongs).1
  | _ => cases entered

end Unbound

section Runs

variable {source : String} {program : Program} (compiles : Program.compile source = .ok program)
  (state : State) {time : Nat}

include compiles

theorem run_function_unbound {owner : ClassRef} {method : Closure}
    (belongs : ((program.load state).run time).state.heap.Belongs owner method) (ref : FunctionRef) :
    ((program.load state).run time).state.heap.function? ref ≠ some method := by
  have accepted := compile_accepted compiles
  rw [← reached_machine] at belongs ⊢
  exact function_unbound compiles (reached_provenance accepted state time)
    (reached_in_step accepted state time).state.store belongs ref

theorem call_unbound {callee : Value} {given : List Value} {line : Nat} {stack : List Task}
    (calls : Calls ((program.load state).run time) callee given line stack) :
    ((program.load state).run (time + 1)).stack = stack ∨
      ∃ closure base completion,
        entered? ((program.load state).run time).state.heap callee = some closure ∧
          (program.load state).run (time + 1) = enterCall base closure given completion stack ∧
            ∀ owner, ¬ ((program.load state).run time).state.heap.Belongs owner closure := by
  have accepted := compile_accepted compiles
  have next : (program.load state).run (time + 1) =
      callValue ((program.load state).run time).state callee given line stack := by
    rw [run_succ]
    exact calls_next calls
  rcases call_value_enters ((program.load state).run time).state callee given line stack with
    ⟨ended, -⟩ | ⟨closure, base, completion, entered, -, same⟩
  · exact .inl (next ▸ ended)
  · refine .inr ⟨closure, base, completion, entered, next.trans same, ?_⟩
    rw [← reached_machine] at entered ⊢
    exact entered_unbound compiles (reached_provenance accepted state time)
      (reached_in_step accepted state time).state.store entered

theorem constructor_bound {ref : FunctionRef} {closure : Closure}
    (found : ((program.load state).run time).state.heap.function? ref = some closure)
    (constructs : closure.isConstructor = true) :
    ∃ outer receiver, ((program.load state).run time).state.heap.frame? closure.frame =
      some ⟨some outer, ⟨[("this", .instanceRef receiver)]⟩⟩ := by
  have known := reached_provenance (compile_accepted compiles) state time
  rw [← reached_machine] at found ⊢
  cases known.functions ref closure found with
  | declared stated opened => cases constructs
  | @bound method receiver frame isAt bindable => exact ⟨method.frame, receiver, isAt.2⟩

end Runs

/-- Receivers keep their identity, and constructors give their instance: of every run of a
program that compiles, all the statements of `KeepsIdentity` hold. -/
theorem identity_preserved {source : String} {program : Program}
    (compiles : Program.compile source = .ok program) (state : State) :
    KeepsIdentity fun time => (program.load state).run time := by
  have accepted := compile_accepted compiles
  constructor
  · intro time method receiver binds later after
    exact receivers_kept accepted state binds after
  · intro time name parent methods makes later after
    have made := derived_class_made makes
    rw [← run_succ] at made
    constructor
    · exact bases_kept accepted state makes after
    · exact run_classes_kept accepted state after _ _ made
  · intro time ref cls parent found isParent
    obtain ⟨made, name, methods, before, makes, fresh⟩ := class_made program state found
    rw [isParent] at makes
    exact ⟨made, before, name, methods, makes, fresh⟩
  · intro time owner method belongs ref
    exact run_function_unbound compiles state belongs ref
  · intro time callee given line stack calls
    exact call_unbound compiles state calls
  · intro time ref given line stack calls
    constructor
    · simp [Heap.instance?, Heap.nextInstance]
    · exact class_call_yields accepted state calls
  · intro time ref closure given line stack calls found constructs
    obtain ⟨outer, receiver, bound⟩ := constructor_bound compiles state found constructs
    exact ⟨outer, receiver, bound,
      constructor_call_yields accepted state calls found constructs bound⟩

def bareCall? : Machine → Option (FunctionRef × Closure × Nat × List Task)
  | ⟨state, .done (.functionRef ref), .callee paren [] :: stack⟩ =>
      (state.heap.function? ref).map fun closure => (ref, closure, paren.line, stack)
  | _ => none

theorem bare_call_calls {machine : Machine} {ref : FunctionRef} {closure : Closure} {line : Nat}
    {stack : List Task} (called : bareCall? machine = some (ref, closure, line, stack)) :
    Calls machine (.functionRef ref) [] line stack ∧
      machine.state.heap.function? ref = some closure := by
  unfold bareCall? at called
  split at called
  next =>
    simp only [Option.map_eq_some_iff, Prod.mk.injEq] at called
    rcases called with ⟨found, isFound, rfl, rfl, rfl, rfl⟩
    exact ⟨.bare, isFound⟩
  next => cases called

def constructing : String :=
  "class A \x7b A() \x7b this.x = 1; \x7d \x7d class B : A \x7b \x7d var b = B(); b.A();"

theorem identity_preserved_constructing :
    ∃ program ref closure line stack outer receiver,
      Program.compile constructing = .ok program ∧
        let trace := fun time => (program.load (.fresh ⟨9, fun _ => 0⟩ .unlimited)).run time
        KeepsIdentity trace ∧ Calls (trace 27) (.functionRef ref) [] line stack ∧
          (trace 27).state.heap.function? ref = some closure ∧ closure.isConstructor = true ∧
            (trace 27).state.heap.frame? closure.frame =
                some ⟨some outer, ⟨[("this", .instanceRef receiver)]⟩⟩ ∧
              Yields trace 27 stack fun machine => machine.control = .done (.instanceRef receiver) := by
  have checked : (Program.compile constructing).toOption.bind (fun program =>
      (bareCall? ((program.load (.fresh ⟨9, fun _ => 0⟩ .unlimited)).run 27)).map fun call =>
        call.2.1.isConstructor) = some true := by decide +kernel
  simp only [Option.bind_eq_some_iff, Option.map_eq_some_iff] at checked
  rcases checked with ⟨program, compiled, ⟨ref, closure, line, stack⟩, called, constructs⟩
  have compiles := compiles_of_option compiled
  obtain ⟨calls, found⟩ := bare_call_calls called
  have keeps := identity_preserved compiles (.fresh ⟨9, fun _ => 0⟩ .unlimited)
  obtain ⟨outer, receiver, bound, yields⟩ :=
    keeps.constructors 27 ref closure [] line stack calls found constructs
  exact ⟨program, ref, closure, line, stack, outer, receiver, compiles, keeps, calls, found, constructs,
    bound, yields⟩

end Quill.Machine
