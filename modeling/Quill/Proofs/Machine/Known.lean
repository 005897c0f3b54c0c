import Quill.Proofs.Heap.Ancestry
import Quill.Proofs.Machine.Effects

/-!
Values that name classes. A step makes no such value except for the class it has just made:
all others it finds in a frame, in a field or in its own hands. So every value that names a
class names one that exists, and base classes are older than what is derived from them.
-/

namespace Quill

set_option autoImplicit false

def Value.Known (count : Nat) : Value → Prop
  | .classRef ref => ref.index < count
  | _ => True

theorem Value.known_le {value : Value} {count more : Nat} (known : value.Known count)
    (le : count ≤ more) : value.Known more := by
  cases value with
  | classRef ref => exact Nat.lt_of_lt_of_le known le
  | _ => trivial

namespace Machine

def Control.values : Control → List Value
  | done value => [value]
  | returning value => [value]
  | _ => []

def Task.values : Task → List Value
  | rightOperand left _ => [left]
  | argument called evaluated _ _ => called :: evaluated
  | _ => []

def values (machine : Machine) : List Value :=
  machine.control.values ++ machine.stack.flatMap Task.values

/-- Where a value comes from: it was at hand, it was bound in a frame, or it names no class. -/
inductive Source (machine : Machine) (value : Value) : Prop where
  | present (member : value ∈ machine.values)
  | bound {ref : FrameRef} {name : String} (held : machine.state.heap.local? ref name = some value)
  | field {ref : InstanceRef} {name : String}
      (held : machine.state.heap.field? ref name = some value)
  | other (known : value.Known 0)

def Sourced (machine next : Machine) : Prop := ∀ value ∈ next.values, Source machine value

theorem read_at_local {heap : Heap} {environment : FrameRef} {distance : Nat} {name : String}
    {value : Value} (read : heap.readAt environment distance name = .ok value) :
    ∃ ref, heap.local? ref name = some value := by
  unfold Heap.readAt at read
  split at read
  · cases read
  · next holder reached =>
    split at read
    · next held =>
      cases read
      exact ⟨holder, held⟩
    · cases read

theorem read_local {state : State} {id : Nat} {name : String} {value : Value}
    (read : state.read id name = .ok value) : ∃ ref, state.heap.local? ref name = some value := by
  unfold State.read at read
  split at read
  · exact read_at_local read
  · unfold Heap.read at read
    split at read
    · next held =>
      cases read
      obtain ⟨holder, -, found⟩ := Option.bind_eq_some_iff.1 held
      exact ⟨holder, found⟩
    · cases read

section Sources

variable {state : State} {control : Control} {stack : List Task}

theorem stack_present {value : Value} (member : value ∈ stack.flatMap Task.values) :
    Source ⟨state, control, stack⟩ value :=
  .present (List.mem_append_right _ member)

theorem task_present {task : Task} {value : Value}
    (member : value ∈ stack.flatMap Task.values) :
    Source ⟨state, control, task :: stack⟩ value := by
  apply stack_present
  rw [List.flatMap_cons]
  exact List.mem_append_right _ member

theorem rest_pushed {machine : Machine} {task : Task} (plain : task.values = [])
    (rest : ∀ value ∈ stack.flatMap Task.values, Source machine value) :
    ∀ value ∈ (task :: stack).flatMap Task.values, Source machine value := by
  rw [List.flatMap_cons, plain, List.nil_append]
  exact rest

theorem sourced_on {machine : Machine} {result : State} {outcome : Control}
    (rest : ∀ value ∈ stack.flatMap Task.values, Source machine value)
    (outcomes : ∀ value ∈ outcome.values, Source machine value) :
    Sourced machine ⟨result, outcome, stack⟩ := by
  intro value member
  rcases List.mem_append.1 member with inOutcome | inRest
  · exact outcomes value inOutcome
  · exact rest value inRest

theorem sourced_done {machine : Machine} {result : State} {value : Value}
    (rest : ∀ held ∈ stack.flatMap Task.values, Source machine held)
    (source : Source machine value) : Sourced machine ⟨result, .done value, stack⟩ := by
  apply sourced_on rest
  intro held member
  rw [List.mem_singleton.1 member]
  exact source

theorem sourced_fail {machine : Machine} {result : State} {line : Nat} {fault : Fault}
    (rest : ∀ held ∈ stack.flatMap Task.values, Source machine held) :
    Sourced machine (fail result line fault stack) :=
  sourced_on rest (List.forall_mem_nil _)

theorem evaluate_sourced (term : Expr) :
    Sourced ⟨state, .evaluate term, stack⟩ (evaluate state term stack) := by
  have rest : ∀ value ∈ stack.flatMap Task.values, Source ⟨state, .evaluate term, stack⟩ value :=
    fun value member => stack_present member
  have reads : ∀ line id name, Sourced ⟨state, .evaluate term, stack⟩
      (deliverRead state line (state.read id name) stack) := by
    intro line id name
    cases read : state.read id name with
    | error fault => exact sourced_fail rest
    | ok value =>
        obtain ⟨ref, held⟩ := read_local read
        exact sourced_done rest (.bound held)
  cases term with
  | literal id value =>
      apply sourced_done rest
      cases value <;> exact .other trivial
  | variableRef id name => exact reads name.line id name.lexeme
  | thisRef id keyword => exact reads keyword.line id keyword.lexeme
  | baseRef id keyword method =>
      have outcome := evaluate_base_outcome state id keyword method stack
      simp only [evaluate]
      generalize evaluateBase state id keyword method stack = machine at outcome ⊢
      cases outcome with
      | bound => exact sourced_done rest (.other trivial)
      | field operands none held => exact sourced_done rest (.field held)
      | _ => exact sourced_fail rest
  | grouping id inner => exact sourced_on rest (List.forall_mem_nil _)
  | _ => exact sourced_on (rest_pushed rfl rest) (List.forall_mem_nil _)

theorem execute_sourced (clause : Stmt) :
    Sourced ⟨state, .execute clause, stack⟩ (execute state clause stack) := by
  have rest : ∀ value ∈ stack.flatMap Task.values, Source ⟨state, .execute clause, stack⟩ value :=
    fun value member => stack_present member
  have quiet : ∀ result, Sourced ⟨state, .execute clause, stack⟩ ⟨result, .done .nil, stack⟩ :=
    fun result => sourced_done rest (.other trivial)
  cases clause with
  | varDecl name initializer =>
      cases initializer with
      | none => exact quiet _
      | some initializer => exact sourced_on (rest_pushed rfl rest) (List.forall_mem_nil _)
  | functionDecl decl => exact quiet _
  | classDecl name base methods =>
      cases base with
      | none => exact quiet _
      | some base => exact sourced_on (rest_pushed rfl rest) (List.forall_mem_nil _)
  | block body => exact sourced_done (rest_pushed rfl rest) (.other trivial)
  | returnStmt keyword value =>
      cases value with
      | none =>
          apply sourced_on rest
          intro held member
          rw [List.mem_singleton.1 member]
          exact .other trivial
      | some value => exact sourced_on (rest_pushed rfl rest) (List.forall_mem_nil _)
  | expression expr => exact sourced_on rest (List.forall_mem_nil _)
  | _ => exact sourced_on (rest_pushed rfl rest) (List.forall_mem_nil _)

theorem unary_known {operator : Kind} {right value : Value}
    (applied : applyUnary operator right = .ok value) : value.Known 0 := by
  unfold applyUnary at applied
  split at applied
  · split at applied <;> cases applied
    trivial
  · cases applied
    trivial
  · cases applied

theorem binary_known {heap : Heap} {operator : Kind} {left right value : Value}
    (applied : applyBinary heap left operator right = .ok value) : value.Known 0 := by
  unfold applyBinary at applied
  split at applied
  · cases applied
    trivial
  · cases applied
    trivial
  · unfold add at applied
    split at applied <;> cases applied <;> trivial
  · split at applied
    · unfold applyNumeric at applied
      split at applied <;> cases applied <;> trivial
    · cases applied

theorem call_sourced {machine : Machine} (callee : Value) (given : List Value) (line : Nat)
    (rest : ∀ held ∈ stack.flatMap Task.values, Source machine held) :
    Sourced machine (callValue state callee given line stack) := by
  have entered : ∀ base closure completion,
      Sourced machine (enterCall base closure given completion stack) :=
    fun base closure completion =>
      sourced_done (rest_pushed rfl (rest_pushed rfl rest)) (.other trivial)
  have outcome := call_value_outcome state given line stack callee
  generalize callValue state callee given line stack = after at outcome ⊢
  cases outcome with
  | uncallable => exact sourced_fail rest
  | refused => exact sourced_fail rest
  | unprinted => exact sourced_fail rest
  | entered => exact entered _ _ _
  | constructed => exact entered _ _ _
  | _ => exact sourced_done rest (.other trivial)

theorem finish_sourced {machine : Machine} (completion : Completion) {value : Value}
    (heap : machine.state.heap = state.heap) (source : Source machine value)
    (rest : ∀ held ∈ stack.flatMap Task.values, Source machine held) :
    Sourced machine (finishCall state completion value stack) := by
  apply sourced_done rest
  cases completion with
  | ordinary => exact source
  | created ref => exact .other trivial
  | receiver frame =>
      cases held : state.heap.local? frame "this" with
      | none =>
          rw [Completion.result, held]
          exact .other trivial
      | some receiver =>
          rw [Completion.result, held]
          exact .bound (heap ▸ held)

/-- What a task makes of a value comes from the value, from what the task has kept, or from a frame.
Operators make numbers, texts and truth values, which name no class. -/
theorem resume_sourced (value : Value) (task : Task) :
    Sourced ⟨state, .done value, task :: stack⟩ (resume state value task stack) := by
  have rest : ∀ held ∈ stack.flatMap Task.values,
      Source ⟨state, .done value, task :: stack⟩ held :=
    fun held member => task_present member
  have outcome : Source ⟨state, .done value, task :: stack⟩ value :=
    .present (List.mem_append_left _ (List.mem_singleton_self _))
  have own : ∀ held ∈ task.values, Source ⟨state, .done value, task :: stack⟩ held := by
    intro held member
    apply stack_present
    rw [List.flatMap_cons]
    exact List.mem_append_left _ member
  have more : ∀ (pushed : Task), (∀ held ∈ pushed.values, held = value ∨ held ∈ task.values) →
      ∀ held ∈ (pushed :: stack).flatMap Task.values,
        Source ⟨state, .done value, task :: stack⟩ held := by
    intro pushed parts held member
    rw [List.flatMap_cons] at member
    rcases List.mem_append.1 member with inPushed | inRest
    · rcases parts held inPushed with same | inTask
      · rw [same]
        exact outcome
      · exact own held inTask
    · exact rest held inRest
  have turned := resume_outcome state stack value task
  generalize resume state value task stack = machine at turned ⊢
  cases turned with
  | unary applied => exact sourced_done rest (.other (unary_known applied))
  | right applied => exact sourced_done rest (.other (binary_known applied))
  | left | firstArgument =>
      apply sourced_on (more _ ?_) (List.forall_mem_nil _)
      intro held member
      exact .inl (List.mem_singleton.1 member)
  | nextArgument =>
      apply sourced_on (more _ ?_) (List.forall_mem_nil _)
      intro held member
      simp only [Task.values, List.mem_cons, List.mem_append, List.not_mem_nil, or_false]
        at member ⊢
      tauto
  | bareCall => exact call_sourced value [] _ rest
  | lastCall => exact call_sourced _ _ _ rest
  | field found => exact sourced_done rest (.field (Heap.property_field found))
  | decided | assigned | setField => exact sourced_done rest outcome
  | bound | declared | derived | skipped | stopped | blockEnds | programEnds =>
      exact sourced_done rest (.other trivial)
  | undecided | taken | otherwise => exact sourced_on rest (List.forall_mem_nil _)
  | setObject | turn | again | blockNext | programNext =>
      exact sourced_on (rest_pushed rfl rest) (List.forall_mem_nil _)
  | returned =>
      apply sourced_on rest
      intro held member
      rw [List.mem_singleton.1 member]
      exact outcome
  | callEnds => exact finish_sourced _ rfl (.other trivial) rest
  | _ => exact sourced_fail rest

end Sources

/-- A step makes no value that names a class, except by reading it. -/
theorem next_sourced (machine : Machine) : Sourced machine machine.next := by
  rcases machine with ⟨state, control, stack⟩
  cases control with
  | evaluate term => exact evaluate_sourced term
  | execute clause => exact execute_sourced clause
  | done value =>
      cases stack with
      | nil => exact fun held member => .present member
      | cons task rest => exact resume_sourced value task
  | returning value =>
      cases stack with
      | nil => exact fun held member => .present member
      | cons task rest =>
          have below : ∀ held ∈ rest.flatMap Task.values,
              Source ⟨state, .returning value, task :: rest⟩ held :=
            fun held member => task_present member
          have outcome : Source ⟨state, .returning value, task :: rest⟩ value :=
            .present (List.mem_append_left _ (List.mem_singleton_self _))
          have unwound : ∀ result, Sourced ⟨state, .returning value, task :: rest⟩
              ⟨result, .returning value, rest⟩ := by
            intro result
            apply sourced_on below
            intro held member
            rw [List.mem_singleton.1 member]
            exact outcome
          cases task with
          | leaveCall completion => exact finish_sourced completion rfl outcome below
          | program remaining => exact sourced_done below (.other trivial)
          | _ => exact unwound _
  | failing fault =>
      cases stack with
      | nil => exact fun held member => .present member
      | cons task rest =>
          exact sourced_on (fun held member => task_present member) (List.forall_mem_nil _)

end Machine

/-- Every value in the heap that names a class names one that exists, and base classes are older
than what is derived from them. The second needs the first, since a base class is read as a value.
-/
structure Heap.Known (heap : Heap) : Prop where
  frames : ∀ ref name value, heap.local? ref name = some value → value.Known heap.classes.size
  fields : ∀ ref name value, heap.field? ref name = some value → value.Known heap.classes.size
  ancestral : heap.Ancestral

namespace Machine

theorem local_define (heap : Heap) (ref sought : FrameRef) (name other : String) (value : Value) :
    (heap.define ref name value).local? sought other =
      if ref = sought ∧ other = name ∧ (heap.frame? sought).isSome then some value
      else heap.local? sought other := by
  rw [Heap.local?, Heap.local?, frame_define]
  cases heap.frame? sought with
  | none => simp
  | some frame =>
      by_cases same : ref = sought
      · by_cases named : other = name <;> simp [same, named]
      · simp [same]

variable {heap : Heap}

theorem known_define (known : heap.Known) (ref : FrameRef) (name : String) {value : Value}
    (isKnown : value.Known heap.classes.size) : (heap.define ref name value).Known := by
  refine ⟨?_, known.fields, known.ancestral⟩
  intro sought other held found
  rw [local_define] at found
  split at found
  · cases found
    exact isKnown
  · exact known.frames sought other held found

theorem known_add_frame (known : heap.Known) {frame : Frame}
    (isKnown : ∀ name value, frame.bindings.get? name = some value →
      value.Known heap.classes.size) : (heap.addFrame frame).Known := by
  refine ⟨?_, known.fields, known.ancestral⟩
  intro sought name value found
  rw [Heap.local?, frame_add_frame] at found
  split at found
  · exact isKnown name value found
  · exact known.frames sought name value found

theorem class_add_class (heap : Heap) (cls : Class) (sought : ClassRef) :
    (heap.addClass cls).class? sought =
      if sought = heap.nextClass then some cls else heap.class? sought := by
  rcases sought with ⟨index⟩
  simp [Heap.addClass, Heap.class?, Heap.nextClass, Array.getElem?_push]

theorem known_add_class (known : heap.Known) {cls : Class}
    (isKnown : ∀ parent, cls.parent = some parent → parent.index < heap.classes.size) :
    (heap.addClass cls).Known := by
  have more : heap.classes.size ≤ (heap.addClass cls).classes.size := by
    simp [Heap.addClass]
  constructor
  · intro ref name value found
    exact Value.known_le (known.frames ref name value found) more
  · intro ref name value found
    exact Value.known_le (known.fields ref name value found) more
  · intro ref other parent found isParent
    rw [class_add_class] at found
    split at found
    next fresh =>
      cases found
      rw [fresh]
      exact isKnown parent isParent
    next => exact known.ancestral ref other parent found isParent

theorem known_add_instance (known : heap.Known) (ref : ClassRef) :
    (heap.addInstance ⟨ref, .empty⟩).Known := by
  refine ⟨known.frames, ?_, known.ancestral⟩
  intro object name value found
  simp only [Heap.field?, Heap.instance?, Heap.addInstance, Array.getElem?_push] at found
  split at found
  · simp at found
  · exact known.fields object name value found

theorem known_set_field (known : heap.Known) (ref : InstanceRef) (name : String) {value : Value}
    (isKnown : value.Known heap.classes.size) : (heap.setField ref name value).Known := by
  refine ⟨known.frames, ?_, known.ancestral⟩
  intro object other held found
  simp only [Heap.field?, Heap.instance?, Heap.setField, Array.getElem?_modify] at found
  split at found
  · obtain ⟨changed, isChanged, inChanged⟩ := Option.bind_eq_some_iff.1 found
    obtain ⟨before, isBefore, rfl⟩ := Option.map_eq_some_iff.1 isChanged
    rw [Bindings.get_insert] at inChanged
    split at inChanged
    · cases inChanged
      exact isKnown
    · refine known.fields object other held ?_
      rw [Heap.field?, Heap.instance?, isBefore]
      exact inChanged
  · exact known.fields object other held found

theorem parameter_bindings_mem {parameters : List Token} {given : List Value} {name : String}
    {value : Value} (found : (parameterBindings parameters given).get? name = some value) :
    name ∈ parameters.map Token.lexeme ∧ value ∈ given := by
  have held : ∀ (pairs : List (Token × Value)) (bindings : Bindings Value),
      (pairs.foldl (fun bindings pair => bindings.insert pair.1.lexeme pair.2) bindings).get? name =
          some value → bindings.get? name = some value ∨
        ∃ pair ∈ pairs, pair.1.lexeme = name ∧ pair.2 = value := by
    intro pairs
    induction pairs with
    | nil => exact fun bindings found => .inl found
    | cons pair rest induction =>
        intro bindings found
        rcases induction _ found with earlier | ⟨other, member, same⟩
        · rw [Bindings.get_insert] at earlier
          split at earlier
          next named => exact .inr ⟨pair, List.mem_cons_self, named.symm, Option.some.inj earlier⟩
          next => exact .inl earlier
        · exact .inr ⟨other, List.mem_cons_of_mem _ member, same⟩
  rcases held _ _ found with impossible | ⟨⟨token, argument⟩, member, rfl, rfl⟩
  · cases impossible
  · exact ⟨List.mem_map_of_mem (List.of_mem_zip member).1, (List.of_mem_zip member).2⟩

theorem known_enter {store : Store} (known : store.heap.Known) (closure : Closure)
    {given : List Value} (isKnown : ∀ value ∈ given, value.Known store.heap.classes.size) :
    (store.enter closure given).heap.Known := by
  apply known_add_frame known
  intro name value found
  exact isKnown value (parameter_bindings_mem found).2

theorem known_receiver (known : heap.Known) (method : Closure) (receiver : InstanceRef) :
    (heap.addFrame (Heap.receiverFrame method receiver)).Known := by
  apply known_add_frame known
  intro name value found
  simp only [Heap.receiverFrame, Bindings.get_insert, Bindings.get_empty] at found
  split at found <;> cases found
  trivial

theorem known_bound {store : Store} (known : store.heap.Known) (method : Closure)
    (receiver : InstanceRef) : (store.addBound method receiver).heap.Known := by
  have framed := known_receiver known method receiver
  exact ⟨framed.frames, framed.fields, framed.ancestral⟩

theorem calls_given {machine : Machine} {callee : Value} {given : List Value} {line : Nat}
    {stack : List Task} (calls : Calls machine callee given line stack) :
    callee ∈ machine.values ∧ ∀ value ∈ given, value ∈ machine.values := by
  cases calls with
  | bare => simp [values, Control.values, Task.values]
  | last =>
      simp only [values, Control.values, Task.values, List.flatMap_cons, List.mem_append,
        List.mem_cons, List.not_mem_nil, or_false]
      tauto

structure Knows (machine : Machine) : Prop where
  values : ∀ value ∈ machine.values, value.Known machine.state.heap.classes.size
  heap : machine.state.heap.Known

/-- An effect writes only values that the machine holds, or the class that it has made. This needs
one case for each change of the heap, and none for each kind of task. -/
theorem effect_known {tagged : Tagged} {later : Store} (knows : Knows tagged.machine)
    (effect : Effect tagged later) : later.heap.Known := by
  have known := knows.heap
  cases effect with
  | quiet => exact known
  | declare => exact known_define known _ _ trivial
  | initialized => exact known_define known _ _ (knows.values _ (by simp [values, Control.values]))
  | assign slot => exact known_define known _ _ (knows.values _ (by simp [values, Control.values]))
  | setField => exact known_set_field known _ _ (knows.values _ (by simp [values, Control.values]))
  | block =>
      apply known_add_frame known
      intro name value found
      cases found
  | @function state decl stack origins =>
      have added : (state.heap.addFunction ⟨decl, state.environment, false⟩).Known :=
        ⟨known.frames, known.fields, known.ancestral⟩
      exact known_define added _ _ trivial
  | plainClass =>
      apply known_define (known_add_class known ?_)
      · simp [Value.Known, Heap.nextClass, Heap.addClass]
      · intro parent isParent
        cases isParent
  | @derivedClass state name base methods parent stack origins =>
      have isKnown : parent.index < state.heap.classes.size :=
        knows.values (.classRef parent) (by simp [values, Control.values])
      have framed : (Store.addBase ⟨state.heap, origins⟩ state.environment parent).heap.Known := by
        apply known_add_frame known
        intro name value found
        simp only [Bindings.get_insert, Bindings.get_empty] at found
        split at found <;> cases found
        exact isKnown
      apply known_define (known_add_class framed ?_)
      · simp [Value.Known, Heap.nextClass, Store.addBase, Store.addFrame, Heap.addClass,
          Heap.addFrame]
      · intro other isParent
        cases isParent
        exact isKnown
  | property found => exact known_bound known _ _
  | base operands found => exact known_bound known _ _
  | call calls found =>
      apply known_enter known
      intro value member
      exact knows.values value ((calls_given calls).2 value member)
  | create calls none => exact known_add_instance known _
  | construct calls found =>
      apply known_enter (known_receiver (known_add_instance known _) _ _)
      intro value member
      exact knows.values value ((calls_given calls).2 value member)

theorem effect_classes {tagged : Tagged} {later : Store} (effect : Effect tagged later) :
    Heap.ClassesKept tagged.machine.state.heap later.heap := by
  have added : ∀ (heap : Heap) (cls : Class), Heap.ClassesKept heap (heap.addClass cls) := by
    intro heap cls ref other found
    have different : ref ≠ heap.nextClass := by
      intro same
      have bound := Heap.class_lt found
      rw [same] at bound
      exact Nat.lt_irrefl _ bound
    rw [class_add_class, if_neg different]
    exact found
  cases effect with
  | plainClass => exact added _ _
  | @derivedClass state name base methods parent stack origins =>
      exact added (Store.addBase ⟨state.heap, origins⟩ state.environment parent).heap _
  | _ => exact fun ref cls found => found

theorem next_classes (machine : Machine) :
    Heap.ClassesKept machine.state.heap machine.next.state.heap :=
  effect_classes (next_effect ⟨machine, []⟩)

theorem classes_kept_size {heap later : Heap} (kept : Heap.ClassesKept heap later) :
    heap.classes.size ≤ later.classes.size := by
  by_contra fewer
  have last : ∃ cls, heap.class? ⟨later.classes.size⟩ = some cls :=
    Heap.class_of_lt (Nat.lt_of_not_le fewer)
  rcases last with ⟨cls, found⟩
  exact Nat.lt_irrefl _ (Heap.class_lt (kept _ _ found))

theorem knows_next {machine : Machine} (knows : Knows machine) : Knows machine.next := by
  have heap : machine.next.state.heap.Known := effect_known knows (next_effect ⟨machine, []⟩)
  refine ⟨?_, heap⟩
  intro value member
  have more := classes_kept_size (next_classes machine)
  cases next_sourced machine value member with
  | present member => exact Value.known_le (knows.values value member) more
  | bound held => exact Value.known_le (knows.heap.frames _ _ value held) more
  | field held => exact Value.known_le (knows.heap.fields _ _ value held) more
  | other known => exact Value.known_le known (Nat.zero_le _)

theorem run_succ (machine : Machine) (steps : Nat) :
    machine.run (steps + 1) = (machine.run steps).next := by
  induction steps generalizing machine with
  | zero =>
      rw [run, run, run]
      split
      next stopped => exact (next_of_halted machine stopped).symm
      next => rfl
  | succ steps induction =>
      rw [run]
      split
      next stopped => rw [run, if_pos stopped, next_of_halted machine stopped]
      next running => rw [induction, run, if_neg running]

theorem known_initial : initialHeap.Known := by
  refine ⟨?_, ?_, ?_⟩
  · intro ref name value found
    obtain ⟨frame, isFrame, held⟩ := Option.bind_eq_some_iff.1 found
    rcases ref with ⟨index⟩
    have first : index = 0 := by
      have bound := frame_lt isFrame
      simp only [initialHeap, List.size_toArray, List.length_singleton] at bound
      omega
    subst first
    cases isFrame
    change ((Bindings.empty.insert "print" _).insert "clock" _).get? name = _ at held
    simp only [Bindings.get_insert, Bindings.get_empty] at held
    split at held
    · cases held
      trivial
    · split at held <;> cases held
      trivial
  · intro ref name value found
    simp [Heap.field?, Heap.instance?, initialHeap] at found
  · intro ref cls parent found
    simp [Heap.class?, initialHeap] at found

theorem knows_load (program : Program) (state : State) : Knows (program.load state) := by
  refine ⟨?_, known_initial⟩
  intro value member
  have plain : value = .nil := by
    simpa [values, Program.load, load, Control.values, Task.values] using member
  rw [plain]
  trivial

/-- At every point of every run, base classes are older than what is derived from them. -/
theorem knows_run (program : Program) (state : State) (steps : Nat) :
    Knows ((program.load state).run steps) := by
  induction steps with
  | zero => exact knows_load program state
  | succ steps induction =>
      rw [run_succ]
      exact knows_next induction

end Machine

end Quill
