import Quill.Proofs.Machine.Lineage

/-!
Static dispatch. What `base.name` gives depends on the class that the method around it belongs
to, as this class was made, and on the receiver's own fields; it does not depend on the class
of the receiver, nor on anything that happened to classes and variables since.
-/

namespace Quill.Machine

set_option autoImplicit false

open Scope (Layer Place positions)

def Derives (machine : Machine) (owner parent : ClassRef) : Prop :=
  ∃ name methods, Makes machine name (some parent) methods ∧
    machine.state.heap.nextClass = owner

theorem effect_class {tagged : Tagged} {later : Store} (effect : Effect tagged later)
    {ref : ClassRef} {cls : Class} (found : later.heap.class? ref = some cls) :
    tagged.machine.state.heap.class? ref = some cls ∨
      ∃ name methods, Makes tagged.machine name cls.parent methods ∧
        tagged.machine.state.heap.nextClass = ref := by
  have added : ∀ (heap : Heap) (added : Class), (heap.addClass added).class? ref = some cls →
      heap.class? ref = some cls ∨ cls = added ∧ heap.nextClass = ref := by
    intro heap added found
    rw [class_add_class] at found
    split at found
    next fresh =>
      cases found
      exact .inr ⟨rfl, fresh.symm⟩
    next => exact .inl found
  cases effect with
  | plainClass =>
      rcases added _ _ found with old | ⟨rfl, fresh⟩
      · exact .inl old
      · exact .inr ⟨_, _, .plain, fresh⟩
  | @derivedClass state name base methods parent stack origins =>
      rcases added (Store.addBase ⟨state.heap, origins⟩ state.environment parent).heap _ found with
        old | ⟨rfl, fresh⟩
      · exact .inl old
      · exact .inr ⟨_, _, .derived, fresh⟩
  | _ => exact .inl found

theorem class_made (program : Program) (state : State) {steps : Nat} {ref : ClassRef} {cls : Class}
    (found : ((program.load state).run steps).state.heap.class? ref = some cls) :
    ∃ made name methods, made < steps ∧
      Makes ((program.load state).run made) name cls.parent methods ∧
        ((program.load state).run made).state.heap.nextClass = ref := by
  induction steps with
  | zero =>
      simp [run, Heap.class?, Program.load, load, State.reset, State.fresh, initialHeap] at found
  | succ steps induction =>
      rw [run_succ] at found
      have effect := next_effect ⟨(program.load state).run steps, []⟩
      rcases effect_class effect found with old | ⟨name, methods, makes, fresh⟩
      · obtain ⟨made, name, methods, earlier, makes⟩ := induction old
        exact ⟨made, name, methods, Nat.lt_succ_of_lt earlier, makes⟩
      · exact ⟨steps, name, methods, Nat.lt_succ_self steps, makes, fresh⟩

theorem derived_class_made {machine : Machine} {name : Token} {parent : ClassRef}
    {methods : List FunctionDecl} (makes : Makes machine name (some parent) methods) :
    machine.next.state.heap.class? machine.state.heap.nextClass = some ⟨name.lexeme, some parent,
      Heap.methodTable name.lexeme machine.state.heap.nextFrame methods⟩ := by
  cases makes with
  | @derived state name base methods parent stack =>
      exact (class_add_class (Store.addBase ⟨state.heap, []⟩ state.environment parent).heap _ _).trans
        (if_pos rfl)

/-- `Dispatched chain machine parent receiver name next`: the machine goes on with the method
that a search from the base class finds in `chain`, bound to the receiver; without one, with
the field of the receiver; and without either it fails. -/
inductive Dispatched (chain : Heap) (machine : Machine) (parent : ClassRef) (receiver : InstanceRef)
    (name : Token) : Machine → Prop where
  | method {method : Closure} (finds : chain.Finds name.lexeme parent method) :
      Dispatched chain machine parent receiver name ⟨machine.state.addBound method receiver,
        .done (.functionRef machine.state.heap.nextFunction), machine.stack⟩
  | field {value : Value} (absent : ∀ method, ¬ chain.Finds name.lexeme parent method)
      (held : machine.state.heap.field? receiver name.lexeme = some value) :
      Dispatched chain machine parent receiver name ⟨machine.state, .done value, machine.stack⟩
  | missing (absent : ∀ method, ¬ chain.Finds name.lexeme parent method)
      (none : machine.state.heap.field? receiver name.lexeme = none) :
      Dispatched chain machine parent receiver name
        ⟨machine.state, .failing ⟨name.line, .undefinedProperty name.lexeme⟩, machine.stack⟩

theorem dispatched_chain {chain other : Heap} {machine next : Machine} {parent : ClassRef}
    {receiver : InstanceRef} {name : Token}
    (same : ∀ method, chain.Finds name.lexeme parent method ↔ other.Finds name.lexeme parent method)
    (dispatched : Dispatched chain machine parent receiver name next) :
    Dispatched other machine parent receiver name next := by
  cases dispatched with
  | method finds => exact .method ((same _).1 finds)
  | field absent held => exact .field (fun method finds => absent method ((same method).2 finds)) held
  | missing absent none =>
      exact .missing (fun method finds => absent method ((same method).2 finds)) none

theorem base_dispatched {machine : Machine} {id : Nat} {keyword name : Token} {parent : ClassRef}
    {receiver : InstanceRef} (ancestral : machine.state.heap.Ancestral)
    (control : machine.control = .evaluate (.baseRef id keyword name))
    (operands : baseOperands machine.state id = .ok (parent, receiver)) :
    Dispatched machine.state.heap machine parent receiver name machine.next := by
  rcases machine with ⟨state, current, stack⟩
  cases control
  have search : ∀ method, state.heap.method? parent name.lexeme = some method ↔
      state.heap.Finds name.lexeme parent method := fun method => Heap.method_iff_finds ancestral
  simp only [next, evaluate, evaluateBase, operands]
  cases found : state.heap.method? parent name.lexeme with
  | some method => exact .method ((search method).1 found)
  | none =>
      have absent : ∀ method, ¬ state.heap.Finds name.lexeme parent method := by
        intro method finds
        cases found.symm.trans ((search method).2 finds)
      cases held : state.heap.field? receiver name.lexeme with
      | some value => exact .field absent held
      | none => exact .missing absent held

section Runs

variable {program : Program} (accepted : Accepted program) (state : State)

include accepted

theorem run_classes_kept {time later : Nat} (le : time ≤ later) :
    Heap.ClassesKept ((program.load state).run time).state.heap
      ((program.load state).run later).state.heap := by
  have keeps := (reached_keeps accepted state le).classes
  simp only [Tagged.store, reached_machine] at keeps
  exact keeps

/-- From a class that was there, a search finds the same at all later times. -/
theorem run_finds_iff {time later : Nat} (le : time ≤ later) {ref : ClassRef} {name : String}
    (known : ref.index < ((program.load state).run time).state.heap.classes.size) (method : Closure) :
    ((program.load state).run time).state.heap.Finds name ref method ↔
      ((program.load state).run later).state.heap.Finds name ref method := by
  have kept := run_classes_kept accepted state le
  constructor
  · exact Heap.finds_later kept
  · exact Heap.finds_earlier kept (knows_run program state time).heap.ancestral known

theorem derives_parent {made steps : Nat} (before : made < steps) {owner parent : ClassRef}
    (derives : Derives ((program.load state).run made) owner parent) {cls : Class}
    (found : ((program.load state).run steps).state.heap.class? owner = some cls) :
    cls.parent = some parent := by
  rcases derives with ⟨name, methods, makes, rfl⟩
  have isMade := derived_class_made makes
  rw [← run_succ] at isMade
  have kept := run_classes_kept accepted state before _ _ isMade
  cases found.symm.trans kept
  rfl

end Runs

theorem derives_known {machine : Machine} (knows : Knows machine) {owner parent : ClassRef}
    (derives : Derives machine owner parent) : parent.index < machine.state.heap.classes.size := by
  rcases derives with ⟨name, methods, makes, -⟩
  cases makes with
  | derived => exact knows.values (.classRef parent) (by simp [values, Control.values])

theorem in_method_operands {program : Program} {tagged : Tagged} {term : Expr}
    (known : Provenance program.statements tagged.store) {owner parent other : ClassRef}
    {method closure : Closure} {receiver object : InstanceRef}
    (base : BaseInside tagged term other parent closure object)
    (inside : InMethod tagged.machine term owner method receiver) :
    receiver = object ∧
      ∃ cls, tagged.machine.state.heap.class? owner = some cls ∧ cls.parent = some parent := by
  obtain ⟨frame, isHolder, content⟩ := inside.entered
  obtain ⟨same, isSame, sameContent⟩ := base.inside.entered
  cases isHolder.symm.trans isSame
  have frames := content.symm.trans sameContent
  simp only [Heap.receiverFrame, Bindings.insert, Bindings.empty, Bindings.insertEntry,
    Option.some.injEq, Frame.mk.injEq, Bindings.mk.injEq, List.cons.injEq, Prod.mk.injEq,
    Value.instanceRef.injEq, true_and, and_true] at frames
  rcases frames with ⟨sameFrame, sameReceiver⟩
  obtain ⟨cls, isClass, held⟩ := inside.belongs
  obtain ⟨actual, isParent, isAt⟩ := owner_derived known isClass held (sameFrame ▸ base.base.1)
  obtain ⟨around, baseContent⟩ := base.base.2
  obtain ⟨outer, actualContent⟩ := isAt.2
  rw [sameFrame] at actualContent
  have contents := actualContent.symm.trans baseContent
  simp only [Bindings.insert, Bindings.empty, Bindings.insertEntry, Option.some.injEq, Frame.mk.injEq,
    Bindings.mk.injEq, List.cons.injEq, Prod.mk.injEq, Value.classRef.injEq, true_and,
    and_true] at contents
  refine ⟨sameReceiver, cls, isClass, ?_⟩
  rw [isParent, contents.2]

/-- `base.name` dispatches on the class that the method around it belongs to. It is always
evaluated in the text of a method that was called on an instance of this class or of one
derived from it; and it gives what a search from the base class finds, as the class was made
with it and as classes were then or at any time since, bound to the receiver; or else the
field of the receiver; or else it fails. -/
theorem base_dispatches_statically {source : String} {program : Program}
    (compiles : Program.compile source = .ok program) (state : State) (steps : Nat)
    {id : Nat} {keyword name : Token}
    (control : ((program.load state).run steps).control = .evaluate (.baseRef id keyword name)) :
    (∃ owner method receiver object,
      InMethod ((program.load state).run steps) (.baseRef id keyword name) owner method receiver ∧
        ((program.load state).run steps).state.heap.instance? receiver = some object ∧
          ((program.load state).run steps).state.heap.Descends object.cls owner) ∧
    ∀ owner method receiver,
      InMethod ((program.load state).run steps) (.baseRef id keyword name) owner method receiver →
        (∃ made parent, made < steps ∧ Derives ((program.load state).run made) owner parent) ∧
          ∀ made parent, made < steps → Derives ((program.load state).run made) owner parent →
            ∀ seen, made ≤ seen → seen ≤ steps →
              Dispatched ((program.load state).run seen).state.heap ((program.load state).run steps)
                parent receiver name ((program.load state).run (steps + 1)) := by
  have accepted := compile_accepted compiles
  have inStep := reached_in_step accepted state steps
  have known := reached_provenance accepted state steps
  have machine := reached_machine program state steps
  obtain ⟨other, parent, closure, object, base⟩ :=
    base_inside accepted inStep known (machine ▸ control)
  constructor
  · obtain ⟨held, isObject, descends⟩ := base.descends
    have inside := base.inside
    rw [machine] at inside isObject descends
    exact ⟨other, closure, object, held, inside, isObject, descends⟩
  · intro owner method receiver inside
    rw [← machine] at inside
    obtain ⟨rfl, cls, isClass, isParent⟩ := in_method_operands known base inside
    have operands := base.operands
    rw [machine] at isClass operands
    constructor
    · obtain ⟨made, className, methods, before, makes, fresh⟩ := class_made program state isClass
      rw [isParent] at makes
      exact ⟨made, parent, before, className, methods, makes, fresh⟩
    · intro made actual before derives seen after upTo
      cases isParent.symm.trans (derives_parent accepted state before derives isClass)
      have isKnown := derives_known (knows_run program state made) derives
      have stillKnown := Nat.lt_of_lt_of_le isKnown
        (classes_kept_size (run_classes_kept accepted state after))
      have ancestral := (knows_run program state steps).heap.ancestral
      rw [run_succ]
      apply dispatched_chain ?_ (base_dispatched ancestral control operands)
      intro found
      exact (run_finds_iff accepted state upTo stillKnown found).symm

def Control.base? : Control → Option (Nat × Token × Token)
  | .evaluate (.baseRef id keyword name) => some (id, keyword, name)
  | _ => none

def reassigning : String :=
  "class A \x7b m() \x7b return this; \x7d \x7d " ++
    "class B : A \x7b m() \x7b function f() \x7b return base.m(); \x7d return f(); \x7d \x7d " ++
      "class C : B \x7b \x7d A = nil; C().m();"

theorem base_dispatches_reassigned :
    ∃ program id keyword name owner method receiver made parent found,
      Program.compile reassigning = .ok program ∧
        let machine := (program.load (.fresh ⟨9, fun _ => 0⟩ .unlimited)).run 34
        machine.control = .evaluate (.baseRef id keyword name) ∧
          InMethod machine (.baseRef id keyword name) owner method receiver ∧
            Derives ((program.load (.fresh ⟨9, fun _ => 0⟩ .unlimited)).run made) owner parent ∧
              machine.state.heap.Finds name.lexeme parent found ∧
                machine.next.state = machine.state.addBound found receiver := by
  have checked : (Program.compile reassigning).toOption.bind (fun program =>
      let machine := (program.load (.fresh ⟨9, fun _ => 0⟩ .unlimited)).run 34
      machine.control.base?.map fun _ =>
        (machine.state.heap.functions.size, machine.next.state.heap.functions.size)) =
          some (2, 3) := by decide +kernel
  simp only [Option.bind_eq_some_iff, Option.map_eq_some_iff, Prod.mk.injEq] at checked
  rcases checked with ⟨program, compiled, ⟨id, keyword, name⟩, isBase, before, after⟩
  have compiles := compiles_of_option compiled
  have control : ((program.load (.fresh ⟨9, fun _ => 0⟩ .unlimited)).run 34).control =
      .evaluate (.baseRef id keyword name) := by
    unfold Control.base? at isBase
    split at isBase
    next found =>
      cases isBase
      exact found
    next => cases isBase
  obtain ⟨⟨owner, method, receiver, object, inside, -⟩, all⟩ :=
    base_dispatches_statically compiles (.fresh ⟨9, fun _ => 0⟩ .unlimited) 34 control
  obtain ⟨⟨made, parent, earlier, derives⟩, dispatches⟩ := all owner method receiver inside
  have dispatched := dispatches made parent earlier derives 34 (Nat.le_of_lt earlier) (Nat.le_refl 34)
  have isNext := run_succ (program.load (.fresh ⟨9, fun _ => 0⟩ .unlimited)) 34
  rw [← isNext] at after
  generalize (program.load (.fresh ⟨9, fun _ => 0⟩ .unlimited)).run (34 + 1) = following
    at dispatched isNext after
  cases dispatched with
  | @method found finds =>
      exact ⟨program, id, keyword, name, owner, method, receiver, made, parent, found, compiles, control,
        inside, derives, finds, congrArg state isNext.symm⟩
  | field absent held => cases before.symm.trans after
  | missing absent none => cases before.symm.trans after

end Quill.Machine
