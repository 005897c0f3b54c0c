import Quill.Proofs.Machine.Agreement
import Quill.Proofs.Machine.Provenance

/-!
Methods at work. Wherever `base` is evaluated, the frames from there outwards are those of
blocks and calls up to the one that binds the receiver of the method around it, and around
that lies the frame of the base class. With this every step has good reason for what it adds
to the heap, and so has every run.
-/

namespace Quill.Machine

set_option autoImplicit false

open Scope (Opener Layer Place Position positions routinePositions NearestAt classLayers)

variable {program : Program} {store : Store}

namespace Accepted

variable (accepted : Accepted program)

include accepted

/-- `base` is used in the text of a method of the innermost class, at the distance of the
scope around that of the receiver. -/
theorem base_method {place : Place} {id : Nat} {keyword name : Token}
    (member : (place, .expr (.baseRef id keyword name)) ∈ positions program.statements) :
    ∃ className inner decl names outer, place.layers =
        inner ++ ⟨.routine (some className) decl, names⟩ :: classLayers className true outer ∧
      (∀ layer ∈ inner, layer.opener.isCode = true) ∧
        .expr (.baseRef id keyword name) ∈ bodyNodes decl.body ∧
          program.locals.get? id = some (inner.length + 2) := by
  obtain ⟨className, inside⟩ := accepted.base_class member
  have tidy := accepted.tidy _ member
  have around := Scope.positions_settled _ _ member (fun decl => by simp)
  obtain ⟨inner, decl, names, outer, layers, code⟩ := Scope.housed_derived around.housed inside
  refine ⟨className, inner, decl, names, outer, layers, code, ?_, ?_⟩
  · have routine : (⟨.routine (some className) decl, names⟩ : Layer) ∈ place.layers := by
      rw [layers]
      exact List.mem_append_right _ List.mem_cons_self
    have written := around.encloses _ routine _ _ rfl List.mem_cons_self
    rw [FunctionDecl.nodes_eq] at written
    simpa using written
  · apply (accepted.entry_iff member rfl _).2
    have declared : ∀ pending, place.pending.name? = some pending → pending.lexeme ≠ "base" :=
      fun pending found => (tidy.pending pending found).2
    rw [Scope.nearest_held declared]
    let method : Layer := ⟨.routine (some className) decl, names⟩
    have absent : ∀ layer ∈ inner ++ [method], "base" ∉ layer.names := by
      have ordered := tidy.layers
      rw [layers, ← List.singleton_append, ← List.append_assoc] at ordered
      exact Scope.tidy_code ordered (List.forall_mem_append.2 ⟨code, by simp [method, Opener.isCode]⟩)
    refine ⟨inner ++ [method, ⟨.receiver className true, ["this"]⟩], ⟨.base className, ["base"]⟩,
      outer, ?_, List.mem_singleton_self _, ?_, ?_⟩
    · rw [List.append_assoc]
      exact layers
    · simpa [or_imp, forall_and] using absent
    · simp

end Accepted

theorem fits_tag {ref : FrameRef} {layer : Layer} {outer : List Layer}
    (fits : Fits store ref (layer :: outer)) :
    store.origins[ref.index]? = some (originOf layer.opener) := by
  cases fits with
  | inside found parent older origin names rest => exact origin

theorem ancestor_parent {heap : Heap} {ref holder outer : FrameRef} {distance : Nat}
    (reached : heap.ancestor? ref distance = some holder) (parent : heap.parent? holder = some outer) :
    heap.ancestor? ref (distance + 1) = some outer := by
  induction distance generalizing ref with
  | zero =>
      cases reached
      simp [Heap.ancestor?, parent]
  | succ distance induction =>
      rw [Heap.ancestor?] at reached
      obtain ⟨next, isNext, further⟩ := Option.bind_eq_some_iff.1 reached
      rw [Heap.ancestor?, isNext, Option.bind_some]
      exact induction further

section Open

variable (known : Provenance program.statements store)

include known

theorem place_open {place : Place} {node : Node} {ref : FrameRef}
    (member : (place, node) ∈ positions program.statements) (code : ∀ decl, node ≠ .routine decl)
    (fits : Fits store ref place.layers) : Open store ref := by
  have housed := (Scope.positions_settled _ _ member code).housed
  cases layers : place.layers with
  | nil =>
      rw [layers] at fits
      cases fits
      exact ⟨_, known.outermost, rfl⟩
  | cons layer outer =>
      rw [layers] at fits housed
      cases fits with
      | inside found parent older origin names rest =>
          exact ⟨_, origin, code_open (Scope.housed_head housed)⟩

theorem this_holder {inner outer : List Layer} {ref holder : FrameRef} {budget : Nat}
    (fits : Fits store ref (inner ++ outer)) (code : ∀ layer ∈ inner, layer.opener.isCode = true)
    (reached : store.heap.ancestor? ref inner.length = some holder)
    (held : (store.heap.local? holder "this").isSome) (enough : ref.index < budget) :
    store.heap.holderWithin "this" budget ref = some holder := by
  induction inner generalizing ref budget with
  | nil =>
      cases reached
      cases budget with
      | zero => omega
      | succ budget =>
          obtain ⟨value, found⟩ := Option.isSome_iff_exists.1 held
          rw [Heap.holderWithin, found]
  | cons first inner induction =>
      obtain ⟨firstCode, innerCode⟩ := List.forall_mem_cons.1 code
      cases budget with
      | zero => omega
      | succ budget =>
          cases fits with
          | @inside _ next _ _ _ found parent older origin names rest =>
              have above : store.heap.parent? ref = some next := by
                simp [Heap.parent?, found, parent]
              have absent : store.heap.local? ref "this" = none := by
                have opened : Open store ref := ⟨_, origin, code_open firstCode⟩
                cases bound : store.heap.local? ref "this" with
                | none => rfl
                | some value => exact absurd rfl (open_ordinary known opened (by rw [bound]; rfl)).1
              rw [List.length_cons, Heap.ancestor?, above, Option.bind_some] at reached
              rw [Heap.holderWithin, absent, above]
              exact induction rest innerCode reached (by omega)

theorem method_called {ref : FrameRef} {className : Token} {decl : FunctionDecl}
    {names : List String} {derived : Bool} {held : List String} {outer : List Layer}
    (fits : Fits store ref (⟨.routine (some className) decl, names⟩ ::
      ⟨.receiver className derived, held⟩ :: outer)) :
    ∃ frame method receiver, store.heap.parent? ref = some frame ∧
      ReceiverAt store frame method receiver ∧ Bindable store method receiver ∧
        method.decl = decl ∧ Fits store method.frame outer := by
  cases fits with
  | @inside _ frame call _ _ found parent _ tag _ rest =>
  cases rest with
  | @inside _ around content _ _ receiverFound receiverParent _ receiverTag _ rest =>
  have callParent : store.heap.parent? ref = some frame := by
    simp [Heap.parent?, found, parent]
  cases known.frames _ _ _ found tag with
  | code _ _ called =>
  obtain ⟨closure, callable, sameDecl, sameParent⟩ := called decl rfl
  cases parent.symm.trans sameParent
  cases callable with
  | declared stated opened => exact absurd ⟨_, receiverTag, rfl⟩ (open_not_sealed opened)
  | @bound method receiver frame isAt bindable =>
  cases receiverFound.symm.trans isAt.2
  cases receiverParent
  exact ⟨frame, method, receiver, callParent, isAt, bindable, sameDecl, rest⟩

theorem owner_derived {owner : ClassRef} {cls : Class} {method : Closure}
    (isClass : store.heap.class? owner = some cls)
    (held : cls.methods.get? method.name = some method)
    (base : store.origins[method.frame.index]? = some .base) :
    ∃ parent, cls.parent = some parent ∧ BaseAt store method.frame parent := by
  obtain ⟨-, -, surrounds⟩ := known.classes owner cls isClass method.name method held
  cases isParent : cls.parent with
  | none =>
      rw [isParent] at surrounds
      exact absurd ⟨_, base, rfl⟩ (open_not_sealed surrounds)
  | some parent =>
      rw [isParent] at surrounds
      exact ⟨parent, rfl, surrounds⟩

end Open

theorem base_operands_at {state : State} {id distance : Nat} {receiverRef baseRef : FrameRef}
    {parent : ClassRef} {receiver : InstanceRef} (entry : state.locals.get? id = some (distance + 1))
    (receiverReached : state.heap.ancestor? state.environment distance = some receiverRef)
    (receiverHeld : state.heap.local? receiverRef "this" = some (.instanceRef receiver))
    (baseParent : state.heap.parent? receiverRef = some baseRef)
    (baseHeld : state.heap.local? baseRef "base" = some (.classRef parent)) :
    baseOperands state id = .ok (parent, receiver) := by
  have baseReached := ancestor_parent receiverReached baseParent
  simp only [baseOperands, entry, Heap.readAt, baseReached, baseHeld, Nat.add_sub_cancel,
    receiverReached, receiverHeld]

/-- The point is in the text of a method of the class, and the first frame outwards that holds
`this` is the one that binds the method to the receiver. -/
structure InMethod (machine : Machine) (term : Expr) (owner : ClassRef) (method : Closure)
    (receiver : InstanceRef) : Prop where
  belongs : machine.state.heap.Belongs owner method
  written : .expr term ∈ bodyNodes method.decl.body
  entered : ∃ frame, machine.state.heap.holder? machine.state.environment "this" = some frame ∧
    machine.state.heap.frame? frame = some (Heap.receiverFrame method receiver)

/-- Where `base` is evaluated, its operands are the class that the owner of the method around
is derived from, and the receiver of the method. -/
structure BaseInside (tagged : Tagged) (term : Expr) (owner parent : ClassRef) (method : Closure)
    (receiver : InstanceRef) : Prop where
  inside : InMethod tagged.machine term owner method receiver
  base : BaseAt tagged.store method.frame parent
  derived : ∃ cls, tagged.machine.state.heap.class? owner = some cls ∧ cls.parent = some parent
  descends : ∃ object, tagged.machine.state.heap.instance? receiver = some object ∧
    Heap.Descends tagged.machine.state.heap object.cls owner
  operands : baseOperands tagged.machine.state term.id = .ok (parent, receiver)

/-- Where `base` is evaluated, the way outwards passes the frame of a call, that of a receiver and
that of a base class. From these the method, its owner and the owner's base class are read off. -/
theorem base_inside (accepted : Accepted program) {tagged : Tagged} (inStep : InStep program tagged)
    (known : Provenance program.statements tagged.store) {id : Nat} {keyword name : Token}
    (control : tagged.machine.control = .evaluate (.baseRef id keyword name)) :
    ∃ owner parent method receiver,
      BaseInside tagged (.baseRef id keyword name) owner parent method receiver := by
  obtain ⟨place, member, fits⟩ := in_step_evaluates inStep control
  obtain ⟨className, inner, decl, names, outer, layers, code, written, entry⟩ :=
    accepted.base_method member
  rw [layers] at fits
  obtain ⟨callRef, callReached, callFits⟩ := fits_drop fits
  obtain ⟨frame, method, receiver, callParent, isAt, bindable, sameDecl, baseFits⟩ :=
    method_called known callFits
  rcases bindable with ⟨owner, object, ⟨cls, isClass, held⟩, isObject, descends⟩
  have baseTag : tagged.store.origins[method.frame.index]? = some .base := fits_tag baseFits
  obtain ⟨parent, isParent, base⟩ := owner_derived known isClass held baseTag
  obtain ⟨around, content⟩ := base.2
  have reached := ancestor_parent callReached callParent
  have thisHeld : tagged.store.heap.local? frame "this" = some (.instanceRef receiver) := by
    simp [Heap.local?, isAt.2, Heap.receiverFrame]
  have baseParent : tagged.store.heap.parent? frame = some method.frame := by
    simp [Heap.parent?, isAt.2, Heap.receiverFrame]
  have baseHeld : tagged.store.heap.local? method.frame "base" = some (.classRef parent) := by
    simp [Heap.local?, content]
  refine ⟨owner, parent, method, receiver,
    ⟨⟨cls, isClass, held⟩, sameDecl ▸ written, frame, ?_, isAt.2⟩, base, ⟨cls, isClass, isParent⟩,
    ⟨object, isObject, descends⟩, ?_⟩
  · rw [← List.singleton_append, ← List.append_assoc] at fits
    apply this_holder known fits
    · exact List.forall_mem_append.2 ⟨code, by simp [Opener.isCode]⟩
    · simpa using reached
    · rw [thisHeld]
      rfl
    · exact fits_lt inStep.state.store fits
  · apply base_operands_at ?_ reached thisHeld baseParent baseHeld
    rw [inStep.state.locals]
    exact entry

theorem method_table_founded {className : String} {frame : FrameRef} {decls : List FunctionDecl}
    {parent : Option ClassRef} (surrounds : Surrounds store frame parent) :
    Founded store ⟨className, parent, Heap.methodTable className frame decls⟩ := by
  intro name method found
  obtain ⟨decl, -, rfl, rfl⟩ := method_table_made found
  exact ⟨rfl, rfl, surrounds⟩

theorem extends_class {frame : FrameRef} (parent : Option ClassRef)
    (surrounds : Surrounds store frame parent) (className : String) (decls : List FunctionDecl) :
    Extends program.statements store
      (store.addClass ⟨className, parent, Heap.methodTable className frame decls⟩) :=
  extends_add_class (method_table_founded surrounds)

theorem declared_ordinary (accepted : Accepted program) {place : Place} {clause : Stmt} {name : Token}
    (member : (place, .stmt clause) ∈ positions program.statements)
    (declared : clause.declared? = some name) : Token.Ordinary name.lexeme := by
  have node := Scope.declared_mem declared
  rw [← Scope.stmt_positions_nodes place.layers] at node
  obtain ⟨⟨other, _⟩, inside, rfl⟩ := List.mem_map.1 node
  exact Scope.named_ordinary (accepted.formed (Scope.below_subset member inside))

theorem parameters_ordinary (accepted : Accepted program) {className : Option Token}
    {layers : List Layer} {decl : FunctionDecl}
    (inside : routinePositions className layers decl ⊆ positions program.statements) :
    ∀ name ∈ decl.parameters, Token.Ordinary name.lexeme := by
  intro name member
  have node : Node.declaration name ∈ decl.nodes := by
    rw [FunctionDecl.nodes_eq]
    simp [member]
  rw [← Scope.routine_positions_nodes className layers] at node
  obtain ⟨⟨other, _⟩, found, rfl⟩ := List.mem_map.1 node
  exact Scope.named_ordinary (accepted.formed (inside found))

theorem holder_within_held {heap : Heap} {name : String} {budget : Nat} {ref holder : FrameRef}
    (search : heap.holderWithin name budget ref = some holder) : (heap.local? holder name).isSome := by
  induction budget generalizing ref with
  | zero => cases search
  | succ budget induction =>
      rw [Heap.holderWithin] at search
      split at search
      next held =>
        cases search
        rw [held]
        rfl
      next =>
        obtain ⟨outer, -, further⟩ := Option.bind_eq_some_iff.1 search
        exact induction further

theorem slot_held {state : State} {id : Nat} {name : String} {frame : FrameRef}
    (slot : state.slot id name = .ok frame) : (state.heap.local? frame name).isSome := by
  unfold State.slot at slot
  split at slot
  · unfold Heap.slotAt at slot
    split at slot
    · cases slot
    · split at slot
      next held =>
        cases slot
        rw [held]
        rfl
      next => cases slot
  · unfold Heap.slot at slot
    split at slot
    next search =>
      cases slot
      exact holder_within_held search
    next => cases slot

theorem table_bindable (known : Provenance program.statements store) {owner : ClassRef} {cls : Class}
    {name : String} {method : Closure} {receiver : InstanceRef} {object : Instance}
    (isObject : store.heap.instance? receiver = some object)
    (descends : Heap.Descends store.heap object.cls owner)
    (isClass : store.heap.class? owner = some cls) (held : cls.methods.get? name = some method) :
    Bindable store method receiver := by
  have named := (known.classes owner cls isClass name method held).1
  exact ⟨owner, object, ⟨cls, isClass, named ▸ held⟩, isObject, descends⟩

theorem finds_bindable (known : Provenance program.statements store) {ref : ClassRef} {name : String}
    {method : Closure} {receiver : InstanceRef} {object : Instance}
    (isObject : store.heap.instance? receiver = some object)
    (descends : Heap.Descends store.heap object.cls ref)
    (finds : Heap.Finds store.heap name ref method) : Bindable store method receiver := by
  obtain ⟨owner, cls, further, isClass, held⟩ := Heap.finds_belongs finds
  exact table_bindable known isObject (descends.trans further) isClass held

theorem extends_construct (known : Provenance program.statements store) {ref : ClassRef}
    {method : Closure} (found : store.heap.constructor? ref = some method)
    (ordinary : ∀ name ∈ method.decl.parameters, Token.Ordinary name.lexeme) (given : List Value) :
    Extends program.statements store (((store.addInstance ⟨ref, .empty⟩).addFrame
      (Heap.receiverFrame method store.heap.nextInstance) .receiver).enter
        (store.heap.boundMethod method) given) := by
  obtain ⟨owner, cls, descends, isClass, held⟩ := Heap.constructor_belongs found
  have created : Extends program.statements store (store.addInstance ⟨ref, .empty⟩) :=
    extends_instances (keeps_add_instance _ _) rfl rfl rfl rfl
  have isObject : (store.addInstance ⟨ref, .empty⟩).heap.instance? store.heap.nextInstance =
      some ⟨ref, .empty⟩ := by
    simp [Store.addInstance, Heap.addInstance, Heap.instance?, Heap.nextInstance]
  have bindable := table_bindable (created.provenance known) isObject
    (Heap.descends_later created.keeps.classes descends) (created.keeps.classes _ _ isClass) held
  obtain ⟨framed, callable⟩ := receiver_added (created.provenance known) bindable
  exact (created.trans framed).trans (extends_enter callable ordinary given)

/-- What a step adds to the heap comes from where it should, and what there was is kept. The cases
are those of an effect. -/
theorem effect_extends (accepted : Accepted program) {tagged : Tagged} {later : Store}
    (inStep : InStep program tagged) (known : Provenance program.statements tagged.store)
    (ancestral : tagged.machine.state.heap.Ancestral) (effect : Effect tagged later) :
    Extends program.statements tagged.store later := by
  have runs := inStep.runs
  cases effect with
  | quiet => exact extends_refl _
  | declare =>
      cases runs with
      | execute member fits waits =>
          exact extends_define (place_open known member (by simp) fits)
            (declared_ordinary accepted member rfl) _
  | initialized =>
      cases runs with
      | done waits =>
          obtain ⟨place, node, member, continues, fits, -⟩ := waits_top waits
          cases continues
          exact extends_define (place_open known member (by simp) fits)
            (declared_ordinary accepted member rfl) _
  | assign slot =>
      cases runs with
      | done waits =>
          obtain ⟨place, node, member, continues, fits, -⟩ := waits_top waits
          cases continues
          have ordinary := Scope.named_ordinary (accepted.formed member)
          exact extends_define (holder_open known ordinary (slot_held slot)) ordinary _
  | setField => exact extends_instances (keeps_set_field _ _ _ _) rfl rfl rfl rfl
  | block =>
      apply extends_add_frame
      apply Made.code rfl
      · intro name held
        cases held
      · intro decl same
        cases same
  | function =>
      cases runs with
      | execute member fits waits =>
          have opened := place_open known member (by simp) fits
          have added := extends_add_function (Callable.declared member opened)
          exact added.trans (extends_define (keeps_open added.keeps opened)
            (declared_ordinary accepted member rfl) _)
  | @plainClass state name methods stack origins =>
      cases runs with
      | execute member fits waits =>
          have opened := place_open known member (by simp) fits
          have added : Extends program.statements ⟨state.heap, origins⟩ _ :=
            extends_class none opened name.lexeme methods
          exact added.trans (extends_define (keeps_open added.keeps opened)
            (declared_ordinary accepted member rfl) _)
  | @derivedClass state name base methods parent stack origins =>
      cases runs with
      | done waits =>
          obtain ⟨place, node, member, continues, fits, -⟩ := waits_top waits
          cases continues
          have opened := place_open known member (by simp) fits
          have framed : Extends program.statements ⟨state.heap, origins⟩
              (Store.addBase ⟨state.heap, origins⟩ state.environment parent) :=
            extends_add_frame .base
          have isAt : BaseAt (Store.addBase ⟨state.heap, origins⟩ state.environment parent)
              state.heap.nextFrame parent := by
            refine ⟨?_, state.environment, Heap.frame_addFrame _ _⟩
            have sized : origins.length = state.heap.frames.size := known.sized
            simp [Store.addBase, Store.addFrame, Heap.nextFrame, ← sized]
          have added := framed.trans (extends_class (some parent) isAt name.lexeme methods)
          exact added.trans (extends_define (keeps_open added.keeps opened)
            (declared_ordinary accepted member rfl) _)
  | property found =>
      obtain ⟨object, isObject, search⟩ := Heap.property_method found
      exact extends_bound known
        (finds_bindable known isObject (.self _) ((Heap.method_iff_finds ancestral).1 search))
  | base operands found =>
      obtain ⟨owner, parent, method, receiver, inside⟩ := base_inside accepted inStep known rfl
      cases inside.operands.symm.trans operands
      obtain ⟨object, isObject, descends⟩ := inside.descends
      obtain ⟨cls, isClass, isParent⟩ := inside.derived
      exact extends_bound known (finds_bindable known isObject
        (descends.trans (.derived isClass isParent (.self _))) ((Heap.method_iff_finds ancestral).1 found))
  | call calls found =>
      obtain ⟨className, layers, inside, -⟩ := inStep.state.store.functions _ _ found
      exact extends_enter (known.functions _ _ found) (parameters_ordinary accepted inside) _
  | create calls none => exact extends_instances (keeps_add_instance _ _) rfl rfl rfl rfl
  | construct calls found =>
      obtain ⟨className, derived, layers, inside, -⟩ :=
        constructor_within_sound inStep.state.store found
      exact extends_construct known found (parameters_ordinary accepted inside) _

theorem start_provenance (program : Program) (state : State) :
    Provenance program.statements (Tagged.start program state).store := by
  refine ⟨rfl, rfl, ?_, ?_, ?_⟩
  · intro ref frame origin found tag
    rcases ref with ⟨index⟩
    cases index with
    | succ index => simp [Tagged.start, Tagged.store] at tag
    | zero =>
        cases found
        cases tag
        apply Made.code rfl
        · intro name held
          change (((Bindings.empty.insert "print" _).insert "clock" _).get? name).isSome at held
          simp only [Bindings.get_insert, Bindings.get_empty] at held
          split at held
          next same =>
            rw [same]
            decide
          next =>
            split at held
            next same =>
              rw [same]
              decide
            next => cases held
        · intro decl same
          cases same
  · intro ref closure found
    simp [Heap.function?, Tagged.start, Tagged.store, Program.load, load, State.reset, State.fresh,
      initialHeap] at found
  · intro ref cls found
    simp [Heap.class?, Tagged.start, Tagged.store, Program.load, load, State.reset, State.fresh,
      initialHeap] at found

theorem tagged_run_succ (tagged : Tagged) (steps : Nat) :
    tagged.run (steps + 1) = (tagged.run steps).next := by
  induction steps generalizing tagged with
  | zero => rfl
  | succ steps induction => exact induction tagged.next

def reached (program : Program) (state : State) (time : Nat) : Tagged :=
  (Tagged.start program state).run time

theorem reached_machine (program : Program) (state : State) (time : Nat) :
    (reached program state time).machine = (program.load state).run time :=
  tagged_run_machine time _

section Runs

variable (accepted : Accepted program) (state : State)

include accepted

theorem reached_in_step (time : Nat) : InStep program (reached program state time) :=
  in_step_run accepted time (in_step_start program state)

theorem reached_extends {time : Nat}
    (known : Provenance program.statements (reached program state time).store) :
    Extends program.statements (reached program state time).store
      (reached program state (time + 1)).store := by
  have ancestral : (reached program state time).machine.state.heap.Ancestral := by
    rw [reached_machine]
    exact (knows_run program state time).heap.ancestral
  have step : reached program state (time + 1) = (reached program state time).next :=
    tagged_run_succ _ _
  rw [step]
  exact effect_extends accepted (reached_in_step accepted state time) known ancestral (next_effect _)

theorem reached_provenance (time : Nat) :
    Provenance program.statements (reached program state time).store := by
  induction time with
  | zero => exact start_provenance program state
  | succ time induction => exact (reached_extends accepted state induction).provenance induction

theorem reached_keeps {time later : Nat} (le : time ≤ later) :
    Keeps (reached program state time).store (reached program state later).store := by
  induction le with
  | refl => exact .refl _
  | step le induction =>
      exact induction.trans (reached_extends accepted state (reached_provenance accepted state _)).keeps

end Runs

end Quill.Machine
