import Quill.Proofs.Machine.Known
import Quill.Proofs.Scope.Housing

/-!
Where the objects of the heap come from. Names are declared in the frames of blocks and calls
only; the frame of a receiver and that of a base class are sealed when they are made. Every
function was declared by a statement or bound to a receiver, and every method closes over the
frame of its class. What is sealed stays as it is, and so do functions, classes and the class
of an instance.
-/

namespace Quill.Machine

set_option autoImplicit false

open Scope (Opener Layer Place Position positions routinePositions)

def Origin.isOpen : Origin → Bool
  | receiver => false
  | base => false
  | _ => true

theorem code_open {opener : Opener} (code : opener.isCode = true) :
    (originOf opener).isOpen = true := by
  cases opener with
  | block body => rfl
  | routine className decl => rfl
  | receiver className derived => cases code
  | base className => cases code

def Open (store : Store) (ref : FrameRef) : Prop :=
  ∃ origin, store.origins[ref.index]? = some origin ∧ origin.isOpen = true

def Sealed (store : Store) (ref : FrameRef) : Prop :=
  ∃ origin, store.origins[ref.index]? = some origin ∧ origin.isOpen = false

theorem open_not_sealed {store : Store} {ref : FrameRef} (opened : Open store ref) :
    ¬ Sealed store ref := by
  intro isSealed
  rcases opened with ⟨origin, tag, holds⟩
  rcases isSealed with ⟨other, same, lacks⟩
  cases tag.symm.trans same
  exact Bool.false_ne_true (lacks.symm.trans holds)

/-- What a store has, a later one has as well: sealed frames, functions and classes as they
are, and instances with their class. -/
structure Keeps (store later : Store) : Prop where
  origins : ∀ (index : Nat) origin, store.origins[index]? = some origin →
    later.origins[index]? = some origin
  frames : ∀ ref frame, Sealed store ref → store.heap.frame? ref = some frame →
    later.heap.frame? ref = some frame
  functions : ∀ ref closure, store.heap.function? ref = some closure →
    later.heap.function? ref = some closure
  classes : Heap.ClassesKept store.heap later.heap
  instances : ∀ ref object, store.heap.instance? ref = some object →
    ∃ changed, later.heap.instance? ref = some changed ∧ changed.cls = object.cls

theorem Keeps.refl (store : Store) : Keeps store store where
  origins := fun _ _ found => found
  frames := fun _ _ _ found => found
  functions := fun _ _ found => found
  classes := fun _ _ found => found
  instances := fun _ object found => ⟨object, found, rfl⟩

variable {store middle later : Store}

theorem keeps_open (keeps : Keeps store later) {ref : FrameRef} (opened : Open store ref) :
    Open later ref := by
  rcases opened with ⟨origin, tag, holds⟩
  exact ⟨origin, keeps.origins _ _ tag, holds⟩

theorem keeps_sealed (keeps : Keeps store later) {ref : FrameRef} (isSealed : Sealed store ref) :
    Sealed later ref := by
  rcases isSealed with ⟨origin, tag, lacks⟩
  exact ⟨origin, keeps.origins _ _ tag, lacks⟩

theorem Keeps.trans (first : Keeps store middle) (second : Keeps middle later) :
    Keeps store later where
  origins := fun index origin found => second.origins index origin (first.origins index origin found)
  frames := fun ref frame isSealed found =>
    second.frames ref frame (keeps_sealed first isSealed) (first.frames ref frame isSealed found)
  functions := fun ref closure found =>
    second.functions ref closure (first.functions ref closure found)
  classes := fun ref cls found => second.classes ref cls (first.classes ref cls found)
  instances := by
    intro ref object found
    obtain ⟨changed, isChanged, same⟩ := first.instances ref object found
    obtain ⟨last, isLast, sameLast⟩ := second.instances ref changed isChanged
    exact ⟨last, isLast, sameLast.trans same⟩

theorem keeps_define {ref : FrameRef} (opened : Open store ref) (name : String) (value : Value) :
    Keeps store (store.define ref name value) := by
  refine { Keeps.refl store with frames := ?_ }
  intro sought frame isSealed found
  have different : ref ≠ sought := by
    intro same
    exact open_not_sealed opened (same ▸ isSealed)
  simp only [Store.define, frame_define, found, Option.map_some, if_neg different]

theorem keeps_add_frame (store : Store) (frame : Frame) (origin : Origin) :
    Keeps store (store.addFrame frame origin) := by
  have grows := add_frame_grows store frame origin
  refine { Keeps.refl store with origins := grows.origins, frames := ?_ }
  intro sought content isSealed found
  have different : sought ≠ store.heap.nextFrame := by
    intro same
    have bound := frame_lt found
    rw [same] at bound
    exact Nat.lt_irrefl _ bound
  exact (frame_add_frame _ _ _).trans ((if_neg different).trans found)

theorem push_kept {Held : Type} {held : Array Held} {index : Nat} {old : Held} (added : Held)
    (found : held[index]? = some old) : (held.push added)[index]? = some old := by
  have bound := (Array.getElem?_eq_some_iff.1 found).1
  rw [Array.getElem?_push, if_neg (Nat.ne_of_lt bound)]
  exact found

theorem keeps_add_function (store : Store) (closure : Closure) :
    Keeps store (store.addFunction closure) :=
  { Keeps.refl store with functions := fun _ _ found => push_kept closure found }

theorem keeps_add_class (store : Store) (cls : Class) : Keeps store (store.addClass cls) :=
  { Keeps.refl store with classes := fun _ _ found => push_kept cls found }

theorem keeps_add_instance (store : Store) (object : Instance) :
    Keeps store (store.addInstance object) :=
  { Keeps.refl store with instances := fun _ old found => ⟨old, push_kept object found, rfl⟩ }

theorem keeps_set_field (store : Store) (ref : InstanceRef) (name : String) (value : Value) :
    Keeps store (store.setField ref name value) := by
  refine { Keeps.refl store with instances := ?_ }
  intro sought object found
  simp only [Heap.instance?] at found
  simp only [Store.setField, Heap.setField, Heap.instance?, Array.getElem?_modify, found]
  split
  · exact ⟨_, rfl, rfl⟩
  · exact ⟨object, rfl, rfl⟩

/-- The method belongs to the class of the receiver or to an ancestor of it, and it is found there
under its own name. -/
def Bindable (store : Store) (method : Closure) (receiver : InstanceRef) : Prop :=
  ∃ owner object, store.heap.Belongs owner method ∧ store.heap.instance? receiver = some object ∧
    Heap.Descends store.heap object.cls owner

theorem keeps_bindable (keeps : Keeps store later) {method : Closure} {receiver : InstanceRef}
    (bindable : Bindable store method receiver) : Bindable later method receiver := by
  rcases bindable with ⟨owner, object, ⟨cls, found, held⟩, isObject, descends⟩
  obtain ⟨changed, isChanged, same⟩ := keeps.instances receiver object isObject
  refine ⟨owner, changed, ⟨cls, keeps.classes _ _ found, held⟩, isChanged, ?_⟩
  rw [same]
  exact Heap.descends_later keeps.classes descends

def ReceiverAt (store : Store) (ref : FrameRef) (method : Closure) (receiver : InstanceRef) : Prop :=
  store.origins[ref.index]? = some .receiver ∧
    store.heap.frame? ref = some (Heap.receiverFrame method receiver)

def BaseAt (store : Store) (ref : FrameRef) (parent : ClassRef) : Prop :=
  store.origins[ref.index]? = some .base ∧
    ∃ outer, store.heap.frame? ref =
      some ⟨some outer, Bindings.empty.insert "base" (.classRef parent)⟩

theorem keeps_receiver_at (keeps : Keeps store later) {ref : FrameRef} {method : Closure}
    {receiver : InstanceRef} (isAt : ReceiverAt store ref method receiver) :
    ReceiverAt later ref method receiver :=
  ⟨keeps.origins _ _ isAt.1, keeps.frames _ _ ⟨_, isAt.1, rfl⟩ isAt.2⟩

theorem keeps_base_at (keeps : Keeps store later) {ref : FrameRef} {parent : ClassRef}
    (isAt : BaseAt store ref parent) : BaseAt later ref parent := by
  rcases isAt with ⟨tag, outer, found⟩
  exact ⟨keeps.origins _ _ tag, outer, keeps.frames _ _ ⟨_, tag, rfl⟩ found⟩

def Surrounds (store : Store) (ref : FrameRef) : Option ClassRef → Prop
  | none => Open store ref
  | some parent => BaseAt store ref parent

theorem keeps_surrounds (keeps : Keeps store later) {ref : FrameRef} {parent : Option ClassRef}
    (surrounds : Surrounds store ref parent) : Surrounds later ref parent := by
  cases parent with
  | none => exact keeps_open keeps surrounds
  | some parent => exact keeps_base_at keeps surrounds

/-- A class whose methods are known by their names and close over one frame. The method that
is named like the class is its constructor. -/
def Founded (store : Store) (cls : Class) : Prop :=
  ∀ name method, cls.methods.get? name = some method → method.name = name ∧
    method.isConstructor = (name == cls.name) ∧ Surrounds store method.frame cls.parent

section Provenance

variable (statements : List Stmt)

/-- A function that a program can get hold of: one that a statement declared, or a method
bound to a receiver. -/
inductive Callable (store : Store) : Closure → Prop where
  | declared {decl : FunctionDecl} {frame : FrameRef} {layers : List Layer}
      (stated : (.plain layers, .stmt (.functionDecl decl)) ∈ positions statements)
      (inside : Open store frame) : Callable store ⟨decl, frame, false⟩
  | bound {method : Closure} {receiver : InstanceRef} {frame : FrameRef}
      (isAt : ReceiverAt store frame method receiver) (bindable : Bindable store method receiver) :
      Callable store { method with frame := frame }

/-- What a frame is like that was made for this. Code has frames for ordinary names, and the frame
of a call lies inside that of its function; the other two hold one name each. -/
inductive Made (store : Store) : Origin → Frame → Prop where
  | code {origin : Origin} {frame : Frame} (opened : origin.isOpen = true)
      (names : ∀ name, (frame.bindings.get? name).isSome → Token.Ordinary name)
      (called : ∀ decl, origin = .call decl → ∃ closure, Callable statements store closure ∧
        closure.decl = decl ∧ frame.parent = some closure.frame) : Made store origin frame
  | receiver {method : Closure} {receiver : InstanceRef}
      (bindable : Bindable store method receiver) :
      Made store .receiver (Heap.receiverFrame method receiver)
  | base {outer : FrameRef} {parent : ClassRef} :
      Made store .base ⟨some outer, Bindings.empty.insert "base" (.classRef parent)⟩

structure Provenance (store : Store) : Prop where
  sized : store.origins.length = store.heap.frames.size
  outermost : store.origins[0]? = some .globals
  frames : ∀ ref frame origin, store.heap.frame? ref = some frame →
    store.origins[ref.index]? = some origin → Made statements store origin frame
  functions : ∀ ref closure, store.heap.function? ref = some closure →
    Callable statements store closure
  classes : ∀ ref cls, store.heap.class? ref = some cls → Founded store cls

variable {statements}

theorem keeps_callable (keeps : Keeps store later) {closure : Closure}
    (callable : Callable statements store closure) : Callable statements later closure := by
  cases callable with
  | declared stated inside => exact .declared stated (keeps_open keeps inside)
  | bound isAt bindable => exact .bound (keeps_receiver_at keeps isAt) (keeps_bindable keeps bindable)

theorem keeps_made (keeps : Keeps store later) {origin : Origin} {frame : Frame}
    (made : Made statements store origin frame) : Made statements later origin frame := by
  cases made with
  | code opened names called =>
      apply Made.code opened names
      intro decl same
      obtain ⟨closure, callable, facts⟩ := called decl same
      exact ⟨closure, keeps_callable keeps callable, facts⟩
  | receiver bindable => exact .receiver (keeps_bindable keeps bindable)
  | base => exact .base

theorem keeps_founded (keeps : Keeps store later) {cls : Class} (founded : Founded store cls) :
    Founded later cls := by
  intro name method held
  obtain ⟨named, constructs, surrounds⟩ := founded name method held
  exact ⟨named, constructs, keeps_surrounds keeps surrounds⟩

/-- A later store that keeps what there was and has good reason for what is new. -/
structure Extends (statements : List Stmt) (store later : Store) : Prop where
  keeps : Keeps store later
  provenance : Provenance statements store → Provenance statements later

theorem Extends.trans (first : Extends statements store middle)
    (second : Extends statements middle later) : Extends statements store later :=
  ⟨first.keeps.trans second.keeps, fun known => second.provenance (first.provenance known)⟩

theorem extends_refl (store : Store) : Extends statements store store :=
  ⟨.refl store, fun known => known⟩

/-- An assignment or a declaration in a frame that is open. It touches neither `this` nor `base`,
and the frames that hold these stay sealed. -/
theorem extends_define {ref : FrameRef} {name : String} (opened : Open store ref)
    (ordinary : Token.Ordinary name) (value : Value) :
    Extends statements store (store.define ref name value) := by
  have keeps := keeps_define opened name value
  refine ⟨keeps, fun known => ⟨?_, known.outermost, ?_, ?_, ?_⟩⟩
  · rw [Store.define, define_size]
    exact known.sized
  · intro sought frame origin found tag
    obtain ⟨old, isOld, rfl⟩ := Option.map_eq_some_iff.1 ((frame_define _ _ _ _ _).symm.trans found)
    have made := known.frames sought old origin isOld tag
    apply keeps_made keeps
    split
    next same =>
      subst same
      cases made with
      | code isOpen names called =>
          refine Made.code isOpen ?_ called
          intro other held
          rw [Bindings.get_insert] at held
          split at held
          next named =>
            rw [named]
            exact ordinary
          next => exact names other held
      | receiver bindable => exact absurd ⟨_, tag, rfl⟩ (open_not_sealed opened)
      | base => exact absurd ⟨_, tag, rfl⟩ (open_not_sealed opened)
    next => exact made
  · intro sought closure found
    exact keeps_callable keeps (known.functions sought closure found)
  · intro sought cls found
    exact keeps_founded keeps (known.classes sought cls found)

/-- A new frame for a reason. Nothing that a store had is touched by it. -/
theorem extends_add_frame {frame : Frame} {origin : Origin}
    (made : Made statements store origin frame) :
    Extends statements store (store.addFrame frame origin) := by
  have keeps := keeps_add_frame store frame origin
  refine ⟨keeps, fun known => ⟨?_, keeps.origins _ _ known.outermost, ?_, ?_, ?_⟩⟩
  · simp [Store.addFrame, Heap.addFrame, known.sized]
  · intro sought content tag found tagged
    apply keeps_made keeps
    rw [Store.addFrame, frame_add_frame] at found
    split at found
    next fresh =>
      cases found
      rw [fresh, Store.addFrame, Heap.nextFrame, ← known.sized] at tagged
      simp only [List.getElem?_concat_length, Option.some.injEq] at tagged
      rw [← tagged]
      exact made
    next =>
      have bound := frame_lt found
      rw [← known.sized] at bound
      rw [Store.addFrame, List.getElem?_append_left bound] at tagged
      exact known.frames sought content tag found tagged
  · intro sought closure found
    exact keeps_callable keeps (known.functions sought closure found)
  · intro sought cls found
    exact keeps_founded keeps (known.classes sought cls found)

theorem extends_add_function {closure : Closure} (callable : Callable statements store closure) :
    Extends statements store (store.addFunction closure) := by
  have keeps := keeps_add_function store closure
  refine ⟨keeps, fun known => ⟨known.sized, known.outermost, ?_, ?_, ?_⟩⟩
  · intro sought frame origin found tag
    exact keeps_made keeps (known.frames sought frame origin found tag)
  · intro sought other found
    simp only [Store.addFunction, Heap.addFunction, Heap.function?, Array.getElem?_push] at found
    split at found
    · cases found
      exact keeps_callable keeps callable
    · exact keeps_callable keeps (known.functions sought other found)
  · intro sought cls found
    exact keeps_founded keeps (known.classes sought cls found)

theorem extends_add_class {cls : Class} (founded : Founded store cls) :
    Extends statements store (store.addClass cls) := by
  have keeps := keeps_add_class store cls
  refine ⟨keeps, fun known => ⟨known.sized, known.outermost, ?_, ?_, ?_⟩⟩
  · intro sought frame origin found tag
    exact keeps_made keeps (known.frames sought frame origin found tag)
  · intro sought closure found
    exact keeps_callable keeps (known.functions sought closure found)
  · intro sought other found
    rw [Store.addClass, class_add_class] at found
    split at found
    · cases found
      exact keeps_founded keeps founded
    · exact keeps_founded keeps (known.classes sought other found)

theorem extends_instances (keeps : Keeps store later)
    (frames : later.heap.frames = store.heap.frames)
    (functions : later.heap.functions = store.heap.functions)
    (classes : later.heap.classes = store.heap.classes) (origins : later.origins = store.origins) :
    Extends statements store later := by
  refine ⟨keeps, fun known => ⟨?_, ?_, ?_, ?_, ?_⟩⟩
  · rw [origins, frames]
    exact known.sized
  · rw [origins]
    exact known.outermost
  · intro ref frame origin found tag
    rw [Heap.frame?, frames] at found
    rw [origins] at tag
    exact keeps_made keeps (known.frames ref frame origin found tag)
  · intro ref closure found
    rw [Heap.function?, functions] at found
    exact keeps_callable keeps (known.functions ref closure found)
  · intro ref cls found
    rw [Heap.class?, classes] at found
    exact keeps_founded keeps (known.classes ref cls found)

theorem receiver_added (known : Provenance statements store) {method : Closure}
    {receiver : InstanceRef} (bindable : Bindable store method receiver) :
    Extends statements store (store.addFrame (Heap.receiverFrame method receiver) .receiver) ∧
      Callable statements (store.addFrame (Heap.receiverFrame method receiver) .receiver)
        (store.heap.boundMethod method) := by
  have framed : Extends statements store
      (store.addFrame (Heap.receiverFrame method receiver) .receiver) :=
    extends_add_frame (.receiver bindable)
  have isAt : ReceiverAt (store.addFrame (Heap.receiverFrame method receiver) .receiver)
      store.heap.nextFrame method receiver := by
    constructor
    · simp [Store.addFrame, Heap.nextFrame, ← known.sized]
    · exact Heap.frame_addFrame _ _
  exact ⟨framed, .bound isAt (keeps_bindable framed.keeps bindable)⟩

theorem extends_bound (known : Provenance statements store) {method : Closure}
    {receiver : InstanceRef} (bindable : Bindable store method receiver) :
    Extends statements store (store.addBound method receiver) := by
  obtain ⟨framed, callable⟩ := receiver_added known bindable
  exact framed.trans (extends_add_function callable)

theorem extends_enter {closure : Closure} (callable : Callable statements store closure)
    (ordinary : ∀ name ∈ closure.decl.parameters, Token.Ordinary name.lexeme) (given : List Value) :
    Extends statements store (store.enter closure given) := by
  apply extends_add_frame
  apply Made.code rfl
  · intro name held
    obtain ⟨value, found⟩ := Option.isSome_iff_exists.1 held
    obtain ⟨parameter, member, rfl⟩ := List.mem_map.1 (parameter_bindings_mem found).1
    exact ordinary parameter member
  · intro decl same
    cases same
    exact ⟨closure, callable, rfl, rfl⟩

theorem open_ordinary (known : Provenance statements store) {ref : FrameRef} (opened : Open store ref)
    {name : String} (held : (store.heap.local? ref name).isSome) : Token.Ordinary name := by
  obtain ⟨value, found⟩ := Option.isSome_iff_exists.1 held
  obtain ⟨frame, isFrame, bound⟩ := Option.bind_eq_some_iff.1 found
  rcases opened with ⟨origin, tag, isOpen⟩
  cases known.frames ref frame origin isFrame tag with
  | code opened names called => exact names name (by rw [bound]; rfl)
  | receiver bindable => cases isOpen
  | base => cases isOpen

theorem frame_tagged (known : Provenance statements store) {ref : FrameRef} {frame : Frame}
    (isFrame : store.heap.frame? ref = some frame) :
    ∃ origin, store.origins[ref.index]? = some origin := by
  have tagged : ref.index < store.origins.length := by
    rw [known.sized]
    exact frame_lt isFrame
  exact ⟨_, List.getElem?_eq_getElem tagged⟩

theorem holder_sealed (known : Provenance statements store) {ref : FrameRef} {frame : Frame}
    (isFrame : store.heap.frame? ref = some frame) {name : String}
    (improper : ¬ Token.Ordinary name) (held : (frame.bindings.get? name).isSome) :
    Sealed store ref := by
  obtain ⟨origin, tag⟩ := frame_tagged known isFrame
  refine ⟨origin, tag, ?_⟩
  cases isOpen : origin.isOpen with
  | false => rfl
  | true =>
      have bound : (store.heap.local? ref name).isSome := by
        rw [Heap.local?, isFrame]
        exact held
      exact absurd (open_ordinary known ⟨origin, tag, isOpen⟩ bound) improper

theorem holder_open (known : Provenance statements store) {ref : FrameRef} {name : String}
    (ordinary : Token.Ordinary name) (held : (store.heap.local? ref name).isSome) :
    Open store ref := by
  obtain ⟨value, found⟩ := Option.isSome_iff_exists.1 held
  obtain ⟨frame, isFrame, bound⟩ := Option.bind_eq_some_iff.1 found
  obtain ⟨origin, tag⟩ := frame_tagged known isFrame
  refine ⟨origin, tag, ?_⟩
  cases known.frames ref frame origin isFrame tag with
  | code opened names called => exact opened
  | receiver bindable => simp [Heap.receiverFrame, ordinary.1] at bound
  | base => simp [ordinary.2] at bound

end Provenance

end Quill.Machine
