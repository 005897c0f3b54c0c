import Quill.Heap.Display
import Quill.Machine.State
import Quill.Proofs.Layout.Bare

/-!
Storing does not see where tokens stand. Closures and classes are all that a heap keeps of
a tree; in a bare heap they are bare, and everything that is looked up or added is what it
is in the heap itself.
-/

namespace Quill

set_option autoImplicit false

namespace Bindings

variable {Held Image : Type}

def map (erase : Held → Image) (bindings : Bindings Held) : Bindings Image :=
  ⟨bindings.entries.map fun entry => (entry.1, erase entry.2)⟩

@[simp] theorem get_map (erase : Held → Image) (bindings : Bindings Held) (name : String) :
    (bindings.map erase).get? name = (bindings.get? name).map erase := by
  rcases bindings with ⟨entries⟩
  change (entries.map _).lookup name = (entries.lookup name).map erase
  induction entries with
  | nil => rfl
  | cons entry rest induction =>
      rw [List.map_cons, List.lookup_cons, List.lookup_cons, induction]
      cases name == entry.1 <;> rfl

theorem insert_map (erase : Held → Image) (bindings : Bindings Held) (name : String) (held : Held) :
    (bindings.map erase).insert name (erase held) = (bindings.insert name held).map erase := by
  rcases bindings with ⟨entries⟩
  apply congrArg Bindings.mk
  change insertEntry name (erase held) (entries.map _) = (insertEntry name held entries).map _
  induction entries with
  | nil => rfl
  | cons entry rest induction =>
      rw [List.map_cons, insertEntry, insertEntry, induction]
      cases name == entry.1 <;> rfl

end Bindings

namespace Closure

def bare (closure : Closure) : Closure := { closure with decl := closure.decl.bare }

@[simp] theorem bare_name (closure : Closure) : closure.bare.name = closure.name := by
  simp [name, bare]

@[simp] theorem bare_arity (closure : Closure) : closure.bare.arity = closure.arity := by
  simp [arity, bare]

@[simp] theorem bare_display (closure : Closure) : closure.bare.display = closure.display := by
  simp [display]

end Closure

def Class.bare (cls : Class) : Class := { cls with methods := cls.methods.map Closure.bare }

namespace Heap

def bare (heap : Heap) : Heap where
  frames := heap.frames
  natives := heap.natives
  functions := heap.functions.map Closure.bare
  classes := heap.classes.map Class.bare
  instances := heap.instances

section Lookup

@[simp] theorem bare_native (heap : Heap) (ref : NativeRef) :
    heap.bare.native? ref = heap.native? ref := rfl

@[simp] theorem bare_instance (heap : Heap) (ref : InstanceRef) :
    heap.bare.instance? ref = heap.instance? ref := rfl

@[simp] theorem bare_function (heap : Heap) (ref : FunctionRef) :
    heap.bare.function? ref = (heap.function? ref).map Closure.bare := by
  simp [function?, bare]

@[simp] theorem bare_class (heap : Heap) (ref : ClassRef) :
    heap.bare.class? ref = (heap.class? ref).map Class.bare := by
  simp [class?, bare]

@[simp] theorem bare_local (heap : Heap) (frame : FrameRef) (name : String) :
    heap.bare.local? frame name = heap.local? frame name := rfl

@[simp] theorem bare_parent (heap : Heap) (frame : FrameRef) :
    heap.bare.parent? frame = heap.parent? frame := rfl

@[simp] theorem bare_field (heap : Heap) (ref : InstanceRef) (name : String) :
    heap.bare.field? ref name = heap.field? ref name := rfl

@[simp] theorem bare_ancestor (heap : Heap) (distance : Nat) (frame : FrameRef) :
    heap.bare.ancestor? frame distance = heap.ancestor? frame distance := by
  induction distance generalizing frame with
  | zero => rfl
  | succ distance induction => simp only [ancestor?, bare_parent, induction]

theorem bare_holder_within (heap : Heap) (name : String) (budget : Nat) :
    heap.bare.holderWithin name budget = heap.holderWithin name budget := by
  induction budget with
  | zero => rfl
  | succ budget induction =>
      funext frame
      simp only [holderWithin, bare_local, bare_parent, induction]

@[simp] theorem bare_holder (heap : Heap) (frame : FrameRef) (name : String) :
    heap.bare.holder? frame name = heap.holder? frame name := by
  unfold holder?
  rw [bare_holder_within]
  rfl

@[simp] theorem bare_read (heap : Heap) (frame : FrameRef) (name : String) :
    heap.bare.read frame name = heap.read frame name := by
  simp only [read, bare_holder, bare_local]

@[simp] theorem bare_read_at (heap : Heap) (frame : FrameRef) (distance : Nat) (name : String) :
    heap.bare.readAt frame distance name = heap.readAt frame distance name := by
  simp only [readAt, bare_ancestor, bare_local]

@[simp] theorem bare_slot (heap : Heap) (frame : FrameRef) (name : String) :
    heap.bare.slot frame name = heap.slot frame name := by
  simp only [slot, bare_holder]

@[simp] theorem bare_slot_at (heap : Heap) (frame : FrameRef) (distance : Nat) (name : String) :
    heap.bare.slotAt frame distance name = heap.slotAt frame distance name := by
  simp only [slotAt, bare_ancestor, bare_local]

theorem nearest_map (methods : Bindings Closure) (name : String) (parent : Option ClassRef)
    {search searchBare : ClassRef → Option Closure}
    (same : ∀ ref, searchBare ref = (search ref).map Closure.bare) :
    (match (methods.map Closure.bare).get? name with
      | some method => some method
      | none => parent.bind searchBare) =
      (match methods.get? name with
        | some method => some method
        | none => parent.bind search).map Closure.bare := by
  rw [Bindings.get_map]
  cases methods.get? name with
  | some method => rfl
  | none =>
      cases parent with
      | none => rfl
      | some ref => exact same ref

theorem bare_method_within (heap : Heap) (name : String) (budget : Nat) (ref : ClassRef) :
    heap.bare.methodWithin name budget ref =
      (heap.methodWithin name budget ref).map Closure.bare := by
  induction budget generalizing ref with
  | zero => rfl
  | succ budget induction =>
      simp only [methodWithin, bare_class]
      cases heap.class? ref with
      | none => rfl
      | some cls => exact nearest_map cls.methods name cls.parent induction

@[simp] theorem bare_method (heap : Heap) (ref : ClassRef) (name : String) :
    heap.bare.method? ref name = (heap.method? ref name).map Closure.bare := by
  unfold method?
  rw [bare_method_within]
  simp [bare]

theorem bare_constructor_within (heap : Heap) (budget : Nat) (ref : ClassRef) :
    heap.bare.constructorWithin budget ref =
      (heap.constructorWithin budget ref).map Closure.bare := by
  induction budget generalizing ref with
  | zero => rfl
  | succ budget induction =>
      simp only [constructorWithin, bare_class]
      cases heap.class? ref with
      | none => rfl
      | some cls => exact nearest_map cls.methods cls.name cls.parent induction

@[simp] theorem bare_constructor (heap : Heap) (ref : ClassRef) :
    heap.bare.constructor? ref = (heap.constructor? ref).map Closure.bare := by
  unfold constructor?
  rw [bare_constructor_within]
  simp [bare]

@[simp] theorem bare_class_arity (heap : Heap) (ref : ClassRef) :
    heap.bare.classArity ref = heap.classArity ref := by
  unfold classArity
  rw [bare_constructor]
  cases heap.constructor? ref <;> simp

@[simp] theorem bare_class_name (heap : Heap) (ref : ClassRef) :
    heap.bare.className ref = heap.className ref := by
  unfold className
  rw [bare_class]
  cases heap.class? ref <;> rfl

@[simp] theorem bare_display (heap : Heap) (value : Value) :
    heap.bare.display value = heap.display value := by
  cases value with
  | boolean truth => cases truth <;> rfl
  | functionRef ref =>
      simp only [display, bare_function]
      cases heap.function? ref <;> simp
  | classRef ref => exact bare_class_name heap ref
  | instanceRef ref => simp only [display, instanceDisplay, bare_instance, bare_class_name]
  | _ => rfl

end Lookup

section Addition

@[simp] theorem bare_next_function (heap : Heap) : heap.bare.nextFunction = heap.nextFunction := by
  simp [nextFunction, bare]

@[simp] theorem bare_next_class (heap : Heap) : heap.bare.nextClass = heap.nextClass := by
  simp [nextClass, bare]

@[simp] theorem bare_add_function (heap : Heap) (closure : Closure) :
    heap.bare.addFunction closure.bare = (heap.addFunction closure).bare := by
  simp [addFunction, bare]

@[simp] theorem bare_add_class (heap : Heap) (cls : Class) :
    heap.bare.addClass cls.bare = (heap.addClass cls).bare := by
  simp [addClass, bare]

@[simp] theorem bare_add_bound (heap : Heap) (method : Closure) (receiver : InstanceRef) :
    heap.bare.addBound method.bare receiver = (heap.addBound method receiver).bare :=
  bare_add_function (heap.addFrame (receiverFrame method receiver)) (heap.boundMethod method)

theorem method_table_bare (className : String) (frame : FrameRef) (methods : List FunctionDecl) :
    methodTable className frame (bareDecls methods) =
      (methodTable className frame methods).map Closure.bare := by
  have folded : ∀ table : Bindings Closure,
      (bareDecls methods).foldl (fun table decl => table.insert decl.name.lexeme
          ⟨decl, frame, decl.name.lexeme == className⟩) (table.map Closure.bare) =
        (methods.foldl (fun table decl => table.insert decl.name.lexeme
          ⟨decl, frame, decl.name.lexeme == className⟩) table).map Closure.bare := by
    induction methods with
    | nil => exact fun _ => rfl
    | cons decl rest induction =>
        intro table
        rw [bareDecls, List.foldl_cons, List.foldl_cons, ← induction, ← Bindings.insert_map]
        simp only [FunctionDecl.bare_name, Token.bare_lexeme, Closure.bare]
  exact folded .empty

end Addition

end Heap

namespace Machine.State

def bare (state : State) : State := { state with heap := state.heap.bare }

@[simp] theorem bare_heap (state : State) : state.bare.heap = state.heap.bare := rfl

@[simp] theorem bare_read (state : State) (id : Nat) (name : String) :
    state.bare.read id name = state.read id name := by
  unfold read
  simp only [bare, Heap.bare_read, Heap.bare_read_at]

@[simp] theorem bare_slot (state : State) (id : Nat) (name : String) :
    state.bare.slot id name = state.slot id name := by
  unfold slot
  simp only [bare, Heap.bare_slot, Heap.bare_slot_at]

@[simp] theorem bare_refusal (state : State) (arity given : Nat) :
    state.bare.refusal? arity given = state.refusal? arity given := rfl

@[simp] theorem bare_add_function (state : State) (closure : Closure) :
    state.bare.addFunction closure.bare = (state.addFunction closure).bare := by
  simp [addFunction, bare]

@[simp] theorem bare_add_class (state : State) (cls : Class) :
    state.bare.addClass cls.bare = (state.addClass cls).bare := by
  simp [addClass, bare]

@[simp] theorem bare_add_bound (state : State) (method : Closure) (receiver : InstanceRef) :
    state.bare.addBound method.bare receiver = (state.addBound method receiver).bare := by
  simp [addBound, bare]

@[simp] theorem bare_reset (state : State) (locals : Scope.Table) :
    (state.reset locals).bare = state.reset locals := by
  simp [bare, reset, fresh, Heap.bare, initialHeap]

end Machine.State

end Quill
