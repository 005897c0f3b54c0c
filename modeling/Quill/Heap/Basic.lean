import Quill.Bindings
import Quill.Heap.Value
import Quill.Tree.Basic

/-!
The heap: everything that a program creates and refers to by identity. Objects are added
and never removed, so a reference stays valid and a parent is always older than its
children.
-/

namespace Quill

set_option autoImplicit false

structure Frame where
  parent : Option FrameRef
  bindings : Bindings Value
deriving Inhabited

inductive Builtin where
  | print
  | clock
deriving DecidableEq, Repr, Inhabited

structure Native where
  name : String
  arity : Nat
  builtin : Builtin
deriving Inhabited

/-- A declared function with the frame it was declared in. A bound method has a frame
that holds its receiver under `this`. -/
structure Closure where
  decl : FunctionDecl
  frame : FrameRef
  isConstructor : Bool
deriving Inhabited

namespace Closure

def name (closure : Closure) : String := closure.decl.name.lexeme

def arity (closure : Closure) : Nat := closure.decl.parameters.length

end Closure

/-- Methods are kept unbound. A class is there before all of its instances, and each access to a
method through one of them binds it anew. -/
structure Class where
  name : String
  parent : Option ClassRef
  methods : Bindings Closure
deriving Inhabited

structure Instance where
  cls : ClassRef
  fields : Bindings Value
deriving Inhabited

structure Heap where
  frames : Array Frame
  natives : Array Native
  functions : Array Closure
  classes : Array Class
  instances : Array Instance
deriving Inhabited

namespace Heap

def empty : Heap := ⟨#[], #[], #[], #[], #[]⟩

def nextFrame (heap : Heap) : FrameRef := ⟨heap.frames.size⟩

def nextNative (heap : Heap) : NativeRef := ⟨heap.natives.size⟩

def nextFunction (heap : Heap) : FunctionRef := ⟨heap.functions.size⟩

def nextClass (heap : Heap) : ClassRef := ⟨heap.classes.size⟩

def nextInstance (heap : Heap) : InstanceRef := ⟨heap.instances.size⟩

/-- Adds a frame, which becomes what `nextFrame` announced; the others likewise. -/
def addFrame (heap : Heap) (frame : Frame) : Heap :=
  { heap with frames := heap.frames.push frame }

def addNative (heap : Heap) (native : Native) : Heap :=
  { heap with natives := heap.natives.push native }

def addFunction (heap : Heap) (closure : Closure) : Heap :=
  { heap with functions := heap.functions.push closure }

def addClass (heap : Heap) (cls : Class) : Heap :=
  { heap with classes := heap.classes.push cls }

def addInstance (heap : Heap) (instance_ : Instance) : Heap :=
  { heap with instances := heap.instances.push instance_ }

def frame? (heap : Heap) (ref : FrameRef) : Option Frame := heap.frames[ref.index]?

def native? (heap : Heap) (ref : NativeRef) : Option Native := heap.natives[ref.index]?

def function? (heap : Heap) (ref : FunctionRef) : Option Closure := heap.functions[ref.index]?

def class? (heap : Heap) (ref : ClassRef) : Option Class := heap.classes[ref.index]?

def instance? (heap : Heap) (ref : InstanceRef) : Option Instance := heap.instances[ref.index]?

theorem frame_addFrame (heap : Heap) (frame : Frame) :
    (heap.addFrame frame).frame? heap.nextFrame = some frame := by
  simp [addFrame, frame?, nextFrame]

end Heap

end Quill
