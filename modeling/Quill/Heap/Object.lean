import Quill.Heap.Basic

/-!
Classes and instances: methods are searched from a class towards its oldest ancestor,
and what a program gets to see of a method is always bound to a receiver.
-/

namespace Quill

set_option autoImplicit false

inductive Property where
  | field (value : Value)
  | method (closure : Closure)

namespace Heap

def methodWithin (heap : Heap) (name : String) : Nat → ClassRef → Option Closure
  | 0, _ => none
  | budget + 1, ref => do
      let cls ← heap.class? ref
      match cls.methods.get? name with
      | some method => some method
      | none => cls.parent.bind (heap.methodWithin name budget)

def method? (heap : Heap) (ref : ClassRef) (name : String) : Option Closure :=
  heap.methodWithin name heap.classes.size ref

/-- The nearest method that is named like its own class, within a number of classes. So a derived
class without a constructor is set up by that of its base. -/
def constructorWithin (heap : Heap) : Nat → ClassRef → Option Closure
  | 0, _ => none
  | budget + 1, ref => do
      let cls ← heap.class? ref
      match cls.methods.get? cls.name with
      | some method => some method
      | none => cls.parent.bind (heap.constructorWithin budget)

def constructor? (heap : Heap) (ref : ClassRef) : Option Closure :=
  heap.constructorWithin heap.classes.size ref

def classArity (heap : Heap) (ref : ClassRef) : Nat :=
  ((heap.constructor? ref).map Closure.arity).getD 0

/-- The methods of a class body. A later method replaces an earlier one of its name,
and the method named like the class is its constructor. -/
def methodTable (className : String) (frame : FrameRef) (methods : List FunctionDecl) :
    Bindings Closure :=
  methods.foldl
    (fun table decl =>
      table.insert decl.name.lexeme ⟨decl, frame, decl.name.lexeme == className⟩)
    .empty

def field? (heap : Heap) (ref : InstanceRef) (name : String) : Option Value :=
  (heap.instance? ref).bind (·.fields.get? name)

def setField (heap : Heap) (ref : InstanceRef) (name : String) (value : Value) : Heap :=
  { heap with
    instances := heap.instances.modify ref.index fun content =>
      { content with fields := content.fields.insert name value } }

/-- A field hides a method of the same name. -/
def property? (heap : Heap) (ref : InstanceRef) (name : String) : Option Property :=
  match heap.field? ref name with
  | some value => some (.field value)
  | none => do
      let object ← heap.instance? ref
      let method ← heap.method? object.cls name
      some (.method method)

def receiverFrame (method : Closure) (receiver : InstanceRef) : Frame :=
  ⟨some method.frame, Bindings.empty.insert "this" (.instanceRef receiver)⟩

/-- A method closed over the frame that `addFrame (receiverFrame …)` adds next. The constructor
stays one when it is bound, so that calling it again gives the receiver. -/
def boundMethod (heap : Heap) (method : Closure) : Closure :=
  { method with frame := heap.nextFrame }

/-- Adds a method bound to a receiver; it is the function that `nextFunction` announced. -/
def addBound (heap : Heap) (method : Closure) (receiver : InstanceRef) : Heap :=
  let bound := heap.boundMethod method
  (heap.addFrame (receiverFrame method receiver)).addFunction bound

end Heap

end Quill
