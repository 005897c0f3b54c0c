import Quill.Heap.Basic

/-!
Names in frames: by search from a frame outwards, and at a fixed distance. Every write
is a `define` into a frame found beforehand, so an access that fails writes nothing.
-/

namespace Quill.Heap

set_option autoImplicit false

inductive AccessFault where
  | undefinedVariable (name : String)
  | noFrameAt (distance : Nat)
deriving DecidableEq, Repr

def AccessFault.message : AccessFault → String
  | undefinedVariable name => s!"Undefined variable '{name}'."
  | noFrameAt distance => s!"No environment at distance {distance}."

def define (heap : Heap) (frame : FrameRef) (name : String) (value : Value) : Heap :=
  { heap with
    frames := heap.frames.modify frame.index fun content =>
      { content with bindings := content.bindings.insert name value } }

def local? (heap : Heap) (frame : FrameRef) (name : String) : Option Value :=
  (heap.frame? frame).bind (·.bindings.get? name)

def parent? (heap : Heap) (frame : FrameRef) : Option FrameRef :=
  (heap.frame? frame).bind (·.parent)

def ancestor? (heap : Heap) (frame : FrameRef) : Nat → Option FrameRef
  | 0 => some frame
  | distance + 1 => (heap.parent? frame).bind (heap.ancestor? · distance)

def holderWithin (heap : Heap) (name : String) : Nat → FrameRef → Option FrameRef
  | 0, _ => none
  | budget + 1, frame =>
      match heap.local? frame name with
      | some _ => some frame
      | none => (heap.parent? frame).bind (heap.holderWithin name budget)

/-- Parents are older than their children, so no way outwards is longer than the number
of frames. -/
def holder? (heap : Heap) (frame : FrameRef) (name : String) : Option FrameRef :=
  heap.holderWithin name heap.frames.size frame

def slot (heap : Heap) (frame : FrameRef) (name : String) : Except AccessFault FrameRef :=
  match heap.holder? frame name with
  | some holder => .ok holder
  | none => .error (.undefinedVariable name)

/-- The frame that a write at a distance goes to. It must hold the name already: no write by
distance makes a new binding, and where the resolver has counted wrong the write fails. -/
def slotAt (heap : Heap) (frame : FrameRef) (distance : Nat) (name : String) :
    Except AccessFault FrameRef :=
  match heap.ancestor? frame distance with
  | none => .error (.noFrameAt distance)
  | some holder =>
      match heap.local? holder name with
      | some _ => .ok holder
      | none => .error (.undefinedVariable name)

def read (heap : Heap) (frame : FrameRef) (name : String) : Except AccessFault Value :=
  match (heap.holder? frame name).bind (heap.local? · name) with
  | some value => .ok value
  | none => .error (.undefinedVariable name)

def readAt (heap : Heap) (frame : FrameRef) (distance : Nat) (name : String) :
    Except AccessFault Value :=
  match heap.ancestor? frame distance with
  | none => .error (.noFrameAt distance)
  | some holder =>
      match heap.local? holder name with
      | some value => .ok value
      | none => .error (.undefinedVariable name)

def assign (heap : Heap) (frame : FrameRef) (name : String) (value : Value) :
    Except AccessFault Heap :=
  (heap.slot frame name).map (heap.define · name value)

def assignAt (heap : Heap) (frame : FrameRef) (distance : Nat) (name : String)
    (value : Value) : Except AccessFault Heap :=
  (heap.slotAt frame distance name).map (heap.define · name value)

end Quill.Heap
