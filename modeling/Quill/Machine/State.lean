import Quill.Heap.Environment
import Quill.Heap.Object
import Quill.Machine.Fault
import Quill.Machine.Sink
import Quill.Scope.Table

/-!
The state of an interpreter: its settings, its output, and everything that running a
program reads and changes.
-/

namespace Quill.Machine

set_option autoImplicit false

def defaultCallDepth : Nat := 255

/-- What is fixed for an interpreter. `clock` gives the time, in seconds, that each
reading of the clock within a run shows. -/
structure Settings where
  maxCallDepth : Nat
  clock : Nat → Float

/-- All that an interpreter has. Where it is in a program is not part of it: that is the control and
the stack of its machine. -/
structure State where
  settings : Settings
  sink : Sink
  /-- How failures of the sink are worded. -/
  wording : SinkWording
  heap : Heap
  /-- The outermost frame. -/
  globals : FrameRef
  /-- The frame in which names are declared at present. -/
  environment : FrameRef
  locals : Scope.Table
  /-- The number of calls in progress. -/
  depth : Nat
  /-- How often the clock has been read. -/
  readings : Nat

/-- The heap before a program starts: the outermost frame with the functions that the
language provides. -/
def initialHeap : Heap where
  frames := #[⟨none,
    (Bindings.empty.insert "print" (.nativeRef ⟨0⟩)).insert "clock" (.nativeRef ⟨1⟩)⟩]
  natives := #[⟨"print", 1, .print⟩, ⟨"clock", 0, .clock⟩]
  functions := #[]
  classes := #[]
  instances := #[]

namespace State

def fresh (settings : Settings) (sink : Sink) (wording : SinkWording := .plain) : State where
  settings := settings
  sink := sink
  wording := wording
  heap := initialHeap
  globals := ⟨0⟩
  environment := ⟨0⟩
  locals := .empty
  depth := 0
  readings := 0

/-- Only settings and output survive from one program to the next. The heap of an earlier run
may be dropped: whatever referred to it, the globals, the present frame and the values that its
tasks held, is new or gone, so nothing of the interpreter leads into it any more. -/
def reset (state : State) (locals : Scope.Table) : State :=
  { fresh state.settings state.sink state.wording with locals := locals }

def clearOutput (state : State) : State :=
  { state with sink := state.sink.clear }

def define (state : State) (frame : FrameRef) (name : String) (value : Value) : State :=
  { state with heap := state.heap.define frame name value }

def declare (state : State) (name : String) (value : Value) : State :=
  state.define state.environment name value

def enter (state : State) (parent : FrameRef) (bindings : Bindings Value) : State :=
  let inner := state.heap.nextFrame
  { state with heap := state.heap.addFrame ⟨some parent, bindings⟩, environment := inner }

def addFrame (state : State) (frame : Frame) : State :=
  { state with heap := state.heap.addFrame frame }

def addFunction (state : State) (closure : Closure) : State :=
  { state with heap := state.heap.addFunction closure }

def addBound (state : State) (method : Closure) (receiver : InstanceRef) : State :=
  { state with heap := state.heap.addBound method receiver }

def addClass (state : State) (cls : Class) : State :=
  { state with heap := state.heap.addClass cls }

def addInstance (state : State) (object : Instance) : State :=
  { state with heap := state.heap.addInstance object }

def setField (state : State) (ref : InstanceRef) (name : String) (value : Value) : State :=
  { state with heap := state.heap.setField ref name value }

def write (state : State) (bytes : ByteArray) : State :=
  { state with sink := state.sink.write bytes }

/-- What the name of an expression holds: at its distance if the table has one, and
among the globals otherwise. -/
def read (state : State) (id : Nat) (name : String) : Except Heap.AccessFault Value :=
  match state.locals.get? id with
  | some distance => state.heap.readAt state.environment distance name
  | none => state.heap.read state.globals name

def slot (state : State) (id : Nat) (name : String) : Except Heap.AccessFault FrameRef :=
  match state.locals.get? id with
  | some distance => state.heap.slotAt state.environment distance name
  | none => state.heap.slot state.globals name

/-- Why a call is refused before anything happens: first for its arguments, then for its
depth. -/
def refusal? (state : State) (arity given : Nat) : Option Fault :=
  if given ≠ arity then some (.wrongArity arity given)
  else if state.settings.maxCallDepth ≤ state.depth then some .stackOverflow
  else none

end State

end Quill.Machine
