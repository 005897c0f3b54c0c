/-!
Where printed text goes. A sink of limited capacity keeps the bytes that fit and then
fails; a sink may also fail to flush.
-/

namespace Quill

set_option autoImplicit false

/-- What the host says of a sink that is full, and of one that cannot be flushed. The words are
the host's own and may be any; diagnostics pass them on as they are. -/
structure SinkWording where
  full : String
  flush : String
deriving DecidableEq, Repr, Inhabited

def SinkWording.plain : SinkWording := ⟨"sink full", "flush failed"⟩

structure Sink where
  stored : ByteArray
  capacity : Option Nat
  canFlush : Bool
deriving Inhabited

namespace Sink

def unlimited : Sink := ⟨.empty, none, true⟩

def fitting (sink : Sink) (bytes : ByteArray) : ByteArray :=
  match sink.capacity with
  | none => bytes
  | some capacity => bytes.extract 0 (capacity - sink.stored.size)

def fits (sink : Sink) (bytes : ByteArray) : Bool :=
  match sink.capacity with
  | none => true
  | some capacity => sink.stored.size + bytes.size ≤ capacity

/-- Keeps what fits. A text that is too long leaves its first bytes in the sink before the failure
is noticed, so output is cut within a text and not before it. -/
def write (sink : Sink) (bytes : ByteArray) : Sink :=
  let kept := sink.fitting bytes
  { sink with stored := sink.stored ++ kept }

def clear (sink : Sink) : Sink :=
  { sink with stored := .empty }

end Sink

end Quill
