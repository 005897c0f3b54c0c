/-!
Values. Numbers, strings and truth values stand for themselves; everything else is a
reference to an object of the heap, and a reference is the identity of its object.
-/

namespace Quill

set_option autoImplicit false

structure FrameRef where
  index : Nat
deriving DecidableEq, Repr, Inhabited

structure NativeRef where
  index : Nat
deriving DecidableEq, Repr, Inhabited

structure FunctionRef where
  index : Nat
deriving DecidableEq, Repr, Inhabited

structure ClassRef where
  index : Nat
deriving DecidableEq, Repr, Inhabited

structure InstanceRef where
  index : Nat
deriving DecidableEq, Repr, Inhabited

inductive Value where
  | nil
  | boolean (truth : Bool)
  | number (value : Float)
  | text (value : String)
  | nativeRef (ref : NativeRef)
  | functionRef (ref : FunctionRef)
  | classRef (ref : ClassRef)
  | instanceRef (ref : InstanceRef)
deriving Inhabited

namespace Value

/-- Only `nil` and `false` count as false. -/
def isTruthy : Value → Bool
  | nil => false
  | boolean truth => truth
  | _ => true

def typeName : Value → String
  | nil => "nil"
  | boolean _ => "boolean"
  | number _ => "number"
  | text _ => "string"
  | nativeRef _ => "function"
  | functionRef _ => "function"
  | classRef _ => "class"
  | instanceRef _ => "instance"

/-- Equality as programs see it: objects by identity, numbers as numbers, so that one
that is no number differs from itself. Values of different types are never equal. -/
def same : Value → Value → Bool
  | nil, nil => true
  | boolean left, boolean right => left == right
  | number left, number right => left == right
  | text left, text right => left == right
  | nativeRef left, nativeRef right => left == right
  | functionRef left, functionRef right => left == right
  | classRef left, classRef right => left == right
  | instanceRef left, instanceRef right => left == right
  | _, _ => false

end Value

end Quill
