import Quill.Heap.Display
import Quill.Machine.Fault

/-!
The operators on values. Equality accepts any two values, addition two numbers or
anything beside a string, and all others numbers only. Whether the operands are numbers
is asked before whether the operator exists.
-/

namespace Quill.Machine

set_option autoImplicit false

def applyUnary (operator : Kind) (right : Value) : Except Fault Value :=
  match operator with
  | .minus =>
      match right with
      | .number value => .ok (.number (-value))
      | _ => .error .operandNotNumber
  | .bang => .ok (.boolean (!right.isTruthy))
  | other => .error (.unknownUnary other)

def add (heap : Heap) (left right : Value) : Except Fault Value :=
  match left, right with
  | .number first, .number second => .ok (.number (first + second))
  | .text first, second => .ok (.text (first ++ heap.display second))
  | first, .text second => .ok (.text (heap.display first ++ second))
  | _, _ => .error .operandsNotAddable

def applyNumeric (operator : Kind) (left right : Float) : Except Fault Value :=
  match operator with
  | .minus => .ok (.number (left - right))
  | .star => .ok (.number (left * right))
  | .slash => .ok (.number (left / right))
  | .greater => .ok (.boolean (right < left))
  | .greaterEqual => .ok (.boolean (right ≤ left))
  | .less => .ok (.boolean (left < right))
  | .lessEqual => .ok (.boolean (left ≤ right))
  | other => .error (.unknownBinary other)

def applyBinary (heap : Heap) (left : Value) (operator : Kind) (right : Value) :
    Except Fault Value :=
  match operator with
  | .equalEqual => .ok (.boolean (left.same right))
  | .bangEqual => .ok (.boolean (!left.same right))
  | .plus => add heap left right
  | other =>
      match left, right with
      | .number first, .number second => applyNumeric other first second
      | _, _ => .error .operandsNotNumbers

def shortCircuits (operator : Kind) (left : Value) : Bool :=
  match operator with
  | .orOr => left.isTruthy
  | _ => !left.isTruthy

end Quill.Machine
