import Quill.Heap.Environment
import Quill.Token.Kind

/-!
What can go wrong while a program runs, and how it is worded.
-/

namespace Quill.Machine

set_option autoImplicit false

inductive Fault where
  | operandNotNumber
  | operandsNotNumbers
  | operandsNotAddable
  | unknownUnary (kind : Kind)
  | unknownBinary (kind : Kind)
  | access (fault : Heap.AccessFault)
  | notCallable (typeName : String)
  | wrongArity (expected given : Nat)
  | stackOverflow
  | noProperties
  | noFields
  | undefinedProperty (name : String)
  | misplacedBase
  | baseNotClass
  /-- In the words of the host. -/
  | printFailed (reason : String)
deriving DecidableEq, Repr

def Fault.message : Fault → String
  | operandNotNumber => "Operand must be a number."
  | operandsNotNumbers => "Operands must be numbers."
  | operandsNotAddable => "Operands must be two numbers or include a string."
  | unknownUnary kind => s!"Unknown unary operator {kind.name}."
  | unknownBinary kind => s!"Unknown binary operator {kind.name}."
  | access fault => fault.message
  | notCallable typeName => s!"Can only call functions and classes, not {typeName}."
  | wrongArity expected given => s!"Expected {expected} arguments but got {given}."
  | stackOverflow => "Stack overflow."
  | noProperties => "Only instances have properties."
  | noFields => "Only instances have fields."
  | undefinedProperty name => s!"Undefined property '{name}'."
  | misplacedBase => "Can't use 'base' here."
  | baseNotClass => "Base class must be a class."
  | printFailed reason => s!"Print error: {reason}"

end Quill.Machine
