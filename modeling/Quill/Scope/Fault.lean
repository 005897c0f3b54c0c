/-!
Violations of the scoping rules, and how they are worded.
-/

namespace Quill.Scope

set_option autoImplicit false

inductive Violation where
  | topLevelReturn
  | constructorValue
  | selfInheritance
  | thisOutsideClass
  | baseOutsideClass
  | baseWithoutParent
  | ownInitializer
  | duplicate
deriving DecidableEq, Repr

def Violation.message : Violation → String
  | topLevelReturn => "Can't return from top-level code."
  | constructorValue => "Can't return a value from a constructor."
  | selfInheritance => "A class can't inherit from itself."
  | thisOutsideClass => "Can't use 'this' outside of a class."
  | baseOutsideClass => "Can't use 'base' outside of a class."
  | baseWithoutParent => "Can't use 'base' in a class with no base class."
  | ownInitializer => "Can't read local variable in its own initializer."
  | duplicate => "Already a variable with this name in this scope."

structure Fault where
  violation : Violation
  lexeme : String
deriving DecidableEq, Repr

def Fault.message (fault : Fault) : String :=
  s!"{fault.violation.message} (at '{fault.lexeme}')"

end Quill.Scope
