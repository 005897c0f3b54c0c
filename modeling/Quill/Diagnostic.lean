/-!
Diagnostics as the user sees them. Each stage of the language states its faults as a
type of causes with one wording function; a diagnostic is such a cause after wording,
tagged with the stage and the line it belongs to.
-/

namespace Quill

set_option autoImplicit false

/-- A cause and the line, counted from one, on which it arose. -/
structure Located (Cause : Type) where
  line : Nat
  cause : Cause
deriving DecidableEq, Repr

inductive Stage where
  | lex
  | parse
  | resolve
  | runtime
deriving DecidableEq, Repr

inductive Diagnostic where
  | source (stage : Stage) (line : Nat) (message : String)
  | host (message : String)
deriving DecidableEq, Repr

namespace Diagnostic

def stage? : Diagnostic → Option Stage
  | source stage _ _ => some stage
  | host _ => none

def line? : Diagnostic → Option Nat
  | source _ line _ => some line
  | host _ => none

def message : Diagnostic → String
  | source _ _ message => message
  | host message => message

/-- Only failures of a running program are called runtime errors. Those of all earlier stages read
alike, and a failure of the host has no line and is passed on in its own words. -/
def render : Diagnostic → String
  | source .runtime line message => s!"[line {line}] Runtime error: {message}"
  | source _ line message => s!"[line {line}] Error: {message}"
  | host message => message

end Diagnostic

namespace Located

def diagnose {Cause : Type} (stage : Stage) (wording : Cause → String) (fault : Located Cause) :
    Diagnostic :=
  .source stage fault.line (wording fault.cause)

end Located

end Quill
