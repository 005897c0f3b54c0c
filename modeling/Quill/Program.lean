import Quill.Grammar.Statement
import Quill.Machine.Step
import Quill.Scope.Resolve
import Quill.Token.Lexer

/-!
From a source to its result. Compilation is staged: a source that cannot be scanned is
not parsed, one that does not parse is not resolved, and only what passes all three runs.
-/

namespace Quill

set_option autoImplicit false

structure Program where
  statements : List Stmt
  locals : Scope.Table

namespace Program

def parse (source : String) : Except Diagnostic Grammar.Parse :=
  match Lexer.tokens source with
  | .error fault => .error (fault.diagnose .lex Lexer.Fault.message)
  | .ok tokens => .ok (Grammar.parse tokens (Token.endOf source.toList))

theorem parse_of_tokens {source : String} {tokens : List Token}
    (scanned : Lexer.tokens source = .ok tokens) :
    parse source = .ok (Grammar.parse tokens (Token.endOf source.toList)) := by
  simp only [parse, scanned]

def parseDiagnostics (parse : Grammar.Parse) : List Diagnostic :=
  parse.faults.map (·.diagnose .parse Grammar.Fault.message)

def resolve (statements : List Stmt) : Except (List Diagnostic) Scope.Table :=
  match Scope.resolve statements with
  | .ok locals => .ok locals
  | .error faults => .error (faults.map (·.diagnose .resolve Scope.Fault.message))

/-- The stages one after the other. Each works only on what the one before it has accepted, so the
errors of a source are all of one stage. -/
def compile (source : String) : Except (List Diagnostic) Program :=
  match parse source with
  | .error diagnostic => .error [diagnostic]
  | .ok parsed =>
      if parsed.faults.isEmpty then
        match resolve parsed.statements with
        | .error diagnostics => .error diagnostics
        | .ok locals => .ok ⟨parsed.statements, locals⟩
      else .error (parseDiagnostics parsed)

structure Run where
  result : Except (List Diagnostic) Unit
  state : Machine.State

/-- The result of a machine that has stopped. Output is flushed whatever the result, and
a failure to flush takes its place. -/
def result (machine : Machine) : Except (List Diagnostic) Unit :=
  if machine.state.sink.canFlush then
    match machine.control with
    | .failing fault => .error [fault.diagnose .runtime Machine.Fault.message]
    | _ => .ok ()
  else .error [.host machine.state.wording.flush]

def finish? (steps : Nat) (machine : Machine) : Option Run :=
  let stopped := machine.run steps
  if stopped.halted then some ⟨result stopped, stopped.state⟩ else none

def load (program : Program) (state : Machine.State) : Machine :=
  Machine.load state program.locals program.statements

def interpret (steps : Nat) (program : Program) (state : Machine.State) : Option Run :=
  finish? steps (program.load state)

/-- Runs a source. One that does not compile leaves the interpreter as it is. -/
def run (steps : Nat) (source : String) (state : Machine.State) : Option Run :=
  match compile source with
  | .error diagnostics => some ⟨.error diagnostics, state⟩
  | .ok program => program.interpret steps state

end Program

end Quill
