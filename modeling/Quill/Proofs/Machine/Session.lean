import Quill.Proofs.Machine.Balance
import Quill.Proofs.Machine.Stopping

/-!
Runs on one interpreter are independent. A program starts on a clean heap, and all that it finds
of the interpreter are the settings, which no run changes, and the output, which runs only add
to. So with the output emptied in between, each run of a session is the run on a fresh
interpreter, whatever ended the runs before it and whatever they have left behind.
-/

namespace Quill.Program

set_option autoImplicit false

def Run.observed (run : Run) : Except (List Diagnostic) Unit × ByteArray :=
  (run.result, run.state.sink.stored)

/-- Runs sources, each within a number of steps, one after the other on one interpreter. Its
output is emptied before each run. -/
def session : List (Nat × String) → Machine.State → Option (List Run)
  | [], _ => some []
  | (steps, source) :: later, state => do
      let first ← run steps source state.clearOutput
      let others ← session later first.state
      return first :: others

def alone (state : Machine.State) (steps : Nat) (source : String) : Option Run :=
  run steps source (.fresh state.settings state.sink.clear state.wording)

/-- Nothing but settings and output tells a used interpreter from a fresh one: no frame, no class
and no depth of an earlier run is ever looked at. -/
theorem run_observed (steps : Nat) (source : String) (state : Machine.State) :
    (run steps source state.clearOutput).map Run.observed =
      (alone state steps source).map Run.observed := by
  unfold alone
  cases compiles : compile source with
  | error diagnostics =>
      rw [run_of_rejected compiles, run_of_rejected compiles]
      rfl
  | ok program =>
      have loaded : program.load state.clearOutput =
          program.load (.fresh state.settings state.sink.clear state.wording) := rfl
      rw [run_of_compile compiles, run_of_compile compiles, loaded]

theorem run_leaves {steps : Nat} {source : String} {state : Machine.State} {first : Run}
    (ended : run steps source state.clearOutput = some first) :
    first.state.settings = state.settings ∧ first.state.sink.clear = state.sink.clear ∧
      first.state.wording = state.wording := by
  cases compiles : compile source with
  | error diagnostics =>
      rw [run_of_rejected compiles] at ended
      cases ended
      exact ⟨rfl, rfl, rfl⟩
  | ok program =>
      rw [run_of_compile compiles] at ended
      obtain ⟨-, rfl⟩ := finish_eq_some ended
      have kept := Machine.run_persists (program.load state.clearOutput) steps
      obtain ⟨printed, sink⟩ := kept.output
      refine ⟨kept.settings, ?_, kept.wording⟩
      rw [sink]
      rfl

theorem session_observed (sources : List (Nat × String)) (state : Machine.State) :
    (session sources state).map (List.map Run.observed) =
      sources.mapM fun entry => (alone state entry.1 entry.2).map Run.observed := by
  induction sources generalizing state with
  | nil => rfl
  | cons entry later induction =>
      obtain ⟨steps, source⟩ := entry
      rw [List.mapM_cons, ← run_observed]
      cases ended : run steps source state.clearOutput with
      | none => simp [session, ended]
      | some first =>
          obtain ⟨settings, sink, wording⟩ := run_leaves ended
          have rest := induction first.state
          unfold alone at rest ⊢
          rw [settings, sink, wording] at rest
          rw [← rest]
          simp only [session, ended, Option.bind_eq_bind, Option.bind_some, Option.map_some]
          cases session later first.state <;> rfl

/-- Whatever state an interpreter is in: each run of a session ends and prints as it does alone
on a fresh interpreter, and a source that does not compile leaves the interpreter as it was. -/
theorem runs_independent (state : Machine.State) :
    (∀ sources : List (Nat × String), (session sources state).map (List.map Run.observed) =
      sources.mapM fun entry => (alone state entry.1 entry.2).map Run.observed) ∧
    ∀ source diagnostics, compile source = .error diagnostics →
      ∀ steps, run steps source state = some ⟨.error diagnostics, state⟩ :=
  ⟨fun sources => session_observed sources state,
    fun _ _ rejected steps => run_of_rejected rejected steps state⟩

/-- An interpreter that a run has been broken off on: two calls deep, in a frame of its own, with
a table and a name that no program has, and with output. -/
def abandoned : Machine.State :=
  let fresh : Machine.State := .fresh ⟨9, fun _ => 0⟩ ⟨⟨#[33]⟩, some 40, true⟩
  let entered := (fresh.declare "x" .nil).enter fresh.globals .empty
  { entered with locals := ⟨[(0, 7)]⟩, depth := 2, readings := 3 }

def troubled : List (Nat × String) :=
  [(0, "print(\"1"),
    (60, "var x = 1; function f(n) \x7b \x7b print(n); f(n + nil); \x7d \x7d f(x);"),
    (30, "print(2); print(x);")]

theorem runs_independent_troubled :
    ∃ runs diagnostics, session troubled abandoned = some runs ∧
      runs.map (fun run => (Command.diagnostics run.result, run.state.sink.stored.data)) =
        [([.source .lex 1 "Unterminated string."], #[]),
          ([.source .runtime 1 "Operands must be two numbers or include a string."], #[49, 10]),
          ([.source .runtime 1 "Undefined variable 'x'."], #[50, 10])] ∧
      troubled.mapM (fun entry => (alone abandoned entry.1 entry.2).map Run.observed) =
        some (runs.map Run.observed) ∧
      compile "print(\"1" = .error diagnostics ∧
      run 0 "print(\"1" abandoned = some ⟨.error diagnostics, abandoned⟩ := by
  have checked : (session troubled abandoned).map (List.map fun run =>
      (Command.diagnostics run.result, run.state.sink.stored.data)) = some
        [([.source .lex 1 "Unterminated string."], #[]),
          ([.source .runtime 1 "Operands must be two numbers or include a string."], #[49, 10]),
          ([.source .runtime 1 "Undefined variable 'x'."], #[50, 10])] := by decide +kernel
  have rejected : (compile "print(\"1").toOption.isNone = true := by decide +kernel
  obtain ⟨runs, ended, seen⟩ := Option.map_eq_some_iff.1 checked
  obtain ⟨each, unchanged⟩ := runs_independent abandoned
  cases compiles : compile "print(\"1" with
  | ok program =>
      rw [compiles] at rejected
      cases rejected
  | error diagnostics =>
      refine ⟨runs, diagnostics, ended, seen, ?_, rfl, unchanged _ _ compiles 0⟩
      rw [← each troubled, ended]
      rfl

end Quill.Program
