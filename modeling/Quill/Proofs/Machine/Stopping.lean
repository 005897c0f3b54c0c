import Quill.Command
import Quill.Proofs.Machine.Known

/-!
How runs end. A source is rejected by the first stage that finds errors in it, and the errors are
those of this stage. Otherwise a machine runs. One that fails goes on failing, and one that has
halted stays as it is, so a run is determined by its source and its interpreter: more steps than
it needs change nothing.
-/

namespace Quill

set_option autoImplicit false

namespace Machine

variable {machine : Machine}

theorem run_of_halted {steps : Nat} (stopped : (machine.run steps).halted = true) {further : Nat}
    (le : steps ≤ further) : machine.run further = machine.run steps := by
  induction le with
  | refl => rfl
  | step _ induction => rw [run_succ, induction, next_of_halted _ stopped]

theorem run_add (machine : Machine) (steps further : Nat) :
    machine.run (steps + further) = (machine.run steps).run further := by
  induction further with
  | zero => rfl
  | succ further induction => rw [← Nat.add_assoc, run_succ, induction, run_succ]

/-- A machine that fails takes a task off its stack, and leaves its output alone. -/
theorem next_failing {fault : Located Fault} (failing : machine.control = .failing fault) :
    machine.next.control = .failing fault ∧ machine.next.stack = machine.stack.tail ∧
      machine.next.state.sink = machine.state.sink := by
  rcases machine with ⟨state, control, stack⟩
  cases failing
  cases stack with
  | nil => exact ⟨rfl, rfl, rfl⟩
  | cons task stack => cases task <;> exact ⟨rfl, rfl, rfl⟩

theorem run_failing {fault : Located Fault} (failing : machine.control = .failing fault)
    (steps : Nat) : (machine.run steps).control = .failing fault := by
  induction steps with
  | zero => exact failing
  | succ steps induction =>
      rw [run_succ]
      exact (next_failing induction).1

end Machine

namespace Program

/-- `Rejects source stage errors`: these are the errors that the stage finds in the source, and
the stages before it have found none. -/
inductive Rejects (source : String) : Stage → List Diagnostic → Prop where
  | lex {fault : Located Lexer.Fault} (scans : Lexer.tokens source = .error fault) :
      Rejects source .lex [fault.diagnose .lex Lexer.Fault.message]
  | parse {parsed : Grammar.Parse} (parses : Program.parse source = .ok parsed)
      (faulty : parsed.faults ≠ []) : Rejects source .parse (parseDiagnostics parsed)
  | resolve {parsed : Grammar.Parse} {faults : List (Located Scope.Fault)}
      (parses : Program.parse source = .ok parsed) (clean : parsed.faults = [])
      (refused : Scope.resolve parsed.statements = .error faults) (faulty : faults ≠ []) :
      Rejects source .resolve (faults.map (·.diagnose .resolve Scope.Fault.message))

/-- A source that does not compile is rejected by a stage: by the first that finds an error in it.
-/
theorem compile_rejects {source : String} {errors : List Diagnostic}
    (rejected : compile source = .error errors) : ∃ stage, Rejects source stage errors := by
  unfold compile at rejected
  cases parses : parse source with
  | error diagnostic =>
      rw [parses] at rejected
      cases rejected
      unfold parse at parses
      split at parses
      next fault scans =>
        cases parses
        exact ⟨.lex, .lex scans⟩
      next => cases parses
  | ok parsed =>
      rw [parses] at rejected
      by_cases clean : parsed.faults = []
      · simp only [clean, List.isEmpty_nil, if_true, resolve] at rejected
        cases refused : Scope.resolve parsed.statements with
        | ok locals =>
            rw [refused] at rejected
            cases rejected
        | error faults =>
            rw [refused] at rejected
            cases rejected
            refine ⟨.resolve, .resolve parses clean refused ?_⟩
            unfold Scope.resolve at refused
            simp only at refused
            split at refused
            · cases refused
            next faulty =>
              cases refused
              simpa using faulty
      · simp only [List.isEmpty_iff, clean, if_false] at rejected
        cases rejected
        exact ⟨.parse, .parse parses clean⟩

namespace Rejects

variable {source : String} {stage : Stage} {errors : List Diagnostic}
  (rejects : Rejects source stage errors)

include rejects

theorem nonempty : errors ≠ [] := by
  cases rejects with
  | lex scans => exact List.cons_ne_nil _ _
  | parse parses faulty => exact mt List.map_eq_nil_iff.1 faulty
  | resolve parses clean refused faulty => exact mt List.map_eq_nil_iff.1 faulty

theorem kind : ∀ error ∈ errors, error.stage? = some stage := by
  intro error member
  cases rejects with
  | lex scans =>
      rw [List.mem_singleton.1 member]
      rfl
  | parse parses faulty | resolve parses clean refused faulty =>
      obtain ⟨fault, -, rfl⟩ := List.mem_map.1 member
      rfl

theorem before_run : stage ≠ .runtime := by
  cases rejects <;> decide

end Rejects

theorem run_of_rejected {source : String} {diagnostics : List Diagnostic}
    (rejected : compile source = .error diagnostics) (steps : Nat) (state : Machine.State) :
    run steps source state = some ⟨.error diagnostics, state⟩ := by
  unfold run
  rw [rejected]

theorem run_of_compile {source : String} {program : Program}
    (compiles : compile source = .ok program) (steps : Nat) (state : Machine.State) :
    run steps source state = finish? steps (program.load state) := by
  unfold run
  rw [compiles]
  rfl

theorem finish_of_halted {steps : Nat} {machine : Machine}
    (stopped : (machine.run steps).halted = true) :
    finish? steps machine = some ⟨result (machine.run steps), (machine.run steps).state⟩ := by
  unfold finish?
  simp only [stopped, if_true]

theorem finish_eq_some {steps : Nat} {machine : Machine} {run : Run}
    (ended : finish? steps machine = some run) :
    (machine.run steps).halted = true ∧
      run = ⟨result (machine.run steps), (machine.run steps).state⟩ := by
  unfold finish? at ended
  simp only at ended
  split at ended
  · rename_i stopped
    exact ⟨stopped, (Option.some.inj ended).symm⟩
  · cases ended

/-- A run is determined by its source and its interpreter, not by the steps it is given. -/
theorem run_unique {source : String} {state : Machine.State} {steps further : Nat}
    {one other : Run} (ended : run steps source state = some one)
    (endedAgain : run further source state = some other) : one = other := by
  cases compiles : compile source with
  | error diagnostics =>
      rw [run_of_rejected compiles] at ended endedAgain
      cases ended
      cases endedAgain
      rfl
  | ok program =>
      rw [run_of_compile compiles] at ended endedAgain
      obtain ⟨stopped, rfl⟩ := finish_eq_some ended
      obtain ⟨stoppedAgain, rfl⟩ := finish_eq_some endedAgain
      rw [← Machine.run_of_halted stopped (Nat.le_max_left steps further),
        ← Machine.run_of_halted stoppedAgain (Nat.le_max_right steps further)]

theorem result_of_diagnostics {run : Run} {diagnostic : Diagnostic}
    (reported : Command.diagnostics run.result = [diagnostic]) :
    run.result = .error [diagnostic] := by
  cases result : run.result with
  | ok => rw [result] at reported; cases reported
  | error diagnostics =>
      rw [result] at reported
      exact congrArg _ reported

end Program

end Quill
