import Quill.Proofs.Machine.Blame
import Quill.Proofs.Machine.Stopping

/-!
Which errors a run can end with. All of them come from one stage. Where this is not the running of
the program, nothing has happened to the interpreter, whatever its output can do; and every error
but a failure of the host is on a line of the source.
-/

namespace Quill.Program

set_option autoImplicit false

/-- `Fails source stage errors`: the run of a source ends with these errors because of the stage.
A failure of the host belongs to no stage. -/
inductive Fails (source : String) : Option Stage → List Diagnostic → Prop where
  | rejected {stage : Stage} {errors : List Diagnostic} (rejects : Rejects source stage errors) :
      Fails source (some stage) errors
  | runtime {program : Program} {line : Nat} {message : String}
      (compiles : compile source = .ok program) :
      Fails source (some .runtime) [.source .runtime line message]
  | host {program : Program} {message : String} (compiles : compile source = .ok program) :
      Fails source none [.host message]

/-- What holds of errors that come from a stage. Only the parser and the resolver report more than
one. -/
structure Staged (source : String) (stage : Option Stage) (errors : List Diagnostic) : Prop where
  fails : Fails source stage errors
  nonempty : errors ≠ []
  kind : ∀ error ∈ errors, error.stage? = stage
  single : stage ≠ some .parse → stage ≠ some .resolve → errors.length = 1
  untouched : stage ≠ some .runtime → stage ≠ none →
    ∀ steps state, run steps source state = some ⟨.error errors, state⟩
  lines : stage ≠ none → ∀ error ∈ errors, ∃ line, error.line? = some line ∧ OnLine source line

variable {source : String} {errors : List Diagnostic}

theorem diagnose_on_line {Cause : Type} {stage : Stage} {wording : Cause → String}
    {faults : List (Located Cause)} (onLines : ∀ fault ∈ faults, OnLine source fault.line) :
    ∀ error ∈ faults.map (·.diagnose stage wording),
      ∃ line, error.line? = some line ∧ OnLine source line := by
  intro error member
  obtain ⟨fault, isFault, rfl⟩ := List.mem_map.1 member
  exact ⟨fault.line, rfl, onLines fault isFault⟩

theorem rejects_staged {stage : Stage} (rejected : compile source = .error errors)
    (rejects : Rejects source stage errors) : Staged source (some stage) errors := by
  refine ⟨.rejected rejects, rejects.nonempty, rejects.kind, ?_,
    fun _ _ => run_of_rejected rejected, fun _ => ?_⟩
  · intro notParse notResolve
    cases rejects with
    | lex scans => rfl
    | parse parses faulty => exact absurd rfl notParse
    | resolve parses clean refused faulty => exact absurd rfl notResolve
  · cases rejects with
    | @lex fault scans =>
        have onLines : ∀ other ∈ [fault], OnLine source other.line :=
          List.forall_mem_singleton.2 (scan_fault_on_line scans)
        exact diagnose_on_line onLines
    | parse parses faulty => exact diagnose_on_line (parse_faults_on_lines parses)
    | resolve parses clean refused faulty =>
        exact diagnose_on_line (resolve_faults_on_lines parses refused)

theorem halted_staged {program : Program} (compiles : compile source = .ok program)
    {state : Machine.State} {steps : Nat}
    (failed : result ((program.load state).run steps) = .error errors) :
    ∃ stage, Staged source stage errors := by
  unfold result at failed
  split at failed
  · split at failed
    next fault failing =>
      cases failed
      refine ⟨some .runtime, .runtime compiles, List.cons_ne_nil _ _,
        List.forall_mem_singleton.2 rfl, fun _ _ => rfl, fun other => absurd rfl other, fun _ => ?_⟩
      have onLines : ∀ other ∈ [fault], OnLine source other.line :=
        List.forall_mem_singleton.2 (Machine.fault_on_line compiles failing)
      exact diagnose_on_line onLines
    next => cases failed
  · cases failed
    exact ⟨none, .host compiles, List.cons_ne_nil _ _, List.forall_mem_singleton.2 rfl,
      fun _ _ => rfl, fun _ other => absurd rfl other, fun other => absurd rfl other⟩

theorem run_staged {steps : Nat} {state : Machine.State} {ended : Run}
    (ends : run steps source state = some ended) (failed : ended.result = .error errors) :
    ∃ stage, Staged source stage errors := by
  cases compiles : compile source with
  | error found =>
      rw [run_of_rejected compiles] at ends
      cases ends
      cases failed
      obtain ⟨stage, rejects⟩ := compile_rejects compiles
      exact ⟨some stage, rejects_staged compiles rejects⟩
  | ok program =>
      rw [run_of_compile compiles] at ends
      obtain ⟨-, rfl⟩ := finish_eq_some ends
      exact halted_staged compiles failed

/-- A run that fails reports errors of exactly one stage, and at least one of them. A failure of the
host stands for itself here and is not mixed with the errors of a stage. -/
theorem errors_staged {steps : Nat} {state : Machine.State} {ended : Run}
    (ends : run steps source state = some ended) (failed : ended.result = .error errors) :
    ∃! stage, Staged source stage errors := by
  obtain ⟨stage, staged⟩ := run_staged ends failed
  refine ⟨stage, staged, fun other otherStaged => ?_⟩
  obtain ⟨error, member⟩ := List.exists_mem_of_ne_nil _ staged.nonempty
  rw [← staged.kind error member, otherStaged.kind error member]

def violating : String := "return 1;\nprint(this);\nprint(-nil);"

def unflushable : Machine.State := .fresh ⟨9, fun _ => 0⟩ ⟨.empty, none, false⟩

theorem errors_staged_violating :
    ∃ errors, run 0 violating unflushable = some ⟨.error errors, unflushable⟩ ∧
      errors.map Diagnostic.line? = [some 1, some 2] ∧
      Staged violating (some .resolve) errors ∧ ∃! stage, Staged violating stage errors := by
  have checked : (run 0 violating unflushable).map (fun run =>
      (Command.diagnostics run.result).map fun error => (error.stage?, error.line?)) =
        some [(some .resolve, some 1), (some .resolve, some 2)] := by decide +kernel
  obtain ⟨ended, ends, seen⟩ := Option.map_eq_some_iff.1 checked
  cases failed : ended.result with
  | ok =>
      rw [failed] at seen
      cases seen
  | error errors =>
      rw [failed] at seen
      simp only [Command.diagnostics] at seen
      have lines : errors.map Diagnostic.line? = [some 1, some 2] := by
        have second := congrArg (List.map Prod.snd) seen
        rwa [List.map_map] at second
      have kinds : errors.map Diagnostic.stage? = [some .resolve, some .resolve] := by
        have first := congrArg (List.map Prod.fst) seen
        rwa [List.map_map] at first
      obtain ⟨stage, staged, -⟩ := errors_staged ends failed
      have resolving : stage = some .resolve := by
        obtain ⟨error, member⟩ := List.exists_mem_of_ne_nil _ staged.nonempty
        have listed : error.stage? ∈ errors.map Diagnostic.stage? := List.mem_map_of_mem member
        rw [kinds, staged.kind error member] at listed
        simpa using listed
      subst resolving
      exact ⟨errors, staged.untouched (by decide) (by decide) 0 _, lines, staged,
        errors_staged ends failed⟩

end Quill.Program
