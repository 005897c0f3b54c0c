import Quill.Proofs.Machine.Agreement
import Quill.Proofs.Machine.Balance
import Quill.Proofs.Machine.Outfit
import Quill.Proofs.Machine.Stopping

/-!
The limit on nested calls does nothing but end a run. Under a higher limit a machine takes the
same steps, up to the step that refuses a call at the lower limit. From there on the lower
machine only clears its stack, while the output of the other one can but grow.
-/

namespace Quill

set_option autoImplicit false

namespace Machine

def State.limited (limit : Nat) (state : State) : State :=
  { state with settings := { state.settings with maxCallDepth := limit } }

def limited (limit : Nat) (machine : Machine) : Machine :=
  { machine with state := machine.state.limited limit }

def Overflown (machine : Machine) : Prop :=
  ∃ line, machine.control = .failing ⟨line, .stackOverflow⟩

/-- `Lifts limit state lower upper`: out of the state `state` the machine `upper` has done under
the limit what `lower` has done without it, or `lower` has refused a call and done nothing. -/
def Lifts (limit : Nat) (state : State) (lower upper : Machine) : Prop :=
  upper = lower.limited limit ∨ Overflown lower ∧ lower.state = state

section Steps

variable (limit : Nat) (state : State) (stack : List Task)

variable {limit state} in
theorem refusal_limited (higher : state.settings.maxCallDepth ≤ limit) (arity given : Nat) :
    (state.limited limit).refusal? arity given = state.refusal? arity given ∨
      state.refusal? arity given = some .stackOverflow := by
  by_cases right : given = arity
  · by_cases full : state.settings.maxCallDepth ≤ state.depth
    · exact .inr (by simp [State.refusal?, right, full])
    · have room : ¬ limit ≤ state.depth := by omega
      exact .inl (by simp [State.refusal?, State.limited, right, full, room])
  · exact .inl (by simp [State.refusal?, right])

theorem lifts_refused {limit : Nat} {state : State} {stack : List Task} (line : Nat)
    (upper : Machine) :
    Lifts limit state (fail state line .stackOverflow stack) upper :=
  .inr ⟨⟨line, rfl⟩, rfl⟩

variable {limit} (higher : state.settings.maxCallDepth ≤ limit)

include higher

theorem call_function_lifts (closure : Closure) (given : List Value) (line : Nat) :
    Lifts limit state (callFunction state closure given line stack)
      (callFunction (state.limited limit) closure given line stack) := by
  unfold callFunction
  rcases refusal_limited higher closure.arity given.length with same | refused
  · rw [same]
    left
    split <;> rfl
  · rw [refused]
    exact lifts_refused line _

theorem call_native_lifts (native : Native) (given : List Value) (line : Nat) :
    Lifts limit state (callNative state native given line stack)
      (callNative (state.limited limit) native given line stack) := by
  unfold callNative
  rcases refusal_limited higher native.arity given.length with same | refused
  · rw [same]
    left
    split
    · rfl
    · split
      · have heap : (state.limited limit).heap = state.heap := rfl
        have sink : (state.limited limit).sink = state.sink := rfl
        simp only [callPrint, heap, sink]
        split <;> rfl
      · rfl
  · rw [refused]
    exact lifts_refused line _

theorem call_class_lifts (ref : ClassRef) (given : List Value) (line : Nat) :
    Lifts limit state (callClass state ref given line stack)
      (callClass (state.limited limit) ref given line stack) := by
  have heap : (state.limited limit).heap = state.heap := rfl
  simp only [callClass, heap]
  rcases refusal_limited higher (state.heap.classArity ref) given.length with same | refused
  · rw [same]
    left
    split
    · rfl
    · split <;> rfl
  · rw [refused]
    exact lifts_refused line _

theorem call_value_lifts (callee : Value) (given : List Value) (line : Nat) :
    Lifts limit state (callValue state callee given line stack)
      (callValue (state.limited limit) callee given line stack) := by
  have heap : (state.limited limit).heap = state.heap := rfl
  cases callee with
  | functionRef ref =>
      simp only [callValue, heap]
      split
      · exact call_function_lifts state stack higher _ given line
      · exact .inl rfl
  | nativeRef ref =>
      simp only [callValue, heap]
      split
      · exact call_native_lifts state stack higher _ given line
      · exact .inl rfl
  | classRef ref => exact call_class_lifts state stack higher ref given line
  | _ => exact .inl rfl

end Steps

theorem next_lifts {limit : Nat} {machine : Machine}
    (higher : machine.state.settings.maxCallDepth ≤ limit) :
    Lifts limit machine.state machine.next (machine.limited limit).next := by
  let raised : Settings := { machine.state.settings with maxCallDepth := limit }
  have above : machine.limited limit = machine.outfitted raised machine.state.sink := rfl
  by_cases calling : Calling machine
  · obtain ⟨callee, given, line, stack, calls⟩ := calling
    rw [calls_next calls, above, calls_next (calls_outfitted calls raised machine.state.sink)]
    exact call_value_lifts machine.state stack higher callee given line
  · left
    obtain ⟨settings, sink⟩ := next_outfit calling
    rw [above, next_outfitted calling, limited, State.limited, settings]
    unfold outfitted State.outfitted
    rw [sink]

/-- Whatever the limit, a run under a higher one is the same run, or it has printed what the
lower one had printed when it ran into its limit, and perhaps more. -/
theorem run_lifts {limit : Nat} (machine : Machine)
    (higher : machine.state.settings.maxCallDepth ≤ limit) (steps : Nat) :
    (machine.limited limit).run steps = (machine.run steps).limited limit ∨
      Overflown (machine.run steps) ∧
        ∃ printed, ((machine.limited limit).run steps).state.sink.stored =
          (machine.run steps).state.sink.stored ++ printed := by
  induction steps with
  | zero => exact .inl rfl
  | succ steps induction =>
      obtain ⟨more, upperSink⟩ := (next_persists ((machine.limited limit).run steps)).output
      rw [run_succ, run_succ]
      rcases induction with same | ⟨overflown, printed, grown⟩
      · have settings := (run_persists machine steps).settings
        rw [same] at upperSink ⊢
        have room : (machine.run steps).state.settings.maxCallDepth ≤ limit := by
          rw [settings]
          exact higher
        rcases next_lifts room with lifted | ⟨overflown, still⟩
        · exact .inl lifted
        · refine .inr ⟨overflown, more, ?_⟩
          rw [upperSink, still]
          rfl
      · -- The lower machine only clears its stack.
        obtain ⟨line, failing⟩ := overflown
        rcases lower : machine.run steps with ⟨state, control, stack⟩
        rw [lower] at failing grown
        simp only at failing
        subst failing
        refine .inr ⟨?_, printed ++ more, ?_⟩
        · cases stack <;> exact ⟨line, rfl⟩
        · have kept : (Machine.mk state (.failing ⟨line, .stackOverflow⟩) stack).next.state.sink =
              state.sink := by
            cases stack with
            | nil => rfl
            | cons task stack => cases task <;> rfl
          rw [upperSink, kept, ← ByteArray.append_assoc, ← grown]

theorem overflow_message {fault : Fault} (worded : fault.message = Fault.stackOverflow.message) :
    fault = .stackOverflow := by
  have same : fault.opening = Fault.stackOverflow.opening := by
    rw [← String.toList_inj, ← message_opening, worded, message_opening]
  cases fault with
  | stackOverflow => rfl
  | access fault => cases fault <;> simp [Fault.opening] at same
  | _ => simp [Fault.opening] at same

end Machine

namespace Program

open Machine (Overflown)

/-- The program of a source ends because a call was refused at the limit. What a run returns is
this, unless the output cannot be flushed: that takes its place. -/
def Overflows (steps : Nat) (source : String) (state : Machine.State) : Prop :=
  ∃ program, compile source = .ok program ∧ ((program.load state).run steps).halted = true ∧
    Overflown ((program.load state).run steps)

theorem finish_limited {limit steps : Nat} {machine upper : Machine} {run : Run}
    (ended : finish? steps machine = some run)
    (same : upper.run steps = (machine.run steps).limited limit) :
    finish? steps upper = some ⟨run.result, run.state.limited limit⟩ := by
  obtain ⟨stopped, rfl⟩ := finish_eq_some ended
  have alike : (upper.run steps).halted = true := by
    rw [same]
    exact stopped
  unfold finish?
  simp only [alike, if_true]
  rw [same]
  rfl

theorem finish_extends {limit steps further : Nat} {machine : Machine} {run other : Run}
    (higher : machine.state.settings.maxCallDepth ≤ limit)
    (ended : finish? steps machine = some run)
    (endedAbove : finish? further (machine.limited limit) = some other) :
    ∃ printed, other.state.sink.stored = run.state.sink.stored ++ printed := by
  obtain ⟨stopped, rfl⟩ := finish_eq_some ended
  obtain ⟨stoppedAbove, rfl⟩ := finish_eq_some endedAbove
  have lower := Machine.run_of_halted stopped (Nat.le_max_left steps further)
  have upper := Machine.run_of_halted stoppedAbove (Nat.le_max_right steps further)
  have lifted := Machine.run_lifts machine higher (max steps further)
  rw [lower, upper] at lifted
  rcases lifted with same | ⟨-, printed, grown⟩
  · refine ⟨.empty, ?_⟩
    rw [same, ByteArray.append_empty]
    rfl
  · exact ⟨printed, grown⟩

/-- The result of a machine whose output can be flushed tells a refused call from all else, since no
other fault is worded like it. -/
theorem overflown_iff_result {machine : Machine} (flushes : machine.state.sink.canFlush = true) :
    Overflown machine ↔
      ∃ line, result machine = .error [.source .runtime line "Stack overflow."] := by
  unfold result
  rw [if_pos flushes]
  constructor
  · rintro ⟨line, failing⟩
    rw [failing]
    exact ⟨line, rfl⟩
  · rintro ⟨line, ends⟩
    split at ends
    · rename_i fault failing
      rcases fault with ⟨origin, cause⟩
      simp only [Located.diagnose, Except.error.injEq, List.cons.injEq, Diagnostic.source.injEq,
        and_true, true_and] at ends
      rw [Machine.overflow_message ends.2] at failing
      exact ⟨origin, failing⟩
    · cases ends

theorem overflows_iff {source : String} {program : Program}
    (compiles : compile source = .ok program) {steps : Nat} {state : Machine.State}
    (stopped : ((program.load state).run steps).halted = true) :
    Overflows steps source state ↔ Overflown ((program.load state).run steps) := by
  constructor
  · rintro ⟨other, same, -, overflown⟩
    rw [compiles] at same
    cases same
    exact overflown
  · exact fun overflown => ⟨program, compiles, stopped, overflown⟩

theorem compile_error_stage {source : String} {diagnostics : List Diagnostic}
    (fails : compile source = .error diagnostics) (line : Nat) (message : String) :
    diagnostics ≠ [.source .runtime line message] := by
  rintro rfl
  obtain ⟨stage, rejects⟩ := compile_rejects fails
  have same := rejects.kind _ List.mem_cons_self
  exact rejects.before_run (Option.some.inj same).symm

/-- Raising the limit on nested calls changes no run whose program did not run into it, and of
one that did it keeps what was printed. Where output can be flushed, the result of a run says
which of the two it was. -/
theorem raising_limit (source : String) (state : Machine.State) {lower higher : Nat}
    (le : lower ≤ higher) {steps : Nat} {run : Run}
    (ended : Program.run steps source (state.limited lower) = some run) :
    (¬ Overflows steps source (state.limited lower) →
      Program.run steps source (state.limited higher) =
        some ⟨run.result, run.state.limited higher⟩) ∧
    (∀ further other, Program.run further source (state.limited higher) = some other →
      ∃ printed, other.state.sink.stored = run.state.sink.stored ++ printed) ∧
    (state.sink.canFlush = true → (Overflows steps source (state.limited lower) ↔
      ∃ line, run.result = .error [.source .runtime line "Stack overflow."])) := by
  cases compiles : compile source with
  | error diagnostics =>
      have refused (steps : Nat) (state : Machine.State) :
          Program.run steps source state = some ⟨.error diagnostics, state⟩ := by
        unfold Program.run
        rw [compiles]
      rw [refused] at ended
      cases ended
      refine ⟨fun _ => refused _ _, fun further other endedAbove => ?_, fun _ => ?_⟩
      · rw [refused] at endedAbove
        cases endedAbove
        exact ⟨.empty, ByteArray.append_empty.symm⟩
      · constructor
        · rintro ⟨program, compiled, -⟩
          rw [compiles] at compiled
          cases compiled
        · rintro ⟨line, same⟩
          exact absurd (Except.error.inj same) (compile_error_stage compiles line _)
  | ok program =>
      let machine := program.load (state.limited lower)
      have above : program.load (state.limited higher) = machine.limited higher := rfl
      have room : machine.state.settings.maxCallDepth ≤ higher := le
      rw [run_of_compile compiles] at ended
      obtain ⟨stopped, isRun⟩ := finish_eq_some ended
      refine ⟨fun clear => ?_, fun further other endedAbove => ?_, fun flushes => ?_⟩
      · rw [overflows_iff compiles stopped] at clear
        rw [run_of_compile compiles, above]
        rcases Machine.run_lifts machine room steps with same | ⟨overflown, -⟩
        · exact finish_limited ended same
        · exact absurd overflown clear
      · rw [run_of_compile compiles, above] at endedAbove
        exact finish_extends room ended endedAbove
      · obtain ⟨printed, sink⟩ := (Machine.run_persists machine steps).output
        have flushable : (machine.run steps).state.sink.canFlush = true := by
          rw [sink]
          exact flushes
        rw [overflows_iff compiles stopped, overflown_iff_result flushable, isRun]

def nested : String := "function f() { print(1); } f();"

def untouched (canFlush : Bool) : Machine.State := .fresh ⟨0, fun _ => 0⟩ ⟨.empty, none, canFlush⟩

theorem raising_limit_nested :
    ∃ low high, 1 ≤ 2 ∧ run 20 nested ((untouched true).limited 1) = some low ∧
      Command.diagnostics low.result = [.source .runtime 1 "Stack overflow."] ∧
      low.state.sink.stored.data = #[] ∧
      Overflows 20 nested ((untouched true).limited 1) ∧
      run 20 nested ((untouched true).limited 2) = some high ∧
      high.state.sink.stored.data = #[49, 10] ∧
      (∃ printed, high.state.sink.stored = low.state.sink.stored ++ printed) ∧
      ¬ Overflows 20 nested ((untouched true).limited 2) ∧
      run 20 nested ((untouched true).limited 3) =
        some ⟨high.result, high.state.limited 3⟩ := by
  have checkedLow : (run 20 nested ((untouched true).limited 1)).map
      (fun run => (Command.diagnostics run.result, run.state.sink.stored.data)) =
        some ([.source .runtime 1 "Stack overflow."], #[]) := by decide +kernel
  have checkedHigh : (run 20 nested ((untouched true).limited 2)).map
      (fun run => (Command.diagnostics run.result, run.state.sink.stored.data)) =
        some ([], #[49, 10]) := by decide +kernel
  obtain ⟨low, endedLow, factsLow⟩ := Option.map_eq_some_iff.1 checkedLow
  obtain ⟨high, endedHigh, factsHigh⟩ := Option.map_eq_some_iff.1 checkedHigh
  simp only [Prod.mk.injEq] at factsLow factsHigh
  obtain ⟨-, grown, tells⟩ := raising_limit nested (untouched true) (by decide : 1 ≤ 2) endedLow
  obtain ⟨kept, -, tellsHigh⟩ := raising_limit nested (untouched true) (by decide : 2 ≤ 3) endedHigh
  have clear : ¬ Overflows 20 nested ((untouched true).limited 2) := by
    rw [tellsHigh rfl]
    rintro ⟨line, fails⟩
    have none := factsHigh.1
    rw [fails] at none
    cases none
  exact ⟨low, high, by decide, endedLow, factsLow.1, factsLow.2,
    (tells rfl).2 ⟨1, result_of_diagnostics factsLow.1⟩, endedHigh, factsHigh.2,
    grown 20 high endedHigh, clear, kept clear⟩

/-- The result alone does not tell: output that cannot be flushed hides the refused call. -/
theorem raising_limit_unflushed :
    ¬ ∀ (source : String) (state : Machine.State) (lower higher : Nat), lower ≤ higher →
      ∀ steps run, Program.run steps source (state.limited lower) = some run →
        (¬ ∃ line, run.result = .error [.source .runtime line "Stack overflow."]) →
          ∃ further other, Program.run further source (state.limited higher) = some other ∧
            other.result = run.result ∧ other.state.sink.stored = run.state.sink.stored := by
  intro claimed
  have checkedLow : (run 20 nested ((untouched false).limited 1)).map
      (fun run => (Command.diagnostics run.result, run.state.sink.stored.data)) =
        some ([.host "flush failed"], #[]) := by decide +kernel
  have checkedHigh : (run 20 nested ((untouched false).limited 2)).map
      (fun run => (Command.diagnostics run.result, run.state.sink.stored.data)) =
        some ([.host "flush failed"], #[49, 10]) := by decide +kernel
  obtain ⟨low, endedLow, factsLow⟩ := Option.map_eq_some_iff.1 checkedLow
  obtain ⟨high, endedHigh, factsHigh⟩ := Option.map_eq_some_iff.1 checkedHigh
  simp only [Prod.mk.injEq] at factsLow factsHigh
  have hidden : ¬ ∃ line, low.result = .error [.source .runtime line "Stack overflow."] := by
    rintro ⟨line, fails⟩
    rw [result_of_diagnostics factsLow.1] at fails
    cases fails
  obtain ⟨further, other, ended, -, same⟩ :=
    claimed nested (untouched false) 1 2 (by decide) 20 low endedLow hidden
  rw [run_unique ended endedHigh] at same
  have data := congrArg ByteArray.data same
  rw [factsHigh.2, factsLow.2] at data
  cases data

end Program

end Quill
