import Quill.Proofs.Machine.Agreement
import Quill.Proofs.Machine.Balance
import Quill.Proofs.Machine.Outfit
import Quill.Proofs.Machine.Returns
import Quill.Proofs.Machine.Stopping
import Quill.Proofs.Tree.Parentheses

/-!
A sink that fills up only cuts a run short. With room for all that is printed a machine takes the
same steps as with an output without a limit. At the first `print` that has too little room it
keeps what fits and fails at the closing parenthesis of that call, and from there on it only
clears its stack, while the other machine goes on and prints more.
-/

namespace Quill

set_option autoImplicit false

namespace Sink

def capped (capacity : Nat) (sink : Sink) : Sink := { sink with capacity := some capacity }

variable {sink : Sink} {capacity : Nat} {bytes : ByteArray}

theorem extract_all (room : bytes.size ≤ capacity) : bytes.extract 0 capacity = bytes := by
  ext1
  rw [ByteArray.data_extract]
  exact Array.extract_eq_self_of_le room

theorem write_stored (unlimited : sink.capacity = none) :
    (sink.write bytes).stored = sink.stored ++ bytes := by
  simp only [write, fitting, unlimited]

theorem write_capped_stored (unlimited : sink.capacity = none) (room : sink.stored.size ≤ capacity) :
    ((sink.capped capacity).write bytes).stored =
      (sink.write bytes).stored.extract 0 capacity := by
  have front : sink.stored.extract 0 capacity = sink.stored := extract_all room
  rw [write_stored unlimited, ByteArray.extract_append, front, Nat.zero_sub]
  rfl

theorem fits_capped_iff (unlimited : sink.capacity = none) :
    (sink.capped capacity).fits bytes = true ↔ (sink.write bytes).stored.size ≤ capacity := by
  simp only [fits, capped, write_stored unlimited, ByteArray.size_append]
  exact decide_eq_true_iff

theorem write_capped (unlimited : sink.capacity = none)
    (fitting : (sink.write bytes).stored.size ≤ capacity) :
    (sink.capped capacity).write bytes = (sink.write bytes).capped capacity := by
  have room : sink.stored.size ≤ capacity := by
    rw [write_stored unlimited, ByteArray.size_append] at fitting
    omega
  have stored : ((sink.capped capacity).write bytes).stored = (sink.write bytes).stored := by
    rw [write_capped_stored unlimited room, extract_all fitting]
  unfold write at stored ⊢
  simp only [capped] at stored ⊢
  rw [stored]

end Sink

namespace Machine

def State.capped (capacity : Nat) (state : State) : State :=
  { state with sink := state.sink.capped capacity }

def capped (capacity : Nat) (machine : Machine) : Machine :=
  { machine with state := machine.state.capped capacity }

def stored (machine : Machine) : ByteArray := machine.state.sink.stored

/-- `Cut capacity line whole cut`: the machine `cut` has failed to print more than the capacity
where `whole`, without a limit, went on. It has nothing left to do that `whole` has not. -/
structure Cut (capacity line : Nat) (whole cut : Machine) : Prop where
  failing : cut.control = .failing ⟨line, .printFailed whole.state.wording.full⟩
  shorter : cut.stack.length ≤ whole.stack.length
  truncated : cut.stored = whole.stored.extract 0 capacity
  overrun : capacity < whole.stored.size
  flushing : cut.state.sink.canFlush = whole.state.sink.canFlush

/-- `Caps capacity line whole capped`: the two machines have done the same, or `capped` has just
been cut. -/
def Caps (capacity line : Nat) (whole capped : Machine) : Prop :=
  whole.stored.size ≤ capacity ∧ capped = whole.capped capacity ∨ Cut capacity line whole capped

section Calls

variable {state : State} {capacity : Nat} (room : state.sink.stored.size ≤ capacity)
  (stack : List Task)

include room

theorem call_function_caps (closure : Closure) (given : List Value) (line : Nat) :
    Caps capacity line (callFunction state closure given line stack)
      (callFunction (state.capped capacity) closure given line stack) := by
  have refusal : (state.capped capacity).refusal? closure.arity given.length =
      state.refusal? closure.arity given.length := rfl
  simp only [callFunction, refusal]
  split <;> exact .inl ⟨room, rfl⟩

theorem call_class_caps (ref : ClassRef) (given : List Value) (line : Nat) :
    Caps capacity line (callClass state ref given line stack)
      (callClass (state.capped capacity) ref given line stack) := by
  have heap : (state.capped capacity).heap = state.heap := rfl
  have refusal : (state.capped capacity).refusal? (state.heap.classArity ref) given.length =
      state.refusal? (state.heap.classArity ref) given.length := rfl
  simp only [callClass, heap, refusal]
  split
  · exact .inl ⟨room, rfl⟩
  · split <;> exact .inl ⟨room, rfl⟩

variable (unlimited : state.sink.capacity = none)

include unlimited

theorem call_print_caps (given : List Value) (line : Nat) :
    Caps capacity line (callPrint state given line stack)
      (callPrint (state.capped capacity) given line stack) := by
  have heap : (state.capped capacity).heap = state.heap := rfl
  have sink : (state.capped capacity).sink = state.sink.capped capacity := rfl
  have always : ∀ bytes, state.sink.fits bytes = true := by
    intro bytes
    simp only [Sink.fits, unlimited]
  simp only [callPrint, heap, sink, always, if_true]
  split
  next fits =>
    have fitting := (Sink.fits_capped_iff unlimited).1 fits
    refine .inl ⟨fitting, ?_⟩
    simp only [State.write, sink, Sink.write_capped unlimited fitting]
    rfl
  next overfull =>
    rw [Sink.fits_capped_iff unlimited] at overfull
    refine .inr ⟨rfl, Nat.le_refl _, ?_, Nat.lt_of_not_le overfull, rfl⟩
    exact Sink.write_capped_stored unlimited room

theorem call_native_caps (native : Native) (given : List Value) (line : Nat) :
    Caps capacity line (callNative state native given line stack)
      (callNative (state.capped capacity) native given line stack) := by
  have refusal : (state.capped capacity).refusal? native.arity given.length =
      state.refusal? native.arity given.length := rfl
  simp only [callNative, refusal]
  split
  · exact .inl ⟨room, rfl⟩
  · split
    · exact call_print_caps room stack unlimited given line
    · exact .inl ⟨room, rfl⟩

theorem call_value_caps (callee : Value) (given : List Value) (line : Nat) :
    Caps capacity line (callValue state callee given line stack)
      (callValue (state.capped capacity) callee given line stack) := by
  have heap : (state.capped capacity).heap = state.heap := rfl
  cases callee with
  | functionRef ref =>
      simp only [callValue, heap]
      split
      · exact call_function_caps room stack _ given line
      · exact .inl ⟨room, rfl⟩
  | nativeRef ref =>
      simp only [callValue, heap]
      split
      · exact call_native_caps room stack unlimited _ given line
      · exact .inl ⟨room, rfl⟩
  | classRef ref => exact call_class_caps room stack ref given line
  | _ => exact .inl ⟨room, rfl⟩

end Calls

variable {machine whole cut : Machine} {capacity line : Nat}

/-- Only a call tells the two machines apart: no other step looks at how much room is left or adds
to what has been printed. -/
theorem next_caps (unlimited : machine.state.sink.capacity = none)
    (room : machine.stored.size ≤ capacity) :
    machine.next.stored.size ≤ capacity ∧
        (machine.capped capacity).next = machine.next.capped capacity ∨
      ∃ callee given line stack, Calls machine callee given line stack ∧
        Cut capacity line machine.next (machine.capped capacity).next := by
  have outfit : machine.capped capacity =
      machine.outfitted machine.state.settings (machine.state.sink.capped capacity) := rfl
  by_cases calling : Calling machine
  · obtain ⟨callee, given, line, stack, calls⟩ := calling
    rw [outfit, calls_next (calls_outfitted calls _ _), calls_next calls]
    rcases call_value_caps room stack unlimited callee given line with same | cut
    · exact .inl same
    · refine .inr ⟨callee, given, line, stack, calls, ?_⟩
      exact cut
  · obtain ⟨settings, sink⟩ := next_outfit calling
    left
    refine ⟨?_, ?_⟩
    · rw [stored, sink]
      exact room
    · rw [outfit, next_outfitted calling, ← settings, ← sink]
      rfl

theorem next_stack (machine : Machine) : ∃ pushed tasks,
    machine.next.stack = pushed ++ tasks ∧ machine.stack.length ≤ tasks.length + 1 := by
  rcases machine with ⟨state, control, stack⟩
  cases control with
  | evaluate term =>
      obtain ⟨pushed, same⟩ := evaluate_stack state term stack
      exact ⟨pushed, stack, same, Nat.le_succ _⟩
  | execute clause =>
      obtain ⟨pushed, same⟩ := execute_stack state clause stack
      exact ⟨pushed, stack, same, Nat.le_succ _⟩
  | done value =>
      cases stack with
      | nil => exact ⟨[], [], rfl, Nat.zero_le _⟩
      | cons task stack =>
          obtain ⟨pushed, same⟩ := resume_stack state value task stack
          exact ⟨pushed, stack, same, Nat.le_refl _⟩
  | returning value =>
      cases stack with
      | nil => exact ⟨[], [], rfl, Nat.zero_le _⟩
      | cons task stack =>
          exact ⟨[], stack, unwind_stack state value task stack, Nat.le_refl _⟩
  | failing fault =>
      cases stack with
      | nil => exact ⟨[], [], rfl, Nat.zero_le _⟩
      | cons task stack => exact ⟨[], stack, rfl, Nat.le_refl _⟩

theorem cut_next (isCut : Cut capacity line whole cut) : Cut capacity line whole.next cut.next := by
  obtain ⟨failing, popped, sink⟩ := next_failing isCut.failing
  obtain ⟨pushed, tasks, above, shrunk⟩ := next_stack whole
  have persists := next_persists whole
  obtain ⟨printed, grown⟩ := persists.output
  have more : whole.next.stored = whole.stored ++ printed := congrArg Sink.stored grown
  have overrun := isCut.overrun
  constructor
  · rw [persists.wording]
    exact failing
  · have shorter := isCut.shorter
    rw [popped, above, List.length_append, List.length_tail]
    omega
  · have full : capacity - whole.stored.size = 0 := Nat.sub_eq_zero_of_le (Nat.le_of_lt overrun)
    rw [more, ByteArray.extract_append, full, Nat.zero_sub, ByteArray.extract_same,
      ByteArray.append_empty, ← isCut.truncated]
    exact congrArg Sink.stored sink
  · rw [more, ByteArray.size_append]
    omega
  · rw [sink, isCut.flushing, grown]

/-- Up to the first call that prints too much the two machines are in step, and what the unlimited
one has printed fits. At this call the capped one is cut. -/
theorem run_caps (unlimited : machine.state.sink.capacity = none)
    (room : machine.stored.size ≤ capacity) (steps : Nat) :
    (machine.run steps).stored.size ≤ capacity ∧
        (machine.capped capacity).run steps = (machine.run steps).capped capacity ∨
      ∃ time callee given line stack, Calls (machine.run time) callee given line stack ∧
        (machine.run time).stored.size ≤ capacity ∧
          capacity < (machine.run (time + 1)).stored.size ∧
            Cut capacity line (machine.run steps) ((machine.capped capacity).run steps) := by
  induction steps with
  | zero => exact .inl ⟨room, rfl⟩
  | succ steps induction =>
      rw [run_succ, run_succ]
      rcases induction with
        ⟨within, same⟩ | ⟨time, callee, given, line, stack, calls, before, after, cut⟩
      · have still : (machine.run steps).state.sink.capacity = none := by
          obtain ⟨printed, sink⟩ := (run_persists machine steps).output
          rw [sink]
          exact unlimited
        rw [same]
        rcases next_caps still within with capped | ⟨callee, given, line, stack, calls, cut⟩
        · exact .inl capped
        · refine .inr ⟨steps, callee, given, line, stack, calls, within, ?_, cut⟩
          rw [run_succ]
          exact cut.overrun
      · exact .inr ⟨time, callee, given, line, stack, calls, before, after, cut_next cut⟩

theorem calls_attends {callee : Value} {given : List Value} {stack : List Task} {node : Node}
    (calls : Calls machine callee given line stack) (attends : Attends machine node) :
    ∃ id head paren written, node = .expr (.call id head paren written) ∧ line = paren.line := by
  cases calls with
  | bare | last =>
      obtain ⟨task, rest, top, continues⟩ := attends
      cases top
      cases continues
      exact ⟨_, _, _, _, rfl, rfl⟩

theorem calls_running {callee : Value} {given : List Value} {stack : List Task}
    (calls : Calls machine callee given line stack) : machine.halted = false := by
  cases calls <;> rfl

end Machine

namespace Program

open Machine (Attends Calls Cut)

/-- `Overruns capacity program state time paren`: in the run of the program that starts in the
state, the step at this time makes the call that the parenthesis closes, and with it more than
the capacity has been printed for the first time. -/
structure Overruns (capacity : Nat) (program : Program) (state : Machine.State) (time : Nat)
    (paren : Token) : Prop where
  called : ∃ id callee given,
    .expr (.call id callee paren given) ∈ bodyNodes program.statements ∧
      Attends ((program.load state).run time) (.expr (.call id callee paren given))
  closing : paren.kind = .rightParen
  before : ((program.load state).run time).stored.size ≤ capacity
  after : capacity < ((program.load state).run (time + 1)).stored.size

theorem call_overruns {source : String} {program : Program}
    (compiles : compile source = .ok program) {state : Machine.State}
    {capacity time line : Nat} {callee : Value} {given : List Value} {stack : List Machine.Task}
    (calls : Calls ((program.load state).run time) callee given line stack)
    (before : ((program.load state).run time).stored.size ≤ capacity)
    (after : capacity < ((program.load state).run (time + 1)).stored.size) :
    ∃ paren, Overruns capacity program state time paren ∧ line = paren.line := by
  obtain ⟨node, member, attends⟩ :=
    Machine.run_attends compiles state (Machine.calls_running calls)
  obtain ⟨id, head, paren, written, rfl, sameLine⟩ := Machine.calls_attends calls attends
  obtain ⟨parsed, parses, -, same, -⟩ := compile_ok compiles
  have closed := parse_closed parses
  rw [same] at closed
  exact ⟨paren, ⟨⟨id, head, written, member, attends⟩, closed _ member, before, after⟩, sameLine⟩

theorem cut_halted {capacity line : Nat} {whole cut : Machine}
    (isCut : Cut capacity line whole cut) (stopped : whole.halted = true) : cut.halted = true := by
  have empty := ((Machine.finished_nil_iff whole).2 stopped).1
  have shorter := isCut.shorter
  rw [empty] at shorter
  refine (Machine.finished_nil_iff cut).1 ⟨List.eq_nil_of_length_eq_zero (Nat.le_zero.1 shorter), ?_⟩
  rw [isCut.failing]
  rfl

theorem cut_result {capacity line : Nat} {whole cut : Machine}
    (isCut : Cut capacity line whole cut) (flushes : whole.state.sink.canFlush = true) :
    result cut =
      .error [.source .runtime line ("Print error: " ++ whole.state.wording.full)] := by
  unfold result
  rw [isCut.flushing, if_pos flushes, isCut.failing]
  rfl

/-- An output with limited room only cuts a run short. If a source runs to an end where the room is
unlimited, then it does where there is room for so many bytes, and the first of them are stored.
If all of them fit, then the run ends the same; if not, then it ends at the closing parenthesis of
the call that printed too much. -/
theorem capacity_truncates {source : String} {state : Machine.State} {capacity steps : Nat}
    (unlimited : state.sink.capacity = none) (room : state.sink.stored.size ≤ capacity)
    {whole : Run} (ended : run steps source state = some whole) :
    ∃ cut, run steps source (state.capped capacity) = some cut ∧
      cut.state.sink.stored = whole.state.sink.stored.extract 0 capacity ∧
      (whole.state.sink.stored.size ≤ capacity → cut.result = whole.result) ∧
      (capacity < whole.state.sink.stored.size →
        ∃ program time paren, compile source = .ok program ∧
          Overruns capacity program state time paren ∧
          (state.sink.canFlush = true → cut.result =
            .error [.source .runtime paren.line ("Print error: " ++ state.wording.full)])) := by
  cases compiles : compile source with
  | error diagnostics =>
      rw [run_of_rejected compiles] at ended ⊢
      cases ended
      refine ⟨_, rfl, (Sink.extract_all room).symm, fun _ => rfl, fun overrun => ?_⟩
      exact absurd overrun (Nat.not_lt.2 room)
  | ok program =>
      have capped : program.load (state.capped capacity) = (program.load state).capped capacity := rfl
      rw [run_of_compile compiles] at ended
      rw [run_of_compile compiles, capped]
      obtain ⟨stopped, rfl⟩ := finish_eq_some ended
      have persists := Machine.run_persists (program.load state) steps
      obtain ⟨printed, sink⟩ := persists.output
      have wording : ((program.load state).run steps).state.wording = state.wording :=
        persists.wording
      have unbounded : (program.load state).state.sink.capacity = none := unlimited
      rcases Machine.run_caps unbounded room steps with
        ⟨within, same⟩ | ⟨time, callee, given, line, stack, calls, before, after, cut⟩
      · have stoppedToo : (((program.load state).capped capacity).run steps).halted = true := by
          rw [same]
          exact stopped
        refine ⟨_, finish_of_halted stoppedToo, ?_, fun _ => ?_, fun overrun => ?_⟩
        · rw [same]
          exact (Sink.extract_all within).symm
        · rw [same]
          rfl
        · exact absurd overrun (Nat.not_lt.2 within)
      · obtain ⟨paren, overruns, rfl⟩ := call_overruns compiles calls before after
        have stoppedToo := cut_halted cut stopped
        refine ⟨_, finish_of_halted stoppedToo, cut.truncated, fun fits => ?_, fun _ => ?_⟩
        · exact absurd fits (Nat.not_le.2 cut.overrun)
        · refine ⟨program, time, paren, rfl, overruns, fun flushes => ?_⟩
          rw [← wording]
          apply cut_result cut
          rw [sink]
          exact flushes

/-- A call in a function prints more than is left, and its parenthesis stands on the third line. -/
def cramped : String := "print(1);\nfunction f() \x7b print(12\n); \x7d f(); print(3);"

def roomy : Machine.State := .fresh ⟨9, fun _ => 0⟩ .unlimited

theorem capacity_truncates_cramped :
    ∃ whole cut program time paren, roomy.sink.capacity = none ∧ roomy.sink.stored.size ≤ 3 ∧
      run 60 cramped roomy = some whole ∧
      whole.state.sink.stored.data = #[49, 10, 49, 50, 10, 51, 10] ∧
      run 60 cramped (roomy.capped 3) = some cut ∧
      cut.state.sink.stored = whole.state.sink.stored.extract 0 3 ∧
      compile cramped = .ok program ∧ Overruns 3 program roomy time paren ∧ paren.line = 3 ∧
      cut.result = .error [.source .runtime 3 "Print error: sink full"] := by
  have checked : (run 60 cramped roomy).map (fun run => run.state.sink.stored.data) =
      some #[49, 10, 49, 50, 10, 51, 10] := by decide +kernel
  have checkedCut : (run 60 cramped (roomy.capped 3)).map
      (fun run => Command.diagnostics run.result) =
        some [.source .runtime 3 "Print error: sink full"] := by decide +kernel
  obtain ⟨whole, ended, printed⟩ := Option.map_eq_some_iff.1 checked
  obtain ⟨stopped, endedCut, reported⟩ := Option.map_eq_some_iff.1 checkedCut
  have failed := result_of_diagnostics reported
  have room : roomy.sink.stored.size ≤ 3 := by decide
  obtain ⟨cut, same, stored, -, overran⟩ := capacity_truncates rfl room ended
  have large : 3 < whole.state.sink.stored.size := by
    change 3 < whole.state.sink.stored.data.size
    rw [printed]
    decide
  obtain ⟨program, time, paren, compiles, overruns, fails⟩ := overran large
  have isCut : cut = stopped := Option.some.inj (same.symm.trans endedCut)
  have onLine : paren.line = 3 := by
    have lines := fails rfl
    rw [isCut, failed] at lines
    simp only [Except.error.injEq, List.cons.injEq, Diagnostic.source.injEq] at lines
    exact lines.1.2.1.symm
  exact ⟨whole, cut, program, time, paren, rfl, room, ended, printed, same, stored, compiles,
    overruns, onLine, isCut ▸ failed⟩

end Program

end Quill
