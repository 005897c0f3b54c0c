import Quill.Proofs.Machine.Rounds
import Quill.Proofs.Machine.Vacancy

/-!
Counting loops in programs. A counting loop is read as its parts and written as a statement made
of blocks and a conditional loop, and the statement does what the parts prescribe. The block
around body and increment has a frame that never binds anything, so a name is one frame further
out in the increment than in the condition, and denotes the same binding.
-/

namespace Quill.Machine

set_option autoImplicit false

open Grammar (Counting Written Follows bind_ok pure_ok accept_option_ok at_end_ok remaining_ok
  check_ok)
open Scope (Layer Place Opener positions lookedUp? NearestAt)

section Frames

variable {counting : Counting}

theorem written_undeclaring {words : List Token} {first next : Nat}
    {faults : List (Located Grammar.Fault)} (written : Written counting words first next faults) :
    counting.body.Undeclaring := by
  cases written with
  | parts leftKind starts tests semicolonKind steps rightKind repeats =>
      have formed : Node.AllWellFormed (fun _ => True) counting.body.nodes :=
        repeats.well_formed fun _ _ => trivial
      exact undeclaring_of_formed counting.body formed repeats.undeclared

theorem written_undeclared {words : List Token} {first next : Nat}
    {faults : List (Located Grammar.Fault)} (written : Written counting words first next faults) :
    counting.body.declared? = none := by
  cases written with
  | parts leftKind starts tests semicolonKind steps rightKind repeats => exact repeats.undeclared

/-- The frame of a turn is empty when it has been made, and nothing declares anything in it. -/
theorem turn_vacant (undeclaring : counting.body.Undeclaring) {step : Expr}
    (present : counting.increment = some step) {before : State} {stack : List Task}
    (spared : Spared before.heap.nextFrame before.environment stack) :
    Vacant before.heap.nextFrame (some before.environment)
      (next ⟨before, .execute (turnOf counting), stack⟩) := by
  have block : turnOf counting = .block [counting.body, .expression step] := by
    unfold turnOf
    rw [present]
  rw [block]
  refine ⟨(frame_add_frame _ _ _).trans (if_pos rfl), spares_quiet nofun ⟨fun _ => ?_, spared⟩⟩
  intro stmt member
  simp only [List.mem_cons, List.not_mem_nil, or_false] at member
  rcases member with rfl | rfl
  · exact undeclaring
  · trivial

theorem waits_spared {statements : List Stmt} {store : Store} (sound : StoreSound statements store)
    {environment : FrameRef} {owed : Option Token} {stack : List Task}
    (waits : Waits statements store environment owed stack) :
    Spared store.heap.nextFrame environment stack := by
  induction waits with
  | nothing => trivial
  | task member continues around fits rest induction =>
      refine ⟨fun same => ?_, induction⟩
      have older := fits_lt sound fits
      rw [same] at older
      exact absurd older (Nat.lt_irrefl _)

theorem turn_spared {program : Program} (accepted : Accepted program) {state before : State}
    {time : Nat} {clause : Stmt} {stack : List Task}
    (runs : (program.load state).run time = ⟨before, .execute clause, stack⟩) :
    Spared before.heap.nextFrame before.environment stack := by
  have inStep := reached_in_step accepted state time
  have machine := reached_machine program state time
  rw [runs] at machine
  generalize reached program state time = tagged at inStep machine
  rcases tagged with ⟨reachedMachine, origins⟩
  cases machine
  cases inStep.runs with
  | execute member fits waits => exact waits_spared inStep.state.store waits

end Frames

section Names

variable {counting : Counting} {number : Nat} {statements : List Stmt} {place : Place}

structure Stands (statements : List Stmt) (counting : Counting) (layers : List Layer) : Prop where
  tests : ∀ condition, counting.condition = some condition → ∀ test ∈ condition.subterms,
    (Place.plain layers, .expr test) ∈ positions statements
  steps : ∀ increment, counting.increment = some increment → ∀ step ∈ increment.subterms,
    (Place.plain (⟨.block [counting.body, .expression increment], []⟩ :: layers), .expr step) ∈
      positions statements

theorem while_stands (undeclared : counting.body.declared? = none)
    (member : (place, .stmt (.whileLoop (counting.test number) (turnOf counting))) ∈
      positions statements) : Stands statements counting place.layers := by
  have inside := Scope.below_subset member
  have tests : ∀ test ∈ (counting.test number).subterms,
      (Place.plain place.layers, .expr test) ∈ positions statements := by
    intro test subterm
    apply inside
    simp only [Scope.below, Scope.stmtPositions, Scope.exprPositions, List.mem_cons,
      List.mem_append, List.mem_map]
    exact .inr (.inl ⟨test, subterm, rfl⟩)
  refine ⟨fun condition present => ?_, fun increment present step subterm => ?_⟩
  · simpa [Counting.test, present] using tests
  · apply inside
    simp only [Scope.below, Scope.stmtPositions, turnOf, present]
    refine List.mem_cons_of_mem _ (List.mem_append_right _ (List.mem_cons_of_mem _ ?_))
    simp only [Scope.bodyPositions, Scope.stmtPositions, Scope.after_undeclared undeclared,
      Scope.exprPositions, List.mem_cons, List.mem_append, List.mem_map]
    exact .inr (.inr (.inr (.inl (.inr ⟨step, subterm, rfl⟩))))

theorem loop_stands (undeclared : counting.body.declared? = none)
    (member : (place, .stmt (counting.loop number)) ∈ positions statements) :
    ∃ layers, Stands statements counting layers := by
  cases present : counting.initializer with
  | none =>
      rw [loop_of_bare present] at member
      exact ⟨_, while_stands undeclared member⟩
  | some first =>
      rw [loop_of_started present] at member
      let body := [first, .whileLoop (counting.test number) (turnOf counting)]
      have inner : (Place.plain (Scope.after (⟨.block body, []⟩ :: place.layers) first),
          Node.stmt (.whileLoop (counting.test number) (turnOf counting))) ∈
            positions statements := by
        apply Scope.below_subset member
        simp only [Scope.below, Scope.stmtPositions, Scope.bodyPositions, List.mem_cons,
          List.mem_append]
        exact .inr (.inr (.inr (.inr (.inl (.inl rfl)))))
      exact ⟨_, while_stands undeclared inner⟩

theorem step_distance {program : Program} (accepted : Accepted program) {layers : List Layer}
    {opener : Opener} {test step : Expr} {name : String}
    (testMember : (Place.plain layers, .expr test) ∈ positions program.statements)
    (stepMember : (Place.plain (⟨opener, []⟩ :: layers), .expr step) ∈ positions program.statements)
    (testLooked : lookedUp? test = some name) (stepLooked : lookedUp? step = some name) :
    program.locals.get? step.id = (program.locals.get? test.id).map (· + 1) := by
  refine Option.ext fun distance => ?_
  rw [accepted.entry_iff stepMember stepLooked, Option.map_eq_some_iff]
  refine (Scope.nearest_at_cons _ _ _ _).trans ?_
  simp only [List.not_mem_nil, false_and, not_false_eq_true, true_and, false_or]
  exact exists_congr fun further =>
    and_congr_left fun _ => (accepted.entry_iff testMember testLooked further).symm

theorem one_further {state : State} {frame child : FrameRef} {test step : Nat}
    (inside : state.heap.parent? child = some frame)
    (further : state.locals.get? step = (state.locals.get? test).map (· + 1)) (name : String) :
    ((state.back child).slot step name).toOption = ((state.back frame).slot test name).toOption ∧
      ((state.back child).read step name).toOption =
        ((state.back frame).read test name).toOption := by
  have outwards : ∀ distance, state.heap.ancestor? child (distance + 1) =
      state.heap.ancestor? frame distance := by
    intro distance
    rw [Heap.ancestor?, inside, Option.bind_some]
  cases found : state.locals.get? test with
  | none =>
      rw [found, Option.map_none] at further
      simp only [State.slot, State.read, State.back, found, further, and_self]
  | some distance =>
      rw [found, Option.map_some] at further
      simp only [State.slot, State.read, State.back, found, further, Heap.slotAt, Heap.readAt,
        outwards]
      cases state.heap.ancestor? frame distance with
      | none => exact ⟨rfl, rfl⟩
      | some holder => exact ⟨rfl, rfl⟩

end Names

theorem program_lone_loop {start stop : Grammar.Cursor} {keyword : Token} {behind : List Token}
    {loop : Stmt} (held : start.rest = keyword :: behind) (kind : keyword.kind = .forWord)
    (parses : Grammar.forStatement (Grammar.statementWithin behind.length)
      { start with rest := behind } = .ok loop stop) (whole : stop.rest = []) :
    Grammar.program start = .ok [loop] stop := by
  have statement : Grammar.statementRule (Grammar.statementWithin behind.length)
      (Grammar.declarationWithin behind.length) start = .ok loop stop := by
    refine bind_ok.2 ⟨some keyword, { start with rest := behind }, ?_, ?_⟩
    · exact accept_option_ok.2 (.inl ⟨keyword, behind, rfl, held, by simp [kind], rfl⟩)
    · simpa only [kind] using parses
  have declared : Grammar.declaration start = .ok (some loop) stop := by
    have rule : Grammar.declarationRule (Grammar.statementWithin behind.length)
        (Grammar.declarationWithin behind.length) start = .ok loop stop := by
      refine bind_ok.2 ⟨none, start, accept_option_ok.2 (.inr ⟨rfl, ?_, rfl⟩), statement⟩
      simp [Follows, held, kind]
    simp only [Grammar.declaration, held, List.length_cons, Grammar.declarationWithin,
      Grammar.recovering, rule]
  have others :
      Grammar.declarationsFrom Grammar.declaration [] behind.length stop = .ok [] stop := by
    cases behind.length with
    | zero => exact pure_ok.2 ⟨rfl, rfl⟩
    | succ budget =>
        refine bind_ok.2 ⟨true, stop, at_end_ok.2 ⟨by simp [whole], rfl⟩, ?_⟩
        exact pure_ok.2 ⟨rfl, rfl⟩
  refine bind_ok.2 ⟨start.rest.length, start, remaining_ok.2 ⟨rfl, rfl⟩, ?_⟩
  rw [held, List.length_cons]
  refine bind_ok.2 ⟨false, start, at_end_ok.2 ⟨by simp [held], rfl⟩, ?_⟩
  refine bind_ok.2 ⟨false, start, check_ok.2 ⟨by simp [Follows], rfl⟩, ?_⟩
  refine bind_ok.2 ⟨some loop, stop, declared, ?_⟩
  exact bind_ok.2 ⟨[], stop, others, pure_ok.2 ⟨rfl, rfl⟩⟩

def isLoneLoop (start : Grammar.Cursor) : Bool :=
  match start.rest with
  | [] => false
  | keyword :: behind =>
      match Grammar.forStatement (Grammar.statementWithin behind.length)
        { start with rest := behind } with
      | .ok _ stop => keyword.kind == .forWord && stop.rest.isEmpty
      | .error _ _ => false

theorem lone_loop_of_check {start : Grammar.Cursor} (checked : isLoneLoop start = true) :
    ∃ behind loop stop, Grammar.forStatement (Grammar.statementWithin behind.length)
      { start with rest := behind } = .ok loop stop ∧ Grammar.program start = .ok [loop] stop := by
  unfold isLoneLoop at checked
  split at checked
  next => cases checked
  next keyword behind held =>
    split at checked
    next loop stop parses =>
      simp only [Bool.and_eq_true, beq_iff_eq, List.isEmpty_iff] at checked
      exact ⟨behind, loop, stop, parses, program_lone_loop held checked.1 parses checked.2⟩
    next => cases checked

/-- What is promised of a counting loop in a program: it ends as its parts prescribe, its turns have
frames that stay empty, and a name means the same in the condition and in the increment. -/
structure MeansParts (program : Program) (counting : Counting) (number : Nat) : Prop where
  /-- In every state and whatever it is executed for, the loop ends as its parts prescribe. -/
  ends : ∀ before outcome after, Ends (.execute (counting.loop number)) before outcome after ↔
    Counts counting before outcome after
  /-- Whether it ends or not, it comes to each test in the state that its parts prescribe. -/
  rounds : ∀ rounds before first after stack, Begins counting before first →
    Repeats counting rounds first after → ∃ below,
      Reaches ⟨before, .execute (counting.loop number), stack⟩
        (testing counting number after (below ++ stack))
  /-- In every state, the frame of a turn is without bindings as long as the turn lasts. -/
  vacant : ∀ step before moment, counting.increment = some step →
    ((run moment (next ⟨before, .execute (turnOf counting), []⟩)).state.heap.frame?
      before.heap.nextFrame) = some ⟨some before.environment, .empty⟩
  /-- In a run of the program it is without bindings for ever. -/
  unbound : ∀ step state time before stack later, counting.increment = some step →
    (program.load state).run time = ⟨before, .execute (turnOf counting), stack⟩ → time < later →
      ((program.load state).run later).state.heap.frame? before.heap.nextFrame =
        some ⟨some before.environment, .empty⟩
  /-- A name in both condition and increment denotes the same binding in both: from the frame of a
  turn it leads where it leads from the frame of the loop. -/
  names : ∀ condition increment, counting.condition = some condition →
    counting.increment = some increment → ∀ test ∈ condition.subterms, ∀ step ∈ increment.subterms,
      ∀ name, lookedUp? test = some name → lookedUp? step = some name →
        program.locals.get? step.id = (program.locals.get? test.id).map (· + 1) ∧
          ∀ (state : State) frame child, state.locals = program.locals →
            state.heap.parent? child = some frame →
              ((state.back child).slot step.id name).toOption =
                  ((state.back frame).slot test.id name).toOption ∧
                ((state.back child).read step.id name).toOption =
                  ((state.back frame).read test.id name).toOption

/-- A counting loop means what its parts say: whatever the parser returns for one is the statement
for the parts that it read, and in every program that compiles and contains this statement it keeps
the promises of `MeansParts`. -/
theorem counting_loop_means {source : String} {program : Program}
    (compiles : Program.compile source = .ok program) {budget : Nat} {start stop : Grammar.Cursor}
    {loop : Stmt} (closed : start.finish.kind = .endOfInput)
    (parses : Grammar.forStatement (Grammar.statementWithin budget) start = .ok loop stop)
    {place : Place} (member : (place, .stmt loop) ∈ positions program.statements) :
    ∃ counting number words added, loop = counting.loop number ∧
      start.rest = words ++ stop.rest ∧ Written counting words start.nextId number added ∧
        MeansParts program counting number := by
  obtain ⟨counting, words, number, added, written, rest, -, -, rfl, -⟩ :=
    Grammar.for_statement_written (Grammar.within_produces budget).1 parses closed
  refine ⟨counting, number, words, added, rfl, rest, written, ?_⟩
  have accepted := compile_accepted compiles
  have undeclaring := written_undeclaring written
  obtain ⟨layers, stands⟩ := loop_stands (written_undeclared written) member
  constructor
  · exact fun before outcome after => loop_iff
  · intro rounds before first after stack begins repeats
    obtain ⟨below, reaches⟩ := begins_reaches begins stack
    exact ⟨below, reaches.trans (repeats_reaches repeats _)⟩
  · intro step before moment present
    have spared : Spared before.heap.nextFrame before.environment [] := trivial
    exact (run_vacant (turn_vacant undeclaring present spared) moment).empty
  · intro step state time before stack later present turn after
    have spared := turn_spared accepted turn
    obtain ⟨further, rfl⟩ := Nat.exists_eq_add_of_lt after
    have goesOn : (program.load state).run (time + further + 1) =
        run further (next ⟨before, .execute (turnOf counting), stack⟩) := by
      rw [Nat.add_assoc, run_add, turn, Nat.add_comm, run_add]
      rfl
    rw [goesOn]
    exact (run_vacant (turn_vacant undeclaring present spared) further).empty
  · intro condition increment tested stepped test testInside step stepInside name looked looked'
    have further := step_distance accepted (stands.tests _ tested _ testInside)
      (stands.steps _ stepped _ stepInside) looked looked'
    refine ⟨further, fun state frame child same inside => one_further inside ?_ name⟩
    rw [same]
    exact further

def going : String := "for (var go = true; go; go = false) print(go);"

/-- The condition reads `go` in its own frame and the increment assigns it one frame further out;
the loop prints once and ends. -/
theorem counting_loop_means_going :
    ∃ program counting number, Program.compile going = .ok program ∧
      program.statements = [counting.loop number] ∧ MeansParts program counting number ∧
        (program.locals.get? 1 = some 0 ∧ program.locals.get? 4 = some 1) ∧
          ((program.load (.fresh ⟨9, fun _ => 0⟩ .unlimited)).run 29).halted = true ∧
            ((program.load (.fresh ⟨9, fun _ => 0⟩ .unlimited)).run 29).state.sink.stored.data =
              #[116, 114, 117, 101, 10] := by
  have checked : (Program.compile going).toOption.map (fun program =>
      let last := (program.load (.fresh ⟨9, fun _ => 0⟩ .unlimited)).run 29
      ((program.locals.get? 1, program.locals.get? 4), last.halted, last.state.sink.stored.data)) =
        some ((some 0, some 1), true, #[116, 114, 117, 101, 10]) := by decide +kernel
  have scanned : (Lexer.tokens going).toOption.map (fun tokens =>
      let start := Grammar.Cursor.start tokens (Token.endOf going.toList)
      (isLoneLoop start, start.finish.kind)) = some (true, .endOfInput) := by decide +kernel
  simp only [Option.map_eq_some_iff, Prod.mk.injEq] at checked scanned
  obtain ⟨program, compiled, distances, stopped, printed⟩ := checked
  obtain ⟨tokens, tokensFound, lone, closed⟩ := scanned
  have compiles := compiles_of_option compiled
  obtain ⟨parsed, parses, -, same, -⟩ := compile_ok compiles
  obtain ⟨behind, loop, stop, loopParses, whole⟩ := lone_loop_of_check lone
  have tokensOk : Lexer.tokens going = .ok tokens := by
    cases found : Lexer.tokens going with
    | error fault => simp [found, Except.toOption] at tokensFound
    | ok other => simpa [found, Except.toOption] using tokensFound
  have statements : program.statements = [loop] := by
    rw [← same]
    rw [Program.parse, tokensOk] at parses
    cases parses
    simp only [Grammar.parse, whole]
  have member : (Place.plain [], .stmt loop) ∈ positions program.statements := by
    rw [statements]
    exact List.mem_cons_of_mem _ (List.mem_append_left _ (stmt_mem [] loop))
  let behindWord : Grammar.Cursor :=
    { Grammar.Cursor.start tokens (Token.endOf going.toList) with rest := behind }
  have closedBehind : behindWord.finish.kind = .endOfInput := closed
  obtain ⟨counting, number, words, added, rfl, -, -, means⟩ :=
    counting_loop_means compiles closedBehind loopParses member
  exact ⟨program, counting, number, compiles, statements, means, distances, stopped, printed⟩

end Quill.Machine
