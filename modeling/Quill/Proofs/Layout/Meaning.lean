import Quill.Program
import Quill.Proofs.Layout.Reading
import Quill.Proofs.Layout.Running
import Quill.Proofs.Layout.Walking

/-!
Layout never changes meaning. Sources that scan to the same words, token by token, have the
same statements up to where their tokens stand, are refused in the same words, and show the
same behaviour on an interpreter; only the lines that faults name may differ.
-/

namespace Quill

set_option autoImplicit false

/-- What the tokens of a source say, wherever they stand. -/
def wordsOf (tokens : List Token) : List (Kind × String) :=
  tokens.map fun token => (token.kind, token.lexeme)

theorem map_bare_of_words {tokens others : List Token} (same : wordsOf tokens = wordsOf others) :
    tokens.map Token.bare = others.map Token.bare := by
  have spelled : ∀ list : List Token, list.map Token.bare =
      (wordsOf list).map fun word => ⟨word.1, ⟨0, 0⟩, word.2, 0⟩ := by
    intro list
    rw [wordsOf, List.map_map]
    rfl
  rw [spelled tokens, spelled others, same]

theorem slice_empty (source : List Char) (offset : Nat) :
    (Text.slice? source offset offset).getD [] = [] := by
  unfold Text.slice?
  rw [if_pos (Nat.le_refl offset), Nat.sub_self]
  cases Text.splitAtByte? source offset with
  | none => rfl
  | some parts => simp [Text.splitAtByte?]

theorem end_bare (source other : List Char) :
    (Token.endOf source).bare = (Token.endOf other).bare := by
  rw [Token.bare_eq_iff]
  constructor
  · rfl
  · simp only [Token.endOf, Token.ofSpan, slice_empty]

def Diagnostic.unplaced (diagnostic : Diagnostic) : Option Stage × String :=
  (diagnostic.stage?, diagnostic.message)

theorem map_unplaced_bare {Cause : Type} (stage : Stage) (wording : Cause → String)
    (faults : List (Located Cause)) :
    ((faults.map Located.bare).map (·.diagnose stage wording)).map Diagnostic.unplaced =
      (faults.map (·.diagnose stage wording)).map Diagnostic.unplaced := by
  simp only [List.map_map]
  rfl

theorem Lexer.tokens_of_scan (source : String) (faultless : (scan source).fault = none) :
    tokens source = .ok (scan source).tokens := by
  unfold tokens
  cases found : scan source with
  | mk tokens fault =>
      rw [found] at faultless
      cases fault with
      | none => rfl
      | some cause => cases faultless

namespace Program

/-- What can be seen of a run apart from lines: how it ended and what it printed. -/
structure Outcome where
  result : Except (List (Option Stage × String)) Unit
  output : ByteArray

def Run.outcome (run : Run) : Outcome where
  result := run.result.mapError (List.map Diagnostic.unplaced)
  output := run.state.sink.stored

def runParse (steps : Nat) (parsed : Grammar.Parse) (state : Machine.State) : Option Run :=
  if parsed.faults.isEmpty then
    match resolve parsed.statements with
    | .error diagnostics => some ⟨.error diagnostics, state⟩
    | .ok locals => interpret steps ⟨parsed.statements, locals⟩ state
  else some ⟨.error (parseDiagnostics parsed), state⟩

theorem run_of_parse {source : String} {parsed : Grammar.Parse} (steps : Nat)
    (state : Machine.State) (read : parse source = .ok parsed) :
    run steps source state = runParse steps parsed state := by
  simp only [run, compile, read, runParse]
  cases parsed.faults.isEmpty with
  | false => rfl
  | true => cases resolve parsed.statements <;> rfl

theorem result_bare (machine : Machine) :
    (result machine.bare).mapError (List.map Diagnostic.unplaced) =
      (result machine).mapError (List.map Diagnostic.unplaced) := by
  rcases machine with ⟨state, control, stack⟩
  unfold result
  change (if state.sink.canFlush then _ else _ : Except (List Diagnostic) Unit).mapError _ = _
  cases state.sink.canFlush with
  | false => rfl
  | true => cases control <;> rfl

theorem finish_bare (steps : Nat) (machine : Machine) :
    (finish? steps machine.bare).map Run.outcome = (finish? steps machine).map Run.outcome := by
  unfold finish?
  simp only [Machine.run_bare, Machine.halted_bare]
  cases (machine.run steps).halted with
  | false => rfl
  | true =>
      have ended := result_bare (machine.run steps)
      simp only [if_true, Option.map_some, Run.outcome, ended]
      rfl

/-- A bare program runs as the program does. What is seen of a run has no lines in it, so that bare
machines end as the machines themselves. -/
theorem interpret_bare (steps : Nat) (statements : List Stmt) (locals : Scope.Table)
    (state : Machine.State) :
    (interpret steps ⟨bareStmts statements, locals⟩ state).map Run.outcome =
      (interpret steps ⟨statements, locals⟩ state).map Run.outcome := by
  unfold interpret load
  rw [Machine.load_bare, finish_bare]

theorem run_parse_bare (steps : Nat) (parsed : Grammar.Parse) (state : Machine.State) :
    (runParse steps parsed.bare state).map Run.outcome =
      (runParse steps parsed state).map Run.outcome := by
  rcases parsed with ⟨statements, faults⟩
  cases faults with
  | nil =>
      simp only [runParse, Grammar.Parse.bare, List.map_nil, List.isEmpty_nil, if_true, resolve,
        Scope.resolve_bare]
      cases Scope.resolve statements with
      | error faults =>
          have worded := map_unplaced_bare .resolve Scope.Fault.message faults
          exact congrArg (fun causes => some (Outcome.mk (.error causes) state.sink.stored)) worded
      | ok locals => exact interpret_bare steps statements locals state
  | cons fault others =>
      have worded := map_unplaced_bare .parse Grammar.Fault.message (fault :: others)
      simp only [runParse, Grammar.Parse.bare, List.map_cons, List.isEmpty_cons]
      exact congrArg (fun causes => some (Outcome.mk (.error causes) state.sink.stored)) worded

theorem parse_bare_of_words {tokens others : List Token} (same : wordsOf tokens = wordsOf others)
    (source other : List Char) :
    (Grammar.parse tokens (Token.endOf source)).bare =
      (Grammar.parse others (Token.endOf other)).bare := by
  rw [← Grammar.parse_bare, ← Grammar.parse_bare, map_bare_of_words same, end_bare source other]

theorem messages_bare {Cause : Type} (wording : Cause → String) (faults : List (Located Cause)) :
    (faults.map Located.bare).map (fun fault => wording fault.cause) =
      faults.map fun fault => wording fault.cause := by
  rw [List.map_map]
  rfl

theorem resolve_messages_bare (statements : List Stmt) :
    (Scope.resolve (bareStmts statements)).mapError (List.map fun fault => fault.cause.message) =
      (Scope.resolve statements).mapError (List.map fun fault => fault.cause.message) := by
  rw [Scope.resolve_bare]
  cases Scope.resolve statements with
  | error faults => exact congrArg Except.error (messages_bare Scope.Fault.message faults)
  | ok locals => rfl

/-- Two sources that scan to the same words have the same statements up to places, expression
numbers included, the same messages from each stage, the same binding table, and the same
outcome on interpreters set up alike, however many steps they are given. -/
theorem layout_irrelevant (first second : String) (tokens others : List Token)
    (scanned : Lexer.tokens first = .ok tokens) (scannedOther : Lexer.tokens second = .ok others)
    (same : wordsOf tokens = wordsOf others) :
    ∃ parsed other : Grammar.Parse, parse first = .ok parsed ∧ parse second = .ok other ∧
      bareStmts parsed.statements = bareStmts other.statements ∧
      parsed.faults.map (fun fault => fault.cause.message) =
        other.faults.map (fun fault => fault.cause.message) ∧
      (Scope.resolve parsed.statements).mapError (List.map fun fault => fault.cause.message) =
        (Scope.resolve other.statements).mapError (List.map fun fault => fault.cause.message) ∧
      ∀ (settings : Machine.Settings) (sink : Sink) (wording : SinkWording) (steps : Nat),
        (run steps first (.fresh settings sink wording)).map Run.outcome =
          (run steps second (.fresh settings sink wording)).map Run.outcome := by
  have read := parse_of_tokens scanned
  have readOther := parse_of_tokens scannedOther
  have alike := parse_bare_of_words same first.toList second.toList
  generalize Grammar.parse tokens (Token.endOf first.toList) = parsed at read alike
  generalize Grammar.parse others (Token.endOf second.toList) = other at readOther alike
  have statements : bareStmts parsed.statements = bareStmts other.statements :=
    congrArg Grammar.Parse.statements alike
  have faults : parsed.faults.map Located.bare = other.faults.map Located.bare :=
    congrArg Grammar.Parse.faults alike
  refine ⟨parsed, other, read, readOther, statements, ?_, ?_, ?_⟩
  · rw [← messages_bare Grammar.Fault.message parsed.faults, faults, messages_bare]
  · rw [← resolve_messages_bare, statements, resolve_messages_bare]
  · intro settings sink wording steps
    rw [run_of_parse steps _ read, run_of_parse steps _ readOther, ← run_parse_bare, alike,
      run_parse_bare]

def crowded : String := "class A \x7b m() \x7b return this.x; \x7d \x7d print(1); A().m();"

def spread : String :=
  "# a note\nclass A\x7bm ( )\n\x7breturn this . x;\x7d\x7d\tprint( 1 ) ;" ++
    "# another\r\n\n  A ( ) . m() ;\n"

def ending (steps : Nat) (source : String) : Option (List Diagnostic) :=
  (run steps source (.fresh ⟨9, fun _ => 0⟩ .unlimited)).bind fun run =>
    match run.result with
    | .error diagnostics => some diagnostics
    | .ok _ => none

theorem layout_irrelevant_spread :
    Lexer.tokens crowded = .ok (Lexer.scan crowded).tokens ∧
      Lexer.tokens spread = .ok (Lexer.scan spread).tokens ∧
      wordsOf (Lexer.scan crowded).tokens = wordsOf (Lexer.scan spread).tokens ∧
      ending 60 crowded = some [.source .runtime 1 "Undefined property 'x'."] ∧
      ending 60 spread = some [.source .runtime 3 "Undefined property 'x'."] ∧
      ∀ (settings : Machine.Settings) (sink : Sink) (wording : SinkWording) (steps : Nat),
        (run steps crowded (.fresh settings sink wording)).map Run.outcome =
          (run steps spread (.fresh settings sink wording)).map Run.outcome := by
  have scanned := Lexer.tokens_of_scan crowded (by decide +kernel)
  have scannedOther := Lexer.tokens_of_scan spread (by decide +kernel)
  have same : wordsOf (Lexer.scan crowded).tokens = wordsOf (Lexer.scan spread).tokens := by
    decide +kernel
  obtain ⟨_, _, -, -, -, -, -, runs⟩ :=
    layout_irrelevant crowded spread _ _ scanned scannedOther same
  exact ⟨scanned, scannedOther, same, by decide +kernel, by decide +kernel, runs⟩

end Program

end Quill
