import Quill.Proofs.Grammar.Consumption
import Quill.Proofs.Grammar.Rules
import Quill.Proofs.Token.Numerals

/-!
Numbers that cannot be read. Only a primary refuses a number, so a refused number is a number
token of the list that is parsed, whose lexeme is not read as a double. The lexer gives no such
token, so a source that scans has no refused numbers.
-/

namespace Quill.Grammar

set_option autoImplicit false

variable {Result Next : Type}

/-- If the fault refuses a number, then the number is one of the tokens and cannot be read. Nothing
is said of other faults. -/
def Warranted (tokens : List Token) (fault : Located Fault) : Prop :=
  ∀ lexeme, fault.cause = .invalidNumber lexeme →
    ∃ token ∈ tokens, token.kind = .number ∧ token.lexeme = lexeme ∧ Number.read? lexeme = none

structure Within (tokens : List Token) (cursor : Cursor) : Prop where
  rest : cursor.rest ++ [cursor.finish] ⊆ tokens
  faults : ∀ fault ∈ cursor.faults, Warranted tokens fault

def Leads (tokens : List Token) : EStateM.Result (Located Fault) Cursor Result → Prop
  | .ok _ stop => Within tokens stop
  | .error fault stop => Within tokens stop ∧ Warranted tokens fault

def Warrants (tokens : List Token) (parser : Parser Result) : Prop :=
  ∀ start, Within tokens start → Leads tokens (parser start)

section Steps

variable {tokens : List Token} {cursor : Cursor}

theorem warranted_other {fault : Located Fault}
    (other : ∀ lexeme, fault.cause ≠ .invalidNumber lexeme) : Warranted tokens fault :=
  fun lexeme same => absurd same (other lexeme)

theorem Within.drop (within : Within tokens cursor) {rest : List Token}
    (shorter : rest <:+ cursor.rest) : Within tokens { cursor with rest := rest } := by
  refine ⟨fun token member => within.rest ?_, within.faults⟩
  rcases List.mem_append.1 member with inRest | last
  · exact List.mem_append_left _ (shorter.subset inRest)
  · exact List.mem_append_right _ last

theorem Within.record (within : Within tokens cursor) {fault : Located Fault}
    (warranted : Warranted tokens fault) : Within tokens (cursor.record fault) := by
  refine ⟨within.rest, fun recorded member => ?_⟩
  rcases List.mem_append.1 member with earlier | last
  · exact within.faults recorded earlier
  · rw [List.mem_singleton.1 last]
    exact warranted

theorem Within.peek_mem (within : Within tokens cursor) : cursor.peek ∈ tokens := by
  refine within.rest ?_
  unfold Cursor.peek
  cases cursor.rest with
  | nil => exact List.mem_singleton_self _
  | cons token rest => exact List.mem_cons_self

theorem warrants_bind {parser : Parser Result} {proceed : Result → Parser Next}
    (first : Warrants tokens parser) (second : ∀ value, Warrants tokens (proceed value)) :
    Warrants tokens (parser >>= proceed) := by
  intro start within
  have leads := first start within
  cases run : parser start with
  | ok value middle =>
      rw [run] at leads
      rw [bind_of_ok run]
      exact second value middle leads
  | error fault middle =>
      rw [run] at leads
      rw [bind_of_fault run]
      exact leads

theorem warrants_expect (kind : Kind) (wanted : Wanted) : Warrants tokens (expect kind wanted) := by
  intro start within
  unfold expect
  split
  next token rest held =>
    split
    · exact within.drop (held ▸ List.suffix_cons token rest)
    · exact ⟨within, warranted_other fun _ => Fault.noConfusion⟩
  next => exact ⟨within, warranted_other fun _ => Fault.noConfusion⟩

theorem warrants_taking (kinds : List Kind) : Warrants tokens (accept? kinds) := by
  intro start within
  unfold accept?
  split
  next token rest held =>
    split
    · exact within.drop (held ▸ List.suffix_cons token rest)
    · exact within
  next => exact within

theorem warrants_check (kinds : List Kind) : Warrants tokens (check kinds) := by
  intro start within
  unfold check
  split <;> exact within

theorem warrants_make (build : Nat → Expr) : Warrants tokens (make build) :=
  fun _ within => ⟨within.rest, within.faults⟩

theorem warrants_leaf (build : Nat → Expr) : Warrants tokens (leaf build) :=
  warrants_bind (fun _ within => within.drop (List.tail_suffix _)) fun _ => warrants_make build

/-- The only fault about a numeral is reported here, at the token that holds it. -/
theorem warrants_primary {inner : Parser Expr} (warrants : Warrants tokens inner) :
    Warrants tokens (primary inner) := by
  intro start within
  have advancing : Warrants tokens advance := fun _ within => within.drop (List.tail_suffix _)
  have leaves (build : Nat → Expr) : Leads tokens (leaf build start) :=
    warrants_leaf build start within
  rw [primary, bind_of_ok (peek_ok.2 ⟨rfl, rfl⟩)]
  generalize seen : start.peek.kind = kind
  cases kind
  case falseWord | trueWord | nilWord | string | identifier | thisWord => exact leaves _
  case number =>
    cases read : Number.read? start.peek.lexeme with
    | some bits => exact leaves _
    | none =>
        refine ⟨within, fun lexeme same => ⟨start.peek, within.peek_mem, seen, ?_⟩⟩
        cases same
        exact ⟨rfl, read⟩
  case baseWord =>
    refine warrants_bind advancing (fun _ => ?_) start within
    exact warrants_bind (warrants_expect _ _) fun _ =>
      warrants_bind (warrants_expect _ _) fun method => warrants_make _
  case leftParen =>
    refine warrants_bind advancing (fun _ => ?_) start within
    exact warrants_bind warrants fun grouped =>
      warrants_bind (warrants_expect _ _) fun _ => warrants_make _
  all_goals exact ⟨within, warranted_other fun _ => Fault.noConfusion⟩

theorem warrants_recovering {rule : Parser Stmt} (warrants : Warrants tokens rule) :
    Warrants tokens (recovering rule) := by
  intro start within
  have leads := warrants start within
  unfold recovering
  cases run : rule start with
  | ok stmt next =>
      rw [run] at leads
      exact leads
  | error fault next =>
      rw [run] at leads
      have resumed := (leads.1.record leads.2).drop (resync_suffix next.rest)
      dsimp only [Leads]
      split
      · exact resumed.drop (List.tail_suffix _)
      · exact resumed

variable (tokens)

theorem warrants_stepwise : Stepwise (fun {_} parser => Warrants tokens parser) where
  value _ _ within := within
  bind := warrants_bind
  measured warrants start := warrants start.rest.length start
  atEnd _ within := within
  remaining _ within := within
  check := warrants_check
  taking _ := warrants_taking _
  takingAll _ _ within := within.drop (List.dropWhile_suffix _)
  expect _ := warrants_expect _
  make := warrants_make
  refusal other _ within := ⟨within, warranted_other other⟩

theorem warrants_closed : ClosedUnder (fun {_} parser => Warrants tokens parser) where
  toStepwise := warrants_stepwise tokens
  primary := warrants_primary
  assignment warrants := (warrants_stepwise tokens).assignment_with warrants fun _ _ within =>
    ⟨within, warranted_other fun _ => Fault.noConfusion⟩
  semicolon := warrants_expect _
  optionalSemicolon := (warrants_stepwise tokens).map _ (warrants_taking _)
  recovering := warrants_recovering

end Steps

theorem parse_warranted (tokens : List Token) (finish : Token) {fault : Located Fault}
    (member : fault ∈ (parse tokens finish).faults) : Warranted (tokens ++ [finish]) fault := by
  have start : Within (tokens ++ [finish]) (Cursor.start tokens finish) :=
    ⟨(start_front tokens finish).subset, fun fault member => absurd member List.not_mem_nil⟩
  obtain ⟨statements, stop, run, -⟩ := program_total (Cursor.start tokens finish)
  have leads := (warrants_closed (tokens ++ [finish])).program _ start
  rw [run] at leads
  unfold parse at member
  rw [run] at member
  exact leads.faults fault member

theorem invalid_number_message (lexeme : String) :
    (Fault.invalidNumber lexeme).message.toList =
      "Invalid number '".toList ++ (lexeme ++ "'.").toList := by
  change ("Invalid number '" ++ lexeme ++ "'.").toList = _
  rw [String.append_assoc, String.toList_append]

/-- No other fault is worded like a refused number: the others differ from it in the first
letter or in the ninth. -/
theorem message_number {fault : Fault} {lexeme : String}
    (same : fault.message = (Fault.invalidNumber lexeme).message) :
    ∃ other, fault = .invalidNumber other := by
  have letters := congrArg String.toList same
  rw [invalid_number_message] at letters
  have first : fault.message.toList.head? = some 'I' := by
    rw [letters]
    simp
  have ninth : fault.message.toList[8]? = some 'n' := by
    rw [letters]
    simp
  cases fault with
  | invalidNumber other => exact ⟨other, rfl⟩
  | missing wanted =>
      have expects : (Fault.missing wanted).message = "Expect " ++ (wanted.phrase ++ ".") :=
        String.append_assoc
      rw [expects, String.toList_append] at first
      simp at first
  | tooManyParameters => exact absurd first (by decide +kernel)
  | tooManyArguments => exact absurd first (by decide +kernel)
  | invalidTarget => exact absurd ninth (by decide +kernel)

/-- Every number that the lexer finds covers the longest numeral at its start: digits, and
perhaps a point with more digits behind it. So the numbers of a source that scans can all be
read, and none is refused by the parser. -/
theorem numbers_always_read (source : String) :
    (∀ token ∈ (Lexer.scan source).tokens, token.kind = .number →
      Text.slice? source.toList token.span.start token.span.stop = some token.lexeme.toList ∧
        ∃ front rest, Text.splitAtByte? source.toList token.span.start = some (front, rest) ∧
          Lexer.LongestNumeral token.lexeme.toList rest) ∧
      ∀ tokens, Lexer.tokens source = .ok tokens →
        ∀ fault ∈ (parse tokens (Token.endOf source.toList)).faults, ∀ lexeme,
          fault.cause.message ≠ (Fault.invalidNumber lexeme).message := by
  refine ⟨fun token member number => Lexer.scan_longest member number, ?_⟩
  intro tokens scans fault member lexeme worded
  obtain ⟨other, refused⟩ := message_number worded
  obtain ⟨token, inside, number, rfl, unread⟩ := parse_warranted tokens _ member other refused
  rcases List.mem_append.1 inside with scanned | last
  · have readable := Lexer.number_tokens_read scans scanned number
    rw [unread] at readable
    cases readable
  · rw [List.mem_singleton.1 last] at number
    cases number

end Quill.Grammar
