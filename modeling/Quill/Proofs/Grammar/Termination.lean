import Mathlib.Data.List.TakeWhile
import Quill.Proofs.Grammar.Depth
import Quill.Proofs.Grammar.Loops
import Quill.Proofs.Grammar.Moments
import Quill.Proofs.Grammar.Whole
import Quill.Proofs.Tree.Formed

/-!
Reading comes to an end. The moments of a run lie one behind the other, and each of them is a
place in the list that is read. A declaration that does not stand at the end leaves the cursor
further on whether it is kept or dropped, no repetition needs a bound on its turns and no rule
one on its depth, and the run ends at the end mark.
-/

namespace Quill.Grammar

set_option autoImplicit false

def Cursor.position (tokens : List Token) (cursor : Cursor) : Nat :=
  (beforeEnd tokens).length - cursor.rest.length

/-- The token before the cursor, looked up by its index; at the start of the list, the token
under the cursor takes its place. -/
def Cursor.previous? (tokens : List Token) (cursor : Cursor) : Option Token :=
  match cursor.position tokens with
  | 0 => some cursor.peek
  | index + 1 => tokens[index]?

section Order

theorem passing_before_stop {start stop moment : Cursor} (advance : Advance start stop)
    (member : moment ∈ start.passing stop) : Advance moment stop := by
  rcases List.mem_append.1 member with passed | last
  · obtain ⟨count, within, rfl⟩ := List.mem_map.1 passed
    have few := List.mem_range.1 within
    have shorter := advance.rest.length_le
    refine ⟨?_, advance.finish, advance.nextId, advance.faults⟩
    refine List.suffix_of_suffix_length_le advance.rest (List.drop_suffix count start.rest) ?_
    simp only [List.length_drop]
    omega
  · rw [List.mem_singleton.1 last]
    exact Advance.refl stop

theorem passing_ordered {start stop : Cursor} (advance : Advance start stop) :
    (start.passing stop).Pairwise Advance := by
  refine List.pairwise_append.2 ⟨?_, List.pairwise_singleton _ _, ?_⟩
  · refine List.pairwise_map.2 (List.pairwise_lt_range.imp ?_)
    intro early late before
    refine ⟨?_, rfl, Nat.le_refl _, [], by simp⟩
    exact List.drop_suffix_drop_left start.rest (Nat.le_of_lt before)
  · intro moment passed last member
    rw [List.mem_singleton.1 member]
    exact passing_before_stop advance (List.mem_append_left _ passed)

theorem recovery_advance {rule : Parser Stmt} {start stop : Cursor} {fault : Located Fault}
    (run : rule start = .error fault stop) :
    Advance (stop.record fault) (stopOf (recovering rule start)) := by
  have skipped : Advance (stop.record fault) { stop.record fault with rest := resync stop.rest } :=
    Advance.drop (resync_suffix stop.rest)
  unfold recovering
  rw [run]
  dsimp only [stopOf]
  split
  · exact skipped.trans (Advance.drop (List.tail_suffix _))
  · exact skipped

theorem record_advance (cursor : Cursor) (fault : Located Fault) :
    Advance cursor (cursor.record fault) :=
  ⟨List.suffix_refl _, rfl, Nat.le_refl _, [fault], rfl⟩

namespace Script

variable {Result : Type}

/-- No moment of a run lies behind the place where it stops. With the order of the moments this says
that the cursor only ever moves on. -/
theorem moments_before_stop {parser : Parser Result} (script : Script parser)
    {start moment : Cursor} (member : moment ∈ script.moments start) :
    Advance moment (stopOf (parser start)) := by
  induction script generalizing start with
  | step primitive => exact passing_before_stop (primitive.advances start) member
  | @bind _ _ first proceed before after firstInduction secondInduction =>
      change Advance moment (stopOf (EStateM.bind first proceed start))
      unfold EStateM.bind
      rcases bind_moments member with early | ⟨value, middle, run, late⟩
      · have reached := firstInduction early
        cases found : first start with
        | ok value middle =>
            rw [found] at reached
            exact reached.trans ((after value).advances middle)
        | error fault middle =>
            rw [found] at reached
            exact reached
      · rw [run]
        exact secondInduction value late
  | @map _ _ parser build script induction =>
      have reached := induction member
      change Advance moment (stopOf (EStateM.map build parser start))
      unfold EStateM.map
      cases found : parser start with
      | ok value stop | error fault stop =>
          rw [found] at reached
          exact reached
  | either condition first second yes no =>
      unfold moments at member
      split at member
      · rw [if_pos ‹_›]
        exact yes member
      · rw [if_neg ‹_›]
        exact no member
  | measured script induction => exact induction start.rest.length member
  | @recovering rule script induction =>
      rcases recovering_moments member with early | ⟨fault, stop, run, late⟩
      · have reached := induction early
        cases found : rule start with
        | ok stmt stop =>
            rw [found] at reached
            simp only [Grammar.recovering, found]
            exact reached
        | error fault stop =>
            rw [found] at reached
            exact (reached.trans (record_advance stop fault)).trans (recovery_advance found)
      · exact passing_before_stop (recovery_advance run) late

/-- The moments of a run lie one behind the other. -/
theorem moments_ordered {parser : Parser Result} (script : Script parser) (start : Cursor) :
    (script.moments start).Pairwise Advance := by
  induction script generalizing start with
  | step primitive => exact passing_ordered (primitive.advances start)
  | @bind _ _ first proceed before after firstInduction secondInduction =>
      rw [moments]
      cases run : first start with
      | ok value middle =>
          refine List.pairwise_append.2 ⟨firstInduction start, secondInduction value middle, ?_⟩
          intro early earlyMember late lateMember
          have reached := before.moments_before_stop earlyMember
          rw [run] at reached
          exact reached.trans ((after value).moments_advance lateMember)
      | error fault middle => simpa using firstInduction start
  | map build script induction => exact induction start
  | either condition first second yes no =>
      unfold moments
      split
      · exact yes start
      · exact no start
  | measured script induction => exact induction start.rest.length start
  | @recovering rule script induction =>
      rw [moments]
      cases run : rule start with
      | ok stmt stop => simpa using induction start
      | error fault stop =>
          have skips := recovery_advance run
          refine List.pairwise_append.2 ⟨induction start, passing_ordered skips, ?_⟩
          intro early earlyMember late lateMember
          have reached := script.moments_before_stop earlyMember
          rw [run] at reached
          exact (reached.trans (record_advance stop fault)).trans (passing_advance skips lateMember)

end Script

end Order

section Positions

variable {tokens : List Token} {finish : Token}

theorem before_end_front (tokens : List Token) : beforeEnd tokens <+: tokens :=
  List.takeWhile_prefix _

theorem position_le (tokens : List Token) (cursor : Cursor) :
    cursor.position tokens ≤ tokens.length :=
  Nat.le_trans (Nat.sub_le _ _) (before_end_front tokens).length_le

theorem position_mono {early late : Cursor} (advance : Advance early late) :
    early.position tokens ≤ late.position tokens :=
  Nat.sub_le_sub_left advance.rest.length_le _

theorem previous_present (tokens : List Token) (cursor : Cursor) :
    ∃ token, cursor.previous? tokens = some token := by
  have inside := position_le tokens cursor
  unfold Cursor.previous?
  split
  · exact ⟨_, rfl⟩
  next index position =>
    rw [position] at inside
    exact ⟨tokens[index], List.getElem?_eq_getElem inside⟩

theorem previous_taken {cursor : Cursor} {token : Token} {behind : List Token}
    (reached : Advance (Cursor.start tokens finish) cursor)
    (held : cursor.rest = token :: behind) :
    ({ cursor with rest := behind } : Cursor).previous? tokens = some token := by
  obtain ⟨front, read⟩ : cursor.rest <:+ beforeEnd tokens := reached.rest
  obtain ⟨later, whole⟩ := before_end_front tokens
  rw [held] at read
  have position : ({ cursor with rest := behind } : Cursor).position tokens = front.length + 1 := by
    simp only [Cursor.position, ← read, List.length_append, List.length_cons]
    omega
  unfold Cursor.previous?
  rw [position]
  change tokens[front.length]? = some token
  rw [← whole, ← read, List.append_assoc, List.getElem?_append_right (Nat.le_refl _)]
  simp

theorem position_lt {start stop : Cursor} (reached : Advance (Cursor.start tokens finish) start)
    (fewer : stop.rest.length < start.rest.length) :
    start.position tokens < stop.position tokens := by
  have within : start.rest.length ≤ (beforeEnd tokens).length := reached.rest.length_le
  unfold Cursor.position
  omega

end Positions

/-- What the moments of a run keep: the cursor stands in the list, it never goes back, and the
token before it is always there. -/
structure Tracked (tokens : List Token) (moments : List Cursor) : Prop where
  left : ∀ moment ∈ moments, moment.rest = (beforeEnd tokens).drop (moment.position tokens)
  forward : moments.Pairwise fun early late => early.position tokens ≤ late.position tokens
  within : ∀ moment ∈ moments, moment.position tokens ≤ tokens.length
  indexed : ∀ moment ∈ moments, ∃ token, moment.previous? tokens = some token

/-- Every repetition that may start at a cursor is a loop that comes to an end by itself. The
budgets that the parser gives its repetitions are not to be seen in this. -/
structure LoopsEnd (cursor : Cursor) : Prop where
  program : Loops (declarationTurn declaration []) [] cursor (program cursor)
  body : ∀ budget, Loops (declarationTurn (declarationWithin budget) [.rightBrace]) [] cursor
    (declarationsFrom (declarationWithin budget) [.rightBrace] cursor.rest.length cursor)
  methods : ∀ budget, Loops (methodTurn (declarationWithin budget)) [] cursor
    (methodsFrom (declarationWithin budget) cursor.rest.length cursor)
  parameters : Loops (listTurn (expect .identifier .parameterName) .tooManyParameters) [] cursor
    (parameters listLimit cursor)
  arguments : ∀ budget, Loops (listTurn (expressionWithin budget) .tooManyArguments) [] cursor
    (arguments (expressionWithin budget) listLimit cursor)
  chains : ∀ operators build operand left, Advances operand →
    Loops (chainTurn operators build operand) left cursor
      (chainFrom operators build operand cursor.rest.length left cursor)
  suffixes : ∀ budget head, Loops (suffixTurn (expressionWithin budget)) head cursor
    (suffixesFrom (expressionWithin budget) cursor.rest.length head cursor)
  skipping : Loops skipTurn () cursor (.ok () { cursor with rest := resync cursor.rest })

theorem loops_end (cursor : Cursor) : LoopsEnd cursor := by
  have whole {Item : Type} (parser : Parser (List Item)) : ([] ++ ·) <$> parser = parser := by
    simp
  constructor
  case program =>
    have ended := declarations_loop consumes_declaration [] [] cursor
    rw [whole] at ended
    exact ended
  case body =>
    intro budget
    have ended := declarations_loop (consumes_declaration_within budget) [.rightBrace] [] cursor
    rw [whole] at ended
    exact ended
  case methods =>
    intro budget
    have ended := methods_loop (advances_closed.within budget).2 [] cursor
    rw [whole] at ended
    exact ended
  case parameters => exact parameters_loop cursor
  case arguments => exact fun budget => arguments_loop (expressionWithin budget) cursor
  case chains =>
    intro operators build operand left advances
    exact chain_loop advances operators build left cursor
  case suffixes =>
    intro budget head
    exact suffixes_loop (advances_closed.expression_within budget) head cursor
  case skipping => exact skip_loop cursor

structure DepthEnough (cursor : Cursor) (depth : Nat) : Prop where
  expression : ∀ below, expressionTo below depth cursor = expression cursor
  statement : ∀ below belowDropping,
    statementTo below belowDropping depth cursor = statementWithin cursor.rest.length cursor
  declaration : ∀ below belowDropping,
    declarationTo below belowDropping depth cursor = declaration cursor

/-- What is promised of the cursor in a run over these tokens: it stays among them and looks back at
what it has taken, every declaration moves it on, and every repetition and recursion ends. -/
structure Terminates (tokens : List Token) (finish : Token) : Prop where
  tracked : Tracked tokens (Script.program.moments (Cursor.start tokens finish))
  accepted : ∀ cursor kinds token stop, Advance (Cursor.start tokens finish) cursor →
    accept? kinds cursor = .ok (some token) stop → stop.previous? tokens = some token
  expected : ∀ cursor kind wanted token stop, Advance (Cursor.start tokens finish) cursor →
    expect kind wanted cursor = .ok token stop → stop.previous? tokens = some token
  /-- Whether a declaration is kept or dropped, reading goes on further on. -/
  progress : ∀ cursor budget, Advance (Cursor.start tokens finish) cursor →
    cursor.rest ≠ [] → ∃ result stop, declarationWithin budget cursor = .ok result stop ∧
      cursor.position tokens < stop.position tokens
  loops : ∀ cursor, LoopsEnd cursor
  depth : ∀ cursor depth, Advance (Cursor.start tokens finish) cursor →
    cursor.rest.length < depth → DepthEnough cursor depth
  /-- The run ends at the first end mark, or behind a list without one. -/
  ends : ∃ statements stop, program (Cursor.start tokens finish) = .ok statements stop ∧
    (∀ token ∈ tokens.take (stop.position tokens), token.kind ≠ .endOfInput) ∧
      ∀ token, tokens[stop.position tokens]? = some token → token.kind = .endOfInput

theorem before_end_stops {tokens : List Token} {token : Token}
    (found : tokens[(beforeEnd tokens).length]? = some token) : token.kind = .endOfInput := by
  induction tokens with
  | nil => simp [beforeEnd] at found
  | cons head tokens induction =>
      unfold beforeEnd at induction found
      by_cases ended : head.kind = .endOfInput
      · simp only [ended, ne_eq, not_true_eq_false, decide_false, Bool.false_eq_true,
          not_false_eq_true, List.takeWhile_cons_of_neg, List.length_nil, List.length_cons,
          Nat.zero_lt_succ, List.getElem?_eq_getElem, List.getElem_cons_zero,
          Option.some.injEq] at found
        rw [← found, ended]
      · rw [List.takeWhile_cons_of_pos (by simpa using ended)] at found
        exact induction found

theorem program_ends (tokens : List Token) (finish : Token) :
    ∃ statements stop, program (Cursor.start tokens finish) = .ok statements stop ∧
      (∀ token ∈ tokens.take (stop.position tokens), token.kind ≠ .endOfInput) ∧
        ∀ token, tokens[stop.position tokens]? = some token → token.kind = .endOfInput := by
  obtain ⟨statements, stop, run, ended⟩ := program_total (Cursor.start tokens finish)
  have position : stop.position tokens = (beforeEnd tokens).length := by
    simp [Cursor.position, ended]
  refine ⟨statements, stop, run, ?_, ?_⟩
  · rw [position, ← List.prefix_iff_eq_take.1 (before_end_front tokens)]
    intro token member
    simpa using List.mem_takeWhile_imp member
  · rw [position]
    exact fun token => before_end_stops

/-- Whatever the tokens are and wherever they end, reading them comes to an end. All loops end by
themselves, depth is bounded by the tokens, and the cursor never leaves the list. -/
theorem parsing_terminates (source : String) (tokens : List Token) :
    Terminates tokens (Token.endOf source.toList) := by
  have closed := start_closed tokens (end_of_kind source.toList)
  have ordered := Script.program.moments_ordered (Cursor.start tokens (Token.endOf source.toList))
  constructor
  case tracked =>
    constructor
    case left =>
      intro moment member
      exact List.suffix_iff_eq_drop.1 (Script.program.moments_advance member).rest
    case forward => exact ordered.imp position_mono
    case within => exact fun moment _ => position_le tokens moment
    case indexed => exact fun moment _ => previous_present tokens moment
  case accepted =>
    intro cursor kinds token stop reached run
    rcases accept_option_ok.1 run with ⟨_, behind, ⟨⟩, held, -, rfl⟩ | ⟨⟨⟩, -⟩
    exact previous_taken reached held
  case expected =>
    intro cursor kind wanted token stop reached run
    obtain ⟨behind, held, -, rfl⟩ := expect_ok.1 run
    exact previous_taken reached held
  case progress =>
    intro cursor budget reached present
    obtain ⟨result, stop, run⟩ := declaration_within_total budget cursor
    have fewer := consumes_declaration_within budget cursor result stop run
    have positive := List.length_pos_iff.2 present
    exact ⟨result, stop, run, position_lt reached (by omega)⟩
  case loops => exact loops_end
  case depth =>
    intro cursor depth reached enough
    have cursorClosed : cursor.finish.kind = .endOfInput := by
      rw [reached.finish]
      exact closed
    exact ⟨expression_to cursorClosed enough, statement_to cursorClosed enough,
      declaration_to cursorClosed enough⟩
  case ends => exact program_ends tokens _

end Quill.Grammar
