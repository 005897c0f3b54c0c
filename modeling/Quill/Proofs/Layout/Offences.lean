import Mathlib.Data.List.GetD
import Quill.Proofs.Grammar.Ordering
import Quill.Proofs.Grammar.Whole
import Quill.Proofs.Layout.Lines

/-!
The tokens that faults point to. The parser gives a fault the line of the token that it points
to and looks at no line itself. So if the tokens carry their places in the list for lines, the
faults of their parse carry the places of those tokens. Places rise along a list, and with them
the faults are in order.
-/

namespace Quill

set_option autoImplicit false

def Labels.places (tokens : List Token) (finish : Token) : Labels where
  span := id
  line := fun place => (tokens.getD place finish).line
  shift := 0

namespace Grammar

def indexed (tokens : List Token) : List Token :=
  tokens.mapIdx fun place token => { token with line := place }

/-- The faults of a parse, each with the place of the token that it points to for a line. The
end of a list without an end mark has the place behind the last token. -/
def offences (tokens : List Token) (finish : Token) : List (Located Fault) :=
  (parse (indexed tokens) { finish with line := tokens.length }).faults

section Places

variable (tokens : List Token) (finish : Token)

theorem indexed_relabel :
    (indexed tokens).map (Token.relabel (Labels.places tokens finish)) = tokens := by
  refine List.ext_getElem (by simp [indexed]) fun place within inside => ?_
  simp only [indexed, List.getElem_map, List.getElem_mapIdx, Token.relabel, Labels.places,
    List.getD_eq_getElem _ _ inside]
  rfl

/-- The faults of a parse are those at the places, with the lines of the tokens there. So faults on
one line are still told apart by their places. -/
theorem faults_offences :
    (parse tokens finish).faults =
      (offences tokens finish).map (Located.relabel (Labels.places tokens finish)) := by
  have last : ({ finish with line := tokens.length } : Token).relabel
      (Labels.places tokens finish) = finish := by
    simp only [Token.relabel, Labels.places, List.getD_eq_default _ _ (Nat.le_refl _)]
    rfl
  have relabelled := parse_relabel (Labels.places tokens finish) rfl (indexed tokens)
    { finish with line := tokens.length }
  rw [indexed_relabel, last] at relabelled
  exact congrArg Parse.faults relabelled

theorem indexed_append :
    indexed tokens ++ [{ finish with line := tokens.length }] = indexed (tokens ++ [finish]) := by
  simp [indexed]

theorem indexed_ascending :
    (Cursor.start (indexed tokens) { finish with line := tokens.length }).Ascending := by
  have rising : (indexed (tokens ++ [finish])).Pairwise fun early late =>
      early.line < late.line := by
    refine List.pairwise_iff_getElem.2 fun early late _ _ before => ?_
    simp only [indexed, List.getElem_mapIdx]
    exact before
  rw [← indexed_append] at rising
  exact rising.sublist (start_front _ _).sublist

theorem indexed_line {tokens : List Token} {token : Token} {place : Nat}
    (found : (indexed tokens)[place]? = some token) : token.line = place := by
  rw [indexed, List.getElem?_mapIdx] at found
  obtain ⟨other, -, rfl⟩ := Option.map_eq_some_iff.1 found
  rfl

include finish in
theorem before_end_indexed : (beforeEnd (indexed tokens)).length = (beforeEnd tokens).length := by
  have kinds : (fun token : Token => decide (token.kind ≠ .endOfInput)) ∘
      Token.relabel (Labels.places tokens finish) =
        fun token => decide (token.kind ≠ .endOfInput) := rfl
  have relabelled : (beforeEnd (indexed tokens)).map (Token.relabel (Labels.places tokens finish)) =
      beforeEnd ((indexed tokens).map (Token.relabel (Labels.places tokens finish))) := by
    unfold beforeEnd
    rw [List.takeWhile_map, kinds]
  rw [indexed_relabel] at relabelled
  rw [← relabelled, List.length_map]

theorem indexed_finish :
    (Cursor.start (indexed tokens) { finish with line := tokens.length }).finish.line =
      (beforeEnd tokens).length := by
  obtain ⟨later, whole⟩ := start_front (indexed tokens) { finish with line := tokens.length }
  rw [indexed_append] at whole
  have last : (indexed (tokens ++ [finish]))[(beforeEnd (indexed tokens)).length]? =
      some (Cursor.start (indexed tokens) { finish with line := tokens.length }).finish := by
    rw [← whole, List.append_assoc]
    change (beforeEnd (indexed tokens) ++ _)[_]? = _
    rw [List.getElem?_append_right (Nat.le_refl _), Nat.sub_self]
    rfl
  rw [indexed_line last, before_end_indexed tokens finish]

theorem offences_ordered : Ordered (beforeEnd tokens).length (offences tokens finish) ∧
    ∀ offence ∈ offences tokens finish, offence.line ≤ (beforeEnd tokens).length := by
  let start := Cursor.start (indexed tokens) { finish with line := tokens.length }
  have clean : Near start := ⟨.nil, fun fault member => absurd member List.not_mem_nil⟩
  obtain ⟨stmts, stop, run, neat⟩ := program_neat (indexed_ascending tokens finish) clean
  have moved := advances_closed.program.of_ok run
  have recorded : offences tokens finish = stop.faults := by
    unfold offences parse
    rw [run]
  have closing : stop.finish.line = (beforeEnd tokens).length :=
    (congrArg Token.line moved.finish).trans (indexed_finish tokens finish)
  have inside := peek_le_finish (moved.ascending (indexed_ascending tokens finish))
  rw [recorded, ← closing]
  exact ⟨neat.ordered, fun offence member => Nat.le_trans (neat.near.reached_le member) inside⟩

end Places

end Grammar

section Lines

open Lexer (Segment placed joined joined_append joined_cons mem_placed past_line tokens_segments
  end_token placed_not_end)

def Rising (tokens : List Token) : Prop :=
  tokens.Pairwise fun early late => early.line ≤ late.line

theorem placed_line {position : Lexer.Position} {segments : List Segment} {token : Token}
    (member : token ∈ placed position segments) :
    position.line ≤ token.line ∧ token.line ≤ (position.past (joined segments)).line := by
  obtain ⟨front, segment, back, rfl, given⟩ := mem_placed member
  rw [segment_line given, joined_append, past_line, past_line, List.count_append]
  omega

theorem placed_rising (position : Lexer.Position) (segments : List Segment) :
    Rising (placed position segments) := by
  induction segments generalizing position with
  | nil => exact .nil
  | cons segment segments induction =>
      rw [placed]
      refine List.pairwise_append.2 ⟨?_, induction _, ?_⟩
      · cases segment.token? position <;> simp
      · intro early here late behind
        rw [segment_line (Option.mem_toList.1 here)]
        have after := (placed_line behind).1
        rw [past_line] at after
        omega

theorem scanned_split {source : String} {tokens : List Token}
    (scans : Lexer.tokens source = .ok tokens) :
    tokens = Grammar.beforeEnd tokens ++ [Token.endOf source.toList] := by
  obtain ⟨segments, -, rfl⟩ := tokens_segments scans
  rw [Grammar.before_end_ended (end_of_kind source.toList) fun token => placed_not_end]

theorem scanned_rising {source : String} {tokens : List Token}
    (scans : Lexer.tokens source = .ok tokens) : Rising tokens := by
  obtain ⟨segments, split, rfl⟩ := tokens_segments scans
  refine List.pairwise_append.2 ⟨placed_rising .start segments, List.pairwise_singleton _ _, ?_⟩
  intro early member late last
  rw [List.mem_singleton.1 last, ← end_token]
  change early.line ≤ (Lexer.Position.start.past source.toList).line
  rw [split]
  exact (placed_line member).2

end Lines

/-- The faults of a parse are in the order of the tokens that they point to. No token is pointed to
twice, but for the end of the input. -/
structure SourceOrder (source : String) (tokens : List Token)
    (faults offences : List (Located Grammar.Fault)) : Prop where
  /-- Each fault is on the line of the token at its place in the list. -/
  pointed : List.Forall₂ (fun fault offence => fault.cause = offence.cause ∧
    ∃ token, tokens[offence.line]? = some token ∧ fault.line = token.line) faults offences
  /-- The places do not fall, and only the end mark is pointed to more than once. -/
  ordered : offences.Pairwise fun early late => early.line ≤ late.line ∧
    (early.line = late.line →
      ∃ token, tokens[early.line]? = some token ∧ token.kind = .endOfInput)
  rising : faults.Pairwise fun early late => early.line ≤ late.line
  onLines : ∀ fault ∈ faults, OnLine source fault.line

/-- A source that scans is parsed, and its faults are reported in the order of the source. Each
stands on the line of the token that it is charged to, and only the end of the source may have
several. -/
theorem faults_in_source_order {source : String} {tokens : List Token}
    (scans : Lexer.tokens source = .ok tokens) :
    ∃ parsed, Program.parse source = .ok parsed ∧
      SourceOrder source tokens parsed.faults
        (Grammar.offences tokens (Token.endOf source.toList)) ∧
      ∀ diagnostic ∈ Program.parseDiagnostics parsed, diagnostic.stage? = some .parse := by
  obtain ⟨finish, ending⟩ : ∃ finish, finish = Token.endOf source.toList := ⟨_, rfl⟩
  have closed : finish.kind = .endOfInput := by rw [ending, end_of_kind]
  have whole := scanned_split scans
  rw [← ending] at whole ⊢
  have parses : Program.parse source = .ok (Grammar.parse tokens finish) := by
    rw [ending]
    exact Program.parse_of_tokens scans
  obtain ⟨ordered, within⟩ := Grammar.offences_ordered tokens finish
  have last : tokens[(Grammar.beforeEnd tokens).length]? = some finish := by
    have behind : (Grammar.beforeEnd tokens ++ [finish])[(Grammar.beforeEnd tokens).length]? =
        some finish := by simp
    rwa [← whole] at behind
  have inside {offence : Located Grammar.Fault}
      (member : offence ∈ Grammar.offences tokens finish) : offence.line < tokens.length :=
    Nat.lt_of_le_of_lt (within offence member) (List.getElem?_eq_some_iff.1 last).1
  refine ⟨_, parses, ⟨?_, ?_, ?_, parse_faults_on_lines parses⟩, ?_⟩
  · rw [Grammar.faults_offences]
    refine List.forall₂_map_left_iff.2 (List.forall₂_same.2 fun offence member => ⟨rfl, ?_⟩)
    have bound := inside member
    refine ⟨tokens[offence.line], List.getElem?_eq_getElem bound, ?_⟩
    exact congrArg Token.line (List.getD_eq_getElem _ _ bound)
  · refine ordered.imp fun {early late} before => ?_
    rcases before with above | ⟨earlyLast, lateLast⟩
    · exact ⟨Nat.le_of_lt above, fun same => absurd same (Nat.ne_of_lt above)⟩
    · refine ⟨Nat.le_of_eq (earlyLast.trans lateLast.symm), fun _ => ⟨finish, ?_, closed⟩⟩
      rw [earlyLast]
      exact last
  · rw [Grammar.faults_offences]
    refine List.pairwise_map.2 (ordered.imp_of_mem fun {early late} earlier later before => ?_)
    simp only [Located.relabel, Labels.places,
      List.getD_eq_getElem _ _ (inside earlier), List.getD_eq_getElem _ _ (inside later)]
    rcases before with above | ⟨earlyLast, lateLast⟩
    · exact List.pairwise_iff_getElem.1 (scanned_rising scans) _ _ _ _ above
    · simp only [earlyLast, lateLast, Nat.le_refl]
  · intro diagnostic member
    obtain ⟨fault, -, rfl⟩ := List.mem_map.1 member
    rfl

/-- An assignment to a number, a missing semicolon and two blocks that are not closed. -/
def tangled : String := "\x7b \x7b\n1 = 2;\na b"

theorem faults_in_source_order_tangled :
    ∃ tokens parsed, Lexer.tokens tangled = .ok tokens ∧ Program.parse tangled = .ok parsed ∧
      parsed.faults.map Located.line = [2, 3, 3, 3] ∧
      (Grammar.offences tokens (Token.endOf tangled.toList)).map Located.line = [3, 7, 8, 8] ∧
      SourceOrder tangled tokens parsed.faults
        (Grammar.offences tokens (Token.endOf tangled.toList)) := by
  have seen : (Lexer.tokens tangled).toOption.map (fun tokens =>
      ((Grammar.parse tokens (Token.endOf tangled.toList)).faults.map Located.line,
        (Grammar.offences tokens (Token.endOf tangled.toList)).map Located.line)) =
      some ([2, 3, 3, 3], [3, 7, 8, 8]) := by decide +kernel
  cases scans : Lexer.tokens tangled with
  | error fault =>
      rw [scans] at seen
      cases seen
  | ok tokens =>
      rw [scans] at seen
      obtain ⟨lines, places⟩ := Prod.mk.inj (Option.some.inj seen)
      obtain ⟨parsed, parses, ordered, -⟩ := faults_in_source_order scans
      refine ⟨tokens, parsed, rfl, parses, ?_, places, ordered⟩
      rw [Program.parse_of_tokens scans] at parses
      cases parses
      exact lines

end Quill
