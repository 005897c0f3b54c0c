import Quill.Proofs.Layout.Reading
import Quill.Proofs.Layout.Walking
import Quill.Proofs.Token.Lossless
import Quill.Proofs.Tree.Formed

/-!
The lines of a source. Tokens stand on lines that the source has, and so does every fault that is
found before the program runs. For faults of the parser and of the resolver this needs no look at
their rules. Neither of them looks at lines, so a change to the lines of the tokens is passed on to
the faults, and the change that moves all other lines into the source leaves the tokens alone.
-/

namespace Quill

set_option autoImplicit false

open Lexer (newlineBytes newline_bytes_front Segment placed joined joined_append joined_cons
  mem_placed past_line tokens_segments end_token)

def OnLine (source : String) (line : Nat) : Prop :=
  1 ≤ line ∧ line ≤ 1 + newlineBytes source source.utf8ByteSize

theorem newline_bytes_source (source : String) :
    newlineBytes source source.utf8ByteSize = source.toList.count '\n' := by
  rw [← Text.byte_length_source]
  exact newline_bytes_front (List.append_nil _).symm

theorem on_line_behind {source : String} {front rest : List Char}
    (split : source.toList = front ++ rest) : OnLine source (1 + front.count '\n') := by
  refine ⟨Nat.le_add_right _ _, ?_⟩
  rw [newline_bytes_source, split, List.count_append]
  omega

theorem segment_line {segment : Segment} {position : Lexer.Position} {token : Token}
    (given : segment.token? position = some token) : token.line = position.line := by
  cases segment with
  | filler layout => cases given
  | remark body oneLine => cases given
  | word kind text spells | quoted body unquoted =>
      cases given
      rfl

theorem end_on_line (source : String) : OnLine source (Token.endOf source.toList).line := by
  rw [← end_token]
  change OnLine source (Lexer.Position.start.past source.toList).line
  rw [past_line]
  exact on_line_behind (List.append_nil _).symm

theorem tokens_on_lines {source : String} {tokens : List Token}
    (scans : Lexer.tokens source = .ok tokens) : ∀ token ∈ tokens, OnLine source token.line := by
  obtain ⟨segments, split, rfl⟩ := tokens_segments scans
  intro token member
  rcases List.mem_append.1 member with inside | last
  · obtain ⟨front, segment, back, rfl, given⟩ := mem_placed inside
    rw [segment_line given, past_line]
    apply on_line_behind
    rw [split, joined_append]
  · rw [List.mem_singleton.1 last]
    exact end_on_line source

theorem scan_fault_on_line {source : String} {fault : Located Lexer.Fault}
    (fails : Lexer.tokens source = .error fault) : OnLine source fault.line := by
  obtain ⟨segments, rest, split, outcome⟩ := Lexer.scan_from_segments .start source.toList
  unfold Lexer.tokens Lexer.scan at fails
  rcases outcome with ⟨-, scanned⟩ | ⟨cause, -, scanned⟩
  · rw [scanned] at fails
    cases fails
  · rw [scanned] at fails
    cases fails
    simp only [past_line]
    exact on_line_behind split

/-- All tokens that nodes of a program hold stand on lines of its source. -/
theorem nodes_on_lines {source : String} {parsed : Grammar.Parse}
    (parses : Program.parse source = .ok parsed) :
    Node.AllWellFormed (fun token => OnLine source token.line) (bodyNodes parsed.statements) := by
  obtain ⟨tokens, scans, rfl⟩ := parse_scans parses
  obtain ⟨next, forms⟩ := Grammar.parse_forms tokens (end_of_kind source.toList)
  exact forms.well_formed fun token member =>
    tokens_on_lines scans token (List.takeWhile_subset _ member)

def Labels.within (source : String) : Labels where
  span := id
  line := fun line => max 1 (min line (1 + newlineBytes source source.utf8ByteSize))
  shift := 0

theorem within_on_line (source : String) (line : Nat) :
    OnLine source ((Labels.within source).line line) := by
  unfold OnLine Labels.within
  simp only
  omega

theorem within_fixed {source : String} {token : Token} (onLine : OnLine source token.line) :
    token.relabel (.within source) = token := by
  obtain ⟨lower, upper⟩ := onLine
  have same : (Labels.within source).line token.line = token.line := by
    unfold Labels.within
    simp only
    omega
  unfold Token.relabel
  rw [same]
  rfl

/-- Faults that stay the same when their lines are moved into the source are on its lines. -/
theorem faults_on_lines {Cause : Type} {source : String} {faults : List (Located Cause)}
    (fixed : faults.map (Located.relabel (.within source)) = faults) :
    ∀ fault ∈ faults, OnLine source fault.line := by
  intro fault member
  rw [← fixed] at member
  obtain ⟨other, -, rfl⟩ := List.mem_map.1 member
  exact within_on_line source other.line

theorem parse_within {source : String} {parsed : Grammar.Parse}
    (parses : Program.parse source = .ok parsed) : parsed.relabel (.within source) = parsed := by
  obtain ⟨tokens, scans, rfl⟩ := parse_scans parses
  have fixed : tokens.map (Token.relabel (.within source)) = tokens := by
    refine List.map_congr_left (fun token member => ?_) |>.trans (List.map_id tokens)
    exact within_fixed (tokens_on_lines scans token member)
  rw [← Grammar.parse_relabel _ rfl, fixed, within_fixed (end_on_line source)]

theorem parse_faults_on_lines {source : String} {parsed : Grammar.Parse}
    (parses : Program.parse source = .ok parsed) :
    ∀ fault ∈ parsed.faults, OnLine source fault.line :=
  faults_on_lines (congrArg Grammar.Parse.faults (parse_within parses))

theorem resolve_faults_on_lines {source : String} {parsed : Grammar.Parse}
    (parses : Program.parse source = .ok parsed) {faults : List (Located Scope.Fault)}
    (refused : Scope.resolve parsed.statements = .error faults) :
    ∀ fault ∈ faults, OnLine source fault.line := by
  have statements : relabelStmts (.within source) parsed.statements = parsed.statements :=
    congrArg Grammar.Parse.statements (parse_within parses)
  have moved := Scope.resolve_relabel (.within source) rfl parsed.statements
  rw [statements, refused] at moved
  exact faults_on_lines (Except.error.inj moved).symm

end Quill
