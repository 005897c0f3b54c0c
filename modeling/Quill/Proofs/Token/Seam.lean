import Quill.Proofs.Layout.Relabel
import Quill.Proofs.Token.Lossless

/-!
Sources one below the other. Only comments and strings reach the end of a line, and a string
that a source opens it must close: so a newline behind a source that scans separates it from
whatever follows. Both are scanned as each is by itself, the second one further on.
-/

namespace Quill.Lexer

set_option autoImplicit false

open Text (byteLength)

section Lines

theorem take_while_before {property : Char → Bool} {stop : Char} (stops : property stop = false)
    (text more : List Char) :
    (text ++ stop :: more).takeWhile property = text.takeWhile property := by
  induction text with
  | nil => simp [stops]
  | cons char text induction => simp only [List.cons_append, List.takeWhile_cons, induction]

theorem digits_before_newline (text more : List Char) :
    Extent.digits (text ++ '\n' :: more) = Extent.digits text := by
  rw [Extent.digits, take_while_before (by decide), Extent.digits]

theorem starts_before_newline (text more : List Char) :
    Extent.startsWithDigit (text ++ '\n' :: more) = Extent.startsWithDigit text := by
  cases text with
  | nil => rfl
  | cons char text => rfl

theorem drop_digits_before_newline (text more : List Char) :
    (text ++ '\n' :: more).drop (Extent.digits text) =
      text.drop (Extent.digits text) ++ '\n' :: more :=
  List.drop_append_of_le_length (List.takeWhile_sublist _).length_le

/-- A number is recognised before the end of its line. Where it ends is told by a point and by the
character behind it, and a newline is neither a point nor a digit. -/
theorem number_before_newline (text more : List Char) :
    Extent.number? (text ++ '\n' :: more) = Extent.number? text := by
  unfold Extent.number?
  simp only [digits_before_newline, drop_digits_before_newline]
  cases text.drop (Extent.digits text) with
  | nil => rfl
  | cons point behind =>
      by_cases isPoint : point = '.'
      case neg => simp [isPoint]
      subst isPoint
      cases behind with
      -- A point at the end of the line belongs to no numeral, with or without more behind it.
      | nil => rfl
      | cons char rest =>
          by_cases doubled : char = '.'
          case pos => simp only [doubled, List.cons_append, starts_before_newline]
          have digits := digits_before_newline (char :: rest) more
          have dropped := drop_digits_before_newline (char :: rest) more
          rw [List.cons_append] at digits dropped
          simp only [List.cons_append, List.cons.injEq, doubled, false_and, imp_self,
            implies_true, digits, dropped]
          cases (char :: rest).drop (Extent.digits (char :: rest)) with
          | nil => rfl
          | cons further excess =>
              by_cases third : further = '.'
              · simp only [third, List.cons_append, starts_before_newline]
              · simp [third]

theorem word_before_newline (text more : List Char) :
    Extent.word (text ++ '\n' :: more) = Extent.word text := by
  rw [Extent.word, take_while_before (by decide), Extent.word]

theorem stands_alone_before_newline {second : Char} (layout : isLayout second = false)
    (char : Char) (rest more : List Char) :
    Extent.standsAlone [char, second] (char :: (rest ++ '\n' :: more)) =
      Extent.standsAlone [char, second] (char :: rest) := by
  have notNewline : second ≠ '\n' := by
    rintro rfl
    revert layout
    decide
  match rest with
  | [] => simp [Extent.standsAlone, notNewline]
  | [_] =>
      have separates : Extent.isSeparator '\n' = true := by decide
      simp [Extent.standsAlone, List.isPrefixOf, separates]
  | _ :: _ :: _ => simp [Extent.standsAlone, List.isPrefixOf]

/-- A token other than a string is recognised before the end of its line: nothing that the lexer
looks at to find its kind and its end lies behind a newline. -/
theorem piece_before_newline {char : Char} {rest : List Char} {kind : Kind} {size : Nat}
    (piece : Piece.ofText char rest = .token kind size) (more : List Char) :
    Piece.ofText char (rest ++ '\n' :: more) = .token kind size := by
  rw [← piece]
  unfold Piece.ofText at piece ⊢
  split at piece
  next => cases piece
  next blank =>
  split at piece
  next => cases piece
  next comment =>
  split at piece
  next => split at piece <;> cases piece
  next quote =>
  simp only [if_neg blank, if_neg comment, if_neg quote]
  split
  next =>
    rw [← List.cons_append, number_before_newline]
  cases punctuation.lookup char with
  | some mark => rfl
  | none =>
      cases found : operators.lookup char with
      | some operator =>
          simp only [Piece.ofOperator]
          rw [stands_alone_before_newline (operators_sign found).2.2]
      | none =>
          have shorter : Extent.word (char :: rest) ≤ (char :: rest).length := Extent.word_le _
          simp only [Piece.ofWord]
          rw [← List.cons_append, word_before_newline, List.take_append_of_le_length shorter]

theorem segment_before_newline {segment : Segment} {char : Char} {rest after : List Char}
    (split : char :: rest = segment.text ++ after) (piece : Piece.ofText char rest = segment.piece)
    (whole : ∀ body oneLine, segment ≠ .remark body oneLine) (more : List Char) :
    Piece.ofText char (rest ++ '\n' :: more) = segment.piece := by
  have extended : char :: (rest ++ '\n' :: more) = segment.text ++ (after ++ '\n' :: more) := by
    rw [← List.cons_append, split, List.append_assoc]
  cases segment with
  | filler layout => exact segment_piece extended (by simp) (by simp)
  | remark body oneLine => exact absurd rfl (whole body oneLine)
  | word kind text spells => exact piece_before_newline piece more
  | quoted body unquoted => exact segment_piece extended (by simp) (by simp)

end Lines

/-- A text that scans is scanned the same before a newline, and what follows is scanned behind
it. Only the comment that the end of the text cuts off takes the newline. -/
theorem scan_from_before_newline (position : Position) {text : List Char}
    (scans : (scanFrom position 0 text).fault = none) (more : List Char) :
    ∃ segments, scanFrom position 0 text =
        ⟨placed position segments ++ [(position.past text).token .endOfInput 0 []], none⟩ ∧
      scanFrom position 0 (text ++ '\n' :: more) =
        (scanFrom (position.past (text ++ ['\n'])) 0 more).behind (placed position segments) := by
  -- The induction is on the length, segment by segment, as the lexer takes them.
  induction length : text.length using Nat.strong_induction_on generalizing position text with
  | _ size induction =>
  cases text with
  | nil =>
      have blank : Piece.ofText '\n' more = (Segment.filler (.blank '\n' (by decide))).piece := by
        rw [Piece.ofText, if_pos (by decide)]
        rfl
      exact ⟨[], rfl, scan_from_segment position rfl blank⟩
  | cons char text =>
      rcases piece_cases char text with ⟨segment, after, split, last, piece⟩ | ⟨fault, -, piece⟩
      case inr =>
        rw [scanFrom, piece] at scans
        cases scans
      have first := scan_from_segment position split piece
      by_cases whole : ∀ body oneLine, segment ≠ .remark body oneLine
      · have shorter : after.length < size := by
          have present := List.length_pos_iff.2 (segment_ne_nil segment)
          rw [← length, split, List.length_append]
          omega
        have extended : char :: (text ++ '\n' :: more) =
            segment.text ++ (after ++ '\n' :: more) := by
          rw [← List.cons_append, split, List.append_assoc]
        have scansAfter : (scanFrom (position.past segment.text) 0 after).fault = none := by
          rwa [first] at scans
        obtain ⟨segments, alone, before⟩ := induction _ shorter _ scansAfter rfl
        refine ⟨segment :: segments, ?_, ?_⟩
        · rw [first, alone, split, past_append, placed, List.append_assoc]
          rfl
        · rw [List.cons_append, scan_from_segment position extended
            (segment_before_newline split piece whole more), before, split, placed,
            List.append_assoc, past_append position]
          simp [Scan.behind]
      · obtain ⟨body, oneLine, rfl⟩ : ∃ body oneLine, segment = .remark body oneLine := by
          simpa using whole
        cases last body oneLine rfl
        have comment : char :: (text ++ '\n' :: more) =
            (Segment.filler (.comment body oneLine)).text ++ more := by
          rw [← List.cons_append, split]
          simp [Segment.text, Filler.text]
        refine ⟨[], ?_, ?_⟩
        · rw [first, split, List.append_nil]
          rfl
        · rw [List.cons_append,
            scan_from_segment position comment (segment_piece comment (by simp) (by simp)), split,
            List.append_nil]
          rfl

section Moved

variable (bytes lines shift : Nat)

def Position.moved (position : Position) : Position :=
  ⟨position.offset + bytes, position.line + lines⟩

theorem next_moved (position : Position) (char : Char) :
    (position.moved bytes lines).next char = (position.next char).moved bytes lines := by
  simp only [Position.moved, Position.next]
  split
  · simp [Nat.add_right_comm]
  · simp [Nat.add_right_comm]

theorem past_moved (position : Position) (text : List Char) :
    (position.moved bytes lines).past text = (position.past text).moved bytes lines := by
  induction text generalizing position with
  | nil => rfl
  | cons char text induction =>
      change ((position.moved bytes lines).next char).past text = _
      rw [next_moved, induction]
      rfl

theorem token_moved (position : Position) (kind : Kind) (lead : Nat) (lexeme : List Char) :
    (position.moved bytes lines).token kind lead lexeme =
      (position.token kind lead lexeme).relabel (.moved bytes lines shift) := by
  simp [Position.moved, Position.token, Token.relabel, Labels.moved, Nat.add_right_comm]

def Scan.relabel (labels : Labels) (scan : Scan) : Scan :=
  ⟨scan.tokens.map (Token.relabel labels), scan.fault.map (Located.relabel labels)⟩

theorem scan_from_moved (position : Position) (skip : Nat) (text : List Char) :
    scanFrom (position.moved bytes lines) skip text =
      (scanFrom position skip text).relabel (.moved bytes lines shift) := by
  induction text generalizing position skip with
  | nil =>
      simp only [scanFrom, token_moved bytes lines shift]
      rfl
  | cons char text induction =>
      cases skip with
      | succ skip => simp only [scanFrom, next_moved, induction]
      | zero =>
          simp only [scanFrom, next_moved, token_moved bytes lines shift]
          cases Piece.ofText char text with
          | gap size => exact induction _ _
          | token kind size | quoted size =>
              simp only [induction]
              rfl
          | fault cause => rfl

end Moved

theorem past_newline (text : List Char) :
    Position.start.past (text ++ ['\n']) =
      Position.start.moved (byteLength text + 1) (text.count '\n' + 1) := by
  rw [past_append]
  change Position.next _ '\n' = _
  simp only [Position.next, past_offset, past_line, Position.moved]
  rfl

theorem end_below (first second : String) (shift : Nat) :
    Token.endOf (first ++ "\n" ++ second).toList =
      (Token.endOf second.toList).relabel (.below first shift) := by
  have joined : (first ++ "\n" ++ second).toList = (first.toList ++ ['\n']) ++ second.toList := by
    simp
  rw [joined, ← end_token, ← end_token, past_append, past_newline, past_moved, Labels.below,
    ← Text.byte_length_source, ← token_moved]

/-- Two sources that scan, one below the other: the tokens of the second stand further on, by the
bytes and the lines of the first and by the newline between them. -/
theorem tokens_below {first second : String} {tokens others : List Token}
    (scans : Lexer.tokens first = .ok tokens) (scansBelow : Lexer.tokens second = .ok others)
    (shift : Nat) :
    ∃ found later, tokens = found ++ [Token.endOf first.toList] ∧
      others = later ++ [Token.endOf second.toList] ∧
      (∀ token ∈ found ++ later, token.kind ≠ .endOfInput) ∧
      Lexer.tokens (first ++ "\n" ++ second) =
        .ok (found ++ others.map (Token.relabel (.below first shift))) := by
  have joined : (first ++ "\n" ++ second).toList = first.toList ++ '\n' :: second.toList := by
    simp
  rw [tokens_ok, scan] at scans
  obtain ⟨segments, alone, before⟩ :=
    scan_from_before_newline .start (by rw [scans]) second.toList
  obtain ⟨lower, -, rfl⟩ := tokens_segments scansBelow
  refine ⟨placed .start segments, placed .start lower, ?_, rfl, ?_, ?_⟩
  · rw [scans, end_token] at alone
    exact congrArg Scan.tokens alone
  · intro token member
    rcases List.mem_append.1 member with above | below
    · exact placed_not_end above
    · exact placed_not_end below
  · rw [tokens_ok, scan] at scansBelow ⊢
    rw [joined, before, past_newline, scan_from_moved _ _ shift, scansBelow,
      Text.byte_length_source]
    rfl

end Quill.Lexer
