import Quill.Proofs.Layout.Meaning
import Quill.Proofs.Token.Lossless

/-!
Writing tokens out again. Each token is written as its text, a string between quotes, and
layout stands between any two of them. Scanning what was written gives the same words back,
whatever the layout: a word that was once read is a segment, and a segment is recognised
wherever layout or nothing follows it.
-/

namespace Quill

set_option autoImplicit false

def Token.written (token : Token) : List Char :=
  if token.kind = .string then '\x22' :: token.lexeme.toList ++ ['\x22'] else token.lexeme.toList

namespace Lexer

def gapText (gap : List Filler) : List Char := gap.flatMap Filler.text

@[simp] theorem gap_text_nil : gapText [] = [] := rfl

@[simp] theorem gap_text_cons (filler : Filler) (gap : List Filler) :
    gapText (filler :: gap) = filler.text ++ gapText gap := rfl

def rendered : List (Token × List Filler) → List Char
  | [] => []
  | (token, gap) :: rows => token.written ++ gapText gap ++ rendered rows

theorem gap_loose {gap : List Filler} (present : gap ≠ []) (rest : List Char) :
    Loose (gapText gap ++ rest) := by
  obtain ⟨filler, gap, rfl⟩ := List.exists_cons_of_ne_nil present
  intro char isHead
  cases filler with
  | blank blank isBlank =>
      have same : blank = char := by simpa [gapText, Filler.text] using isHead
      rw [← same, isLayout, isBlank, Bool.true_or]
  | comment body oneLine =>
      have same : '#' = char := by simpa [gapText, Filler.text] using isHead
      rw [← same]
      decide

/-- Segments in a row that are recognised as they stand: layout or nothing follows a word. Without
this two words could be taken for one. -/
def Separated : List Segment → Prop
  | [] => True
  | segment :: segments =>
      (∀ kind word spells, segment = .word kind word spells → Loose (joined segments)) ∧
        (∀ body oneLine, segment ≠ .remark body oneLine) ∧ Separated segments

theorem scan_separated (position : Position) {segments : List Segment}
    (separated : Separated segments) :
    scanFrom position 0 (joined segments) =
      ⟨placed position segments ++ [(position.past (joined segments)).token .endOfInput 0 []], none⟩ := by
  induction segments generalizing position with
  | nil => rfl
  | cons segment segments induction =>
      obtain ⟨loose, noRemark, others⟩ := separated
      obtain ⟨char, rest, isText⟩ := List.exists_cons_of_ne_nil (segment_ne_nil segment)
      have split : char :: (rest ++ joined segments) = segment.text ++ joined segments := by
        rw [isText, List.cons_append]
      have piece := segment_piece split loose fun body oneLine same =>
        absurd same (noRemark body oneLine)
      rw [joined_cons, ← split, scan_from_segment position split piece, induction _ others, split,
        past_append, placed, List.append_assoc]
      rfl

theorem placed_gap (position : Position) (gap : List Filler) (segments : List Segment) :
    placed position (gap.map .filler ++ segments) = placed (position.past (gapText gap)) segments := by
  induction gap generalizing position with
  | nil => rfl
  | cons filler gap induction =>
      rw [List.map_cons, List.cons_append, placed, induction, gap_text_cons, past_append]
      rfl

theorem joined_gap (gap : List Filler) : joined (gap.map .filler) = gapText gap := by
  rw [joined, List.flatMap_map]
  rfl

theorem separated_gap (gap : List Filler) {segments : List Segment} (separated : Separated segments) :
    Separated (gap.map .filler ++ segments) := by
  induction gap with
  | nil => exact separated
  | cons filler gap induction => exact ⟨by simp, by simp, induction⟩

/-- `Restores segment token`: the segment is the token as it is written, and gives its word. -/
structure Restores (segment : Segment) (token : Token) : Prop where
  text : segment.text = token.written
  whole : ∀ body oneLine, segment ≠ .remark body oneLine
  words : ∀ position, wordsOf (segment.token? position).toList = wordsOf [token]

theorem placed_restored {position : Position} {segments : List Segment} {token : Token}
    (member : token ∈ placed position segments) : ∃ segment, Restores segment token := by
  obtain ⟨front, segment, back, -, given⟩ := mem_placed member
  refine ⟨segment, ?_⟩
  cases segment with
  | filler layout => cases given
  | remark body oneLine => cases given
  | word kind text spells =>
      cases given
      constructor
      · simp [Segment.text, Token.written, Position.token, (spells_kind spells).2]
      · simp
      · intro position
        rfl
  | quoted body unquoted =>
      cases given
      constructor
      · simp [Segment.text, Token.written, Position.token]
      · simp
      · intro position
        rfl

theorem words_append (front back : List Token) :
    wordsOf (front ++ back) = wordsOf front ++ wordsOf back := List.map_append

/-- What is written is a row of separated segments that gives the same words. -/
theorem rendered_segments (rows : List (Token × List Filler))
    (restored : ∀ row ∈ rows, ∃ segment, Restores segment row.1)
    (apart : ∀ row ∈ rows.dropLast, row.2 ≠ []) :
    ∃ segments, joined segments = rendered rows ∧ Separated segments ∧
      ∀ position, wordsOf (placed position segments) = wordsOf (rows.map Prod.fst) := by
  induction rows with
  | nil => exact ⟨[], rfl, True.intro, fun _ => rfl⟩
  | cons row rows induction =>
      obtain ⟨token, gap⟩ := row
      have laterApart : ∀ row ∈ rows.dropLast, row.2 ≠ [] := by
        intro row member
        apply apart
        cases rows with
        | nil => cases member
        | cons next rows => exact List.mem_cons_of_mem _ member
      obtain ⟨segments, isJoined, separated, words⟩ :=
        induction (fun row member => restored row (List.mem_cons_of_mem _ member)) laterApart
      obtain ⟨segment, restores⟩ := restored (token, gap) List.mem_cons_self
      -- Only the last token may be followed by nothing at all.
      have loose : Loose (gapText gap ++ rendered rows) := by
        cases rows with
        | nil =>
            by_cases none : gap = []
            · rw [none]
              intro char isHead
              cases isHead
            · exact gap_loose none _
        | cons next rows => exact gap_loose (apart (token, gap) List.mem_cons_self) _
      refine ⟨segment :: (gap.map .filler ++ segments), ?_, ⟨?_, restores.whole, ?_⟩, ?_⟩
      · rw [joined_cons, joined_append, joined_gap, isJoined, restores.text, rendered,
          List.append_assoc]
      · intro kind word spells isWord
        rw [joined_append, joined_gap, isJoined]
        exact loose
      · exact separated_gap gap separated
      · intro position
        rw [placed, words_append, restores.words, placed_gap, words, ← words_append]
        rfl

theorem tokens_placed {source : String} {tokens : List Token}
    (scans : Lexer.tokens source = .ok tokens) :
    ∃ segments, tokens.filter (·.kind != .endOfInput) = placed .start segments := by
  obtain ⟨segments, -, rfl⟩ := tokens_segments scans
  have ends : (Token.endOf source.toList).kind = .endOfInput := rfl
  have kept : (placed .start segments).filter (·.kind != .endOfInput) = placed .start segments := by
    rw [List.filter_eq_self]
    intro token member
    simpa using placed_not_end member
  refine ⟨segments, ?_⟩
  rw [List.filter_append, kept]
  simp [ends]

/-- Tokens that were scanned, written out with any gaps that keep them apart, scan to the
same kinds and texts again. -/
theorem rendering_rescans {source : String} {tokens : List Token}
    (scans : Lexer.tokens source = .ok tokens) (lead : List Filler)
    (rows : List (Token × List Filler))
    (written : rows.map Prod.fst = tokens.filter (·.kind != .endOfInput))
    (apart : ∀ row ∈ rows.dropLast, row.2 ≠ []) :
    ∃ again, Lexer.tokens (String.ofList (gapText lead ++ rendered rows)) =
        .ok (again ++ [Token.endOf (gapText lead ++ rendered rows)]) ∧
      wordsOf again = wordsOf (tokens.filter (·.kind != .endOfInput)) := by
  obtain ⟨found, isFound⟩ := tokens_placed scans
  have restored : ∀ row ∈ rows, ∃ segment, Restores segment row.1 := by
    intro row member
    have isToken : row.1 ∈ rows.map Prod.fst := List.mem_map_of_mem member
    rw [written, isFound] at isToken
    exact placed_restored isToken
  obtain ⟨segments, isJoined, separated, words⟩ := rendered_segments rows restored apart
  have text : joined (lead.map .filler ++ segments) = gapText lead ++ rendered rows := by
    rw [joined_append, joined_gap, isJoined]
  have scanned := scan_separated .start (separated_gap lead separated)
  rw [text, end_token] at scanned
  refine ⟨placed .start (lead.map .filler ++ segments), ?_, ?_⟩
  · unfold Lexer.tokens scan
    rw [String.toList_ofList, scanned]
  · rw [placed_gap, words, written]

/-- Tokens that touch each other wherever they can. The signs before the number are two, since no
separator follows them, and those at the end are one operator. -/
def dense : String := "a==1.b\"#\">="

def airing : List (List Filler) :=
  [[.comment ['='] (by decide)], [.blank ' ' rfl], [.blank '\t' rfl, .blank '\n' rfl],
    [.blank ' ' rfl], [.comment [] (by decide), .blank '\r' rfl], [.blank ' ' rfl],
    [.comment ['\x22'] (by decide)], []]

theorem rendering_rescans_dense :
    ∃ tokens rows, Lexer.tokens dense = .ok tokens ∧
      rows.map Prod.fst = tokens.filter (·.kind != .endOfInput) ∧
      (∀ row ∈ rows.dropLast, row.2 ≠ []) ∧
      String.ofList (gapText [.blank ' ' rfl] ++ rendered rows) =
        " a#=\n= =\t\n1 .#\n\rb \"#\"#\"\n>=" ∧
      ∃ again, Lexer.tokens (String.ofList (gapText [.blank ' ' rfl] ++ rendered rows)) =
          .ok (again ++ [Token.endOf (gapText [.blank ' ' rfl] ++ rendered rows)]) ∧
        wordsOf again = wordsOf (tokens.filter (·.kind != .endOfInput)) := by
  have scans := Lexer.tokens_of_scan dense (by decide +kernel)
  have written : (((scan dense).tokens.filter (·.kind != .endOfInput)).zip airing).map Prod.fst =
      (scan dense).tokens.filter (·.kind != .endOfInput) := by decide +kernel
  have apart : ∀ row ∈ (((scan dense).tokens.filter (·.kind != .endOfInput)).zip airing).dropLast,
      row.2 ≠ [] := by decide +kernel
  exact ⟨_, _, scans, written, apart, by decide +kernel,
    rendering_rescans scans [.blank ' ' rfl] _ written apart⟩

end Lexer

end Quill
