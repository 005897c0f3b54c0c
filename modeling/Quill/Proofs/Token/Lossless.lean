import Quill.Proofs.Text.Bytes
import Quill.Proofs.Token.Pieces

/-!
Scanning loses nothing. A source is a row of segments up to its end or to the place where
the lexer is stuck, and its tokens are those of the segments, each placed where the
segment stands. So the spans of the tokens lie in the source in order, and a byte that no
span covers is layout or the quote of a string.
-/

namespace Quill.Lexer

set_option autoImplicit false

open Text (byteLength bytes byte? Plain)

def Position.past (position : Position) (text : List Char) : Position :=
  text.foldl Position.next position

@[simp] theorem past_offset (position : Position) (text : List Char) :
    (position.past text).offset = position.offset + byteLength text := by
  induction text generalizing position with
  | nil => rfl
  | cons char text induction =>
      calc ((position.next char).past text).offset
          = position.offset + char.utf8Size + byteLength text := induction _
        _ = position.offset + byteLength (char :: text) := Nat.add_assoc _ _ _

@[simp] theorem past_line (position : Position) (text : List Char) :
    (position.past text).line = position.line + text.count '\n' := by
  induction text generalizing position with
  | nil => rfl
  | cons char text induction =>
      have first : ((position.next char).past text).line =
          (position.next char).line + text.count '\n' := induction _
      rw [Position.past, List.foldl_cons, ← Position.past, first, Position.next, List.count_cons]
      by_cases newline : char = '\n'
      · simp [newline]
        omega
      · simp [newline]

theorem past_append (position : Position) (front back : List Char) :
    position.past (front ++ back) = (position.past front).past back := List.foldl_append

namespace Segment

def token? (segment : Segment) (position : Position) : Option Token :=
  match segment with
  | word kind text _ => some (position.token kind 0 text)
  | quoted body _ => some (position.token .string 1 body)
  | _ => none

end Segment

def joined (segments : List Segment) : List Char := segments.flatMap Segment.text

@[simp] theorem joined_nil : joined [] = [] := rfl

@[simp] theorem joined_cons (segment : Segment) (segments : List Segment) :
    joined (segment :: segments) = segment.text ++ joined segments := rfl

@[simp] theorem joined_append (front back : List Segment) :
    joined (front ++ back) = joined front ++ joined back := List.flatMap_append

def placed : Position → List Segment → List Token
  | _, [] => []
  | position, segment :: segments =>
      (segment.token? position).toList ++ placed (position.past segment.text) segments

theorem placed_append (position : Position) (front back : List Segment) :
    placed position (front ++ back) =
      placed position front ++ placed (position.past (joined front)) back := by
  induction front generalizing position with
  | nil => rfl
  | cons segment front induction =>
      rw [List.cons_append, placed, induction, placed, joined_cons, past_append, List.append_assoc]

section Scanning

def Scan.behind (scan : Scan) (tokens : List Token) : Scan :=
  { scan with tokens := tokens ++ scan.tokens }

theorem scan_from_skip (position : Position) (front rest : List Char) :
    scanFrom position front.length (front ++ rest) = scanFrom (position.past front) 0 rest := by
  induction front generalizing position with
  | nil => rfl
  | cons char front induction =>
      rw [List.cons_append, List.length_cons, scanFrom, induction]
      rfl

/-- One segment of a scan: where the lexer recognises the segment at the head of a text, the scan is
that of what stands behind it, with the token of the segment, if it has one, in front. -/
theorem scan_from_segment {segment : Segment} {char : Char} {rest after : List Char}
    (position : Position) (split : char :: rest = segment.text ++ after)
    (piece : Piece.ofText char rest = segment.piece) :
    scanFrom position 0 (char :: rest) =
      (scanFrom (position.past segment.text) 0 after).behind (segment.token? position).toList := by
  obtain ⟨first, others, isText⟩ := List.exists_cons_of_ne_nil (segment_ne_nil segment)
  rw [isText, List.cons_append] at split
  cases split
  have skipped : scanFrom (position.next char) others.length (others ++ after) =
      scanFrom (position.past segment.text) 0 after := by
    rw [scan_from_skip, isText]
    rfl
  have size : segment.text.length - 1 = others.length := by simp [isText]
  rw [scanFrom, piece]
  cases segment with
  | filler layout =>
      simp only [Segment.piece]
      rw [show layout.text.length - 1 = others.length from size, skipped]
      rfl
  | remark body oneLine =>
      have length : body.length + 1 - 1 = others.length := by simpa [Segment.text] using size
      simp only [Segment.piece]
      rw [length, skipped]
      rfl
  | word kind text spells =>
      have taken : (char :: (others ++ after)).take text.length = text := by
        rw [show text = char :: others from isText, ← List.cons_append, List.take_left]
      simp only [Segment.piece]
      rw [show text.length - 1 = others.length from size, skipped, taken]
      rfl
  | quoted body unquoted =>
      have isOthers : others = body ++ ['\x22'] := (List.cons.inj isText).2.symm
      have length : body.length + 2 - 1 = others.length := by simp [isOthers]
      have taken : (others ++ after).take (body.length + 2 - 2) = body := by
        rw [isOthers, List.append_assoc, Nat.add_sub_cancel, List.take_left]
      simp only [Segment.piece]
      rw [length, skipped, taken]
      rfl

/-- A text is a row of segments, and after it nothing or what the lexer is stuck at. The scan is
then told by the row alone: its tokens are those of the segments, each at its place. -/
theorem scan_from_segments (position : Position) (text : List Char) :
    ∃ segments rest, text = joined segments ++ rest ∧
      (rest = [] ∧ scanFrom position 0 text =
          ⟨placed position segments ++ [(position.past text).token .endOfInput 0 []], none⟩ ∨
        ∃ fault, Stuck fault rest ∧ scanFrom position 0 text =
          ⟨placed position segments, some ⟨(position.past (joined segments)).line, fault⟩⟩) := by
  -- The induction is on the length of what is left: a segment is never empty.
  induction length : text.length using Nat.strong_induction_on generalizing position text with
  | _ size induction =>
  cases text with
  | nil => exact ⟨[], [], rfl, .inl ⟨rfl, rfl⟩⟩
  | cons char text =>
      rcases piece_cases char text with ⟨segment, after, split, -, piece⟩ | ⟨fault, stuck, piece⟩
      · have shorter : after.length < size := by
          have present := List.length_pos_iff.2 (segment_ne_nil segment)
          rw [← length, split, List.length_append]
          omega
        obtain ⟨segments, rest, isAfter, outcome⟩ :=
          induction _ shorter (position.past segment.text) after rfl
        refine ⟨segment :: segments, rest, ?_, ?_⟩
        · rw [split, isAfter, joined_cons, List.append_assoc]
        · rw [scan_from_segment position split piece]
          rcases outcome with ⟨finished, scanned⟩ | ⟨fault, stuck, scanned⟩
          · refine .inl ⟨finished, ?_⟩
            rw [scanned, split, past_append, placed, List.append_assoc]
            rfl
          · refine .inr ⟨fault, stuck, ?_⟩
            rw [scanned, joined_cons, past_append]
            rfl
      · refine ⟨[], char :: text, rfl, .inr ⟨fault, stuck, ?_⟩⟩
        rw [scanFrom, piece]
        rfl

end Scanning

section Iteration

/-- A scan that is asked for one item after the other. It has finished once it has given the
end of the source or a fault. -/
structure Scanner where
  position : Position
  rest : List Char
  finished : Bool

namespace Scanner

def start (source : String) : Scanner := ⟨.start, source.toList, false⟩

def pass (scanner : Scanner) (size : Nat) : Scanner where
  position := scanner.position.past (scanner.rest.take size)
  rest := scanner.rest.drop size
  finished := false

def turn (scanner : Scanner) : Option (Except (Located Fault) Token) × Scanner :=
  if scanner.finished then (none, scanner)
  else
    match scanner.rest with
    | [] =>
        (some (.ok (scanner.position.token .endOfInput 0 [])), { scanner with finished := true })
    | char :: rest =>
        match Piece.ofText char rest with
        | .gap size => (none, scanner.pass size)
        | .token kind size =>
            (some (.ok (scanner.position.token kind 0 ((char :: rest).take size))),
              scanner.pass size)
        | .quoted size =>
            (some (.ok (scanner.position.token .string 1 (rest.take (size - 2)))),
              scanner.pass size)
        | .fault cause =>
            (some (.error ⟨scanner.position.line, cause⟩), { scanner with finished := true })

def yields : Nat → Scanner → List (Except (Located Fault) Token)
  | 0, _ => []
  | turns + 1, scanner => scanner.turn.1.toList ++ yields turns scanner.turn.2

end Scanner

def Scan.items (scan : Scan) : List (Except (Located Fault) Token) :=
  scan.tokens.map .ok ++ scan.fault.toList.map .error

theorem items_behind (scan : Scan) (tokens : List Token) :
    (scan.behind tokens).items = tokens.map .ok ++ scan.items := by
  simp [Scan.items, Scan.behind]

theorem yields_finished (turns : Nat) {scanner : Scanner} (finished : scanner.finished = true) :
    scanner.yields turns = [] := by
  induction turns with
  | zero => rfl
  | succ turns induction =>
      have still : scanner.turn = (none, scanner) := by rw [Scanner.turn, if_pos finished]
      rw [Scanner.yields, still, induction]
      rfl

/-- The same for a scanner that is asked once. It has passed the segment and gives the token of it,
or nothing where the segment is layout. -/
theorem turn_segment {segment : Segment} {char : Char} {rest after : List Char}
    (position : Position) (split : char :: rest = segment.text ++ after)
    (piece : Piece.ofText char rest = segment.piece) :
    Scanner.turn ⟨position, char :: rest, false⟩ =
      ((segment.token? position).map .ok, ⟨position.past segment.text, after, false⟩) := by
  have passed : Scanner.pass ⟨position, char :: rest, false⟩ segment.text.length =
      ⟨position.past segment.text, after, false⟩ := by
    simp [Scanner.pass, split]
  have turned : Scanner.turn ⟨position, char :: rest, false⟩ = match Piece.ofText char rest with
      | .gap size => (none, Scanner.pass ⟨position, char :: rest, false⟩ size)
      | .token kind size =>
          (some (.ok (position.token kind 0 ((char :: rest).take size))),
            Scanner.pass ⟨position, char :: rest, false⟩ size)
      | .quoted size =>
          (some (.ok (position.token .string 1 (rest.take (size - 2)))),
            Scanner.pass ⟨position, char :: rest, false⟩ size)
      | .fault cause => (some (.error ⟨position.line, cause⟩), ⟨position, char :: rest, true⟩) := rfl
  rw [turned, piece]
  cases segment with
  | filler layout =>
      simp only [Segment.piece]
      rw [show layout.text.length = (Segment.filler layout).text.length from rfl, passed]
      rfl
  | remark body oneLine =>
      simp only [Segment.piece]
      rw [show body.length + 1 = (Segment.remark body oneLine).text.length from rfl, passed]
      rfl
  | word kind text spells =>
      have taken : (char :: rest).take text.length = text := by
        rw [split, show (Segment.word kind text spells).text = text from rfl, List.take_left]
      simp only [Segment.piece, taken]
      rw [show text.length = (Segment.word kind text spells).text.length from rfl, passed]
      rfl
  | quoted body unquoted =>
      have length : body.length + 2 = (Segment.quoted body unquoted).text.length := by
        simp [Segment.text]
      have taken : rest.take (body.length + 2 - 2) = body := by
        have isRest : rest = body ++ '\x22' :: after := by
          simpa [Segment.text] using (List.cons.inj split).2
        rw [isRest, Nat.add_sub_cancel, List.take_left]
      simp only [Segment.piece, taken]
      rw [length, passed]
      rfl

/-- Every turn takes at least one character or finishes, so that after one turn more than
there are characters everything has been given. -/
theorem yields_scan (turns : Nat) (position : Position) (text : List Char)
    (enough : text.length < turns) :
    Scanner.yields turns ⟨position, text, false⟩ = (scanFrom position 0 text).items := by
  induction turns generalizing position text with
  | zero => omega
  | succ turns induction =>
      cases text with
      | nil =>
          rw [Scanner.yields, yields_finished turns (by rfl)]
          rfl
      | cons char text =>
          rcases piece_cases char text with ⟨segment, after, split, -, piece⟩ | ⟨fault, -, piece⟩
          · have shorter : after.length < turns := by
              have present := List.length_pos_iff.2 (segment_ne_nil segment)
              rw [split, List.length_append] at enough
              omega
            rw [Scanner.yields, turn_segment position split piece, induction _ _ shorter,
              scan_from_segment position split piece, items_behind]
            cases segment.token? position <;> rfl
          · have turned : Scanner.turn ⟨position, char :: text, false⟩ =
                (some (.error ⟨position.line, fault⟩), ⟨position, char :: text, true⟩) := by
              simp only [Scanner.turn, piece]
              rfl
            rw [Scanner.yields, turned, yields_finished turns rfl, scanFrom, piece]
            rfl

end Iteration

section Accounting

def InSpan (tokens : List Token) (offset : Nat) : Prop :=
  ∃ token ∈ tokens, token.span.start ≤ offset ∧ offset < token.span.stop

def IsBlank (source : String) (offset : Nat) : Prop :=
  ∃ char ∈ Extent.blanks, byte? source offset = some char.toUInt8

/-- A comment reaches from its sign through its newline, and no token lies in it. The sign must be
known to begin a comment: in a string it would not. -/
def InComment (source : String) (tokens : List Token) (offset : Nat) : Prop :=
  ∃ start ≤ offset, byte? source start = some '#'.toUInt8 ∧
    (∀ between, start ≤ between → between ≤ offset → ¬ InSpan tokens between) ∧
      ∀ between, start ≤ between → between < offset → byte? source between ≠ some '\n'.toUInt8

def IsQuote (source : String) (tokens : List Token) (offset : Nat) : Prop :=
  byte? source offset = some '\x22'.toUInt8 ∧
    ∃ token ∈ tokens, token.kind = .string ∧
      (offset + 1 = token.span.start ∨ offset = token.span.stop)

/-- Tokens that account for all bytes of a source before an offset: the spans are slices of the
source in order, and a byte outside of all of them is layout or a quote. -/
structure Accounts (source : String) (tokens : List Token) (stop : Nat) : Prop where
  bounds : ∀ token ∈ tokens, token.span.start ≤ token.span.stop ∧ token.span.stop ≤ stop
  ordered : tokens.Pairwise fun earlier later => earlier.span.stop ≤ later.span.start
  boundaries : ∀ token ∈ tokens, String.Pos.Raw.IsValid source ⟨token.span.start⟩ ∧
    String.Pos.Raw.IsValid source ⟨token.span.stop⟩
  slices : ∀ token ∈ tokens,
    Text.slice? source.toList token.span.start token.span.stop = some token.lexeme.toList
  present : ∀ token ∈ tokens, token.kind ≠ .string → token.span.start < token.span.stop
  bytes : ∀ offset < stop, InSpan tokens offset ∨ IsBlank source offset ∨
    InComment source tokens offset ∨ IsQuote source tokens offset

theorem mem_placed {position : Position} {segments : List Segment} {token : Token}
    (member : token ∈ placed position segments) :
    ∃ front segment back, segments = front ++ segment :: back ∧
      segment.token? (position.past (joined front)) = some token := by
  induction segments generalizing position with
  | nil => cases member
  | cons segment segments induction =>
      rw [placed, List.mem_append] at member
      rcases member with here | later
      · exact ⟨[], segment, segments, rfl, Option.mem_toList.1 here⟩
      · obtain ⟨front, found, back, rfl, given⟩ := induction later
        refine ⟨segment :: front, found, back, rfl, ?_⟩
        rw [joined_cons, past_append]
        exact given

theorem token_bounds {segment : Segment} {position : Position} {token : Token}
    (given : segment.token? position = some token) :
    position.offset ≤ token.span.start ∧ token.span.start ≤ token.span.stop ∧
      token.span.stop ≤ position.offset + byteLength segment.text := by
  cases segment with
  | filler layout => cases given
  | remark body oneLine => cases given
  | word kind text spells =>
      cases given
      simp [Position.token, Segment.text]
  | quoted body unquoted =>
      cases given
      have quote : ('\x22' : Char).utf8Size = 1 := by decide
      simp only [Position.token, Segment.text, List.cons_append, Text.byte_length_cons,
        Text.byte_length_append, Text.byte_length_nil, quote]
      omega

theorem placed_bounds {position : Position} {segments : List Segment} {token : Token}
    (member : token ∈ placed position segments) :
    position.offset ≤ token.span.start ∧ token.span.start ≤ token.span.stop ∧
      token.span.stop ≤ position.offset + byteLength (joined segments) := by
  obtain ⟨front, segment, back, rfl, given⟩ := mem_placed member
  have bounds := token_bounds given
  simp only [past_offset, joined_append, joined_cons, Text.byte_length_append] at bounds ⊢
  omega

theorem placed_ordered (position : Position) (segments : List Segment) :
    (placed position segments).Pairwise fun earlier later =>
      earlier.span.stop ≤ later.span.start := by
  induction segments generalizing position with
  | nil => exact .nil
  | cons segment segments induction =>
      rw [placed, List.pairwise_append]
      refine ⟨?_, induction _, ?_⟩
      · cases segment.token? position <;> simp
      · intro earlier here later behind
        have before := (token_bounds (Option.mem_toList.1 here)).2.2
        have after := (placed_bounds behind).1
        rw [past_offset] at after
        omega

theorem token_lexeme {segment : Segment} {front : List Char} {token : Token}
    (given : segment.token? (Position.start.past front) = some token) (back : List Char) :
    ∃ before behind, front ++ segment.text ++ back = before ++ token.lexeme.toList ++ behind ∧
      byteLength before = token.span.start ∧
        byteLength before + byteLength token.lexeme.toList = token.span.stop := by
  cases segment with
  | filler layout => cases given
  | remark body oneLine => cases given
  | word kind text spells =>
      cases given
      refine ⟨front, back, ?_, ?_, ?_⟩ <;> simp [Position.token, Segment.text, Position.start]
  | quoted body unquoted =>
      cases given
      have quote : ('\x22' : Char).utf8Size = 1 := by decide
      refine ⟨front ++ ['\x22'], '\x22' :: back, ?_, ?_, ?_⟩ <;>
        simp [Position.token, Segment.text, Position.start, quote]

theorem segment_at {segments : List Segment} {offset : Nat}
    (inside : offset < byteLength (joined segments)) :
    ∃ front segment back index, segments = front ++ segment :: back ∧
      offset = byteLength (joined front) + index ∧ index < byteLength segment.text := by
  induction segments generalizing offset with
  | nil => simp at inside
  | cons segment segments induction =>
      by_cases here : offset < byteLength segment.text
      · exact ⟨[], segment, segments, offset, rfl, by simp, here⟩
      · rw [joined_cons, Text.byte_length_append] at inside
        have further : offset - byteLength segment.text < byteLength (joined segments) := by omega
        obtain ⟨front, found, back, index, rfl, position, bound⟩ := induction further
        refine ⟨segment :: front, found, back, index, rfl, ?_, bound⟩
        rw [joined_cons, Text.byte_length_append]
        omega

theorem byte_within {source : String} {front middle back : List Char}
    (split : source.toList = front ++ middle ++ back) {index : Nat}
    (inside : index < byteLength middle) :
    byte? source (byteLength front + index) = (bytes middle)[index]? := by
  rw [Text.byte_eq, split, Text.bytes_append, Text.bytes_append, List.append_assoc,
    List.getElem?_append_right (by simp), Text.length_bytes, Nat.add_sub_cancel_left,
    List.getElem?_append_left (by simpa using inside)]

/-- Bytes of a comment: its sign is the first of them, and none but the last is a newline. This is
all that can be seen of a comment in the encoding. -/
theorem comment_bytes {body : List Char} (oneLine : '\n' ∉ body) (ending : List Char) {index : Nat}
    (inside : index < byteLength ('#' :: body)) :
    (bytes ('#' :: body ++ ending))[index]? ≠ some '\n'.toUInt8 := by
  rw [Text.bytes_append, List.getElem?_append_left (by simpa using inside)]
  intro newline
  have member := List.mem_of_getElem? newline
  rw [Text.mem_bytes (by decide)] at member
  simp [oneLine] at member

/-- Every byte of a segment that is a comment lies in a comment: tokens lie before the segment or
behind it, and of its bytes only the last can be a newline. -/
theorem in_comment {source : String} {front back : List Segment} {segment : Segment}
    {rest body ending : List Char} {index : Nat}
    (split : source.toList = joined (front ++ segment :: back) ++ rest)
    (isComment : segment.text = '#' :: body ++ ending) (oneLine : '\n' ∉ body)
    (noToken : ∀ position, segment.token? position = none)
    (short : byteLength ending ≤ 1) (inside : index < byteLength segment.text) :
    InComment source (placed .start (front ++ segment :: back)) (byteLength (joined front) + index) := by
  have parts : source.toList = joined front ++ segment.text ++ (joined back ++ rest) := by
    rw [split]
    simp
  have sign : (0 : Nat) < byteLength segment.text := Nat.lt_of_le_of_lt (Nat.zero_le _) inside
  refine ⟨byteLength (joined front), Nat.le_add_right _ _, ?_, ?_, ?_⟩
  · rw [← Nat.add_zero (byteLength (joined front)), byte_within parts sign, isComment]
    rfl
  · rintro between lower upper ⟨token, member, start, stop⟩
    rw [placed_append, List.mem_append, placed, noToken, Option.toList_none, List.nil_append] at member
    rcases member with before | behind
    · have bounds := placed_bounds before
      simp only [Position.start, Nat.zero_add] at bounds
      omega
    · have bounds := placed_bounds behind
      simp only [past_offset, Position.start, Nat.zero_add] at bounds
      omega
  · intro between lower upper
    obtain ⟨step, rfl⟩ := Nat.exists_eq_add_of_le lower
    rw [byte_within parts (by omega), isComment]
    apply comment_bytes oneLine
    rw [isComment, Text.byte_length_append] at inside
    omega

/-- A byte of a segment lies in its token, or it is layout or a quote. Quotes are the only bytes of
a segment with a token that are not in its span. -/
theorem segment_accounted {source : String} {front back : List Segment} {segment : Segment}
    {rest : List Char} {index : Nat}
    (split : source.toList = joined (front ++ segment :: back) ++ rest)
    (inside : index < byteLength segment.text) :
    let tokens := placed .start (front ++ segment :: back)
    let offset := byteLength (joined front) + index
    InSpan tokens offset ∨ IsBlank source offset ∨ InComment source tokens offset ∨
      IsQuote source tokens offset := by
  intro tokens offset
  have parts : source.toList = joined front ++ segment.text ++ (joined back ++ rest) := by
    rw [split]
    simp
  have given : ∀ token, segment.token? (Position.start.past (joined front)) = some token →
      token ∈ tokens := by
    intro token isToken
    have here : token ∈ placed (Position.start.past (joined front)) (segment :: back) := by
      simp [placed, isToken]
    simp only [tokens, placed_append]
    exact List.mem_append_right _ here
  cases segment with
  | filler layout =>
      cases layout with
      | blank char isBlank =>
          have blank : char ∈ Extent.blanks := List.contains_iff_mem.1 isBlank
          have plain : Plain char := by
            have all : Extent.blanks.all (fun char => decide (Plain char)) = true := by decide
            exact of_decide_eq_true (List.all_eq_true.1 all char blank)
          have only : index = 0 := by
            simp only [Segment.text, Filler.text, Text.byte_length_cons, Text.byte_length_nil,
              Text.plain_size plain] at inside
            omega
          refine .inr (.inl ⟨char, blank, ?_⟩)
          simp only [offset]
          rw [byte_within parts inside, only]
          simp [Segment.text, Filler.text, Text.plain_encoded plain]
      | comment body oneLine =>
          exact .inr (.inr (.inl (in_comment split rfl oneLine (fun _ => rfl) (by decide) inside)))
  | remark body oneLine =>
      have isComment : (Segment.remark body oneLine).text = '#' :: body ++ [] := by
        simp [Segment.text]
      exact .inr (.inr (.inl (in_comment split isComment oneLine (fun _ => rfl) (by decide) inside)))
  | word kind text spells =>
      refine .inl ⟨_, given _ rfl, ?_⟩
      simp only [Segment.text] at inside
      simp only [offset, Position.token, past_offset, Position.start]
      omega
  | quoted body unquoted =>
      have quote : ('\x22' : Char).utf8Size = 1 := by decide
      have encoded : String.utf8EncodeChar '\x22' = ['\x22'.toUInt8] := by decide
      have read : byte? source offset = (bytes ('\x22' :: body ++ ['\x22']))[index]? :=
        byte_within parts inside
      have size : index < 1 + (byteLength body + 1) := by
        simpa [Segment.text, quote] using inside
      by_cases first : index = 0
      · refine .inr (.inr (.inr ⟨?_, _, given _ rfl, rfl, .inl ?_⟩))
        · rw [read, first]
          simp [encoded]
        · simp [offset, first, Position.token, Position.start]
      by_cases last : index = byteLength body + 1
      · refine .inr (.inr (.inr ⟨?_, _, given _ rfl, rfl, .inr ?_⟩))
        · rw [read, last, Text.bytes_append, Text.bytes_cons, encoded]
          simp [encoded]
        · simp only [offset, last, Position.token, past_offset, Position.start]
          omega
      · refine .inl ⟨_, given _ rfl, ?_⟩
        simp only [offset, Position.token, past_offset, Position.start]
        omega

theorem boundary {source : String} {front back : List Char} (split : source.toList = front ++ back) :
    String.Pos.Raw.IsValid source ⟨byteLength front⟩ := by
  rw [String.Pos.Raw.isValid_iff_exists_append]
  refine ⟨String.ofList front, String.ofList back, ?_, ?_⟩
  · rw [← String.ofList_append, ← split, String.ofList_toList]
  · have size := Text.byte_length_source (String.ofList front)
    rw [String.toList_ofList] at size
    exact congrArg String.Pos.Raw.mk size

theorem word_present {kind : Kind} {text : List Char} (spells : Spells kind text) :
    0 < byteLength text := by
  obtain ⟨char, rest, rfl⟩ := List.exists_cons_of_ne_nil (spells_ne_nil spells)
  have positive := char.utf8Size_pos
  rw [Text.byte_length_cons]
  omega

/-- The tokens of a row of segments account for all bytes of the row. Their spans are in order and
cut whole characters, because each segment begins where the one before it ends. -/
theorem segments_account {source : String} {segments : List Segment} {rest : List Char}
    (split : source.toList = joined segments ++ rest) :
    Accounts source (placed .start segments) (byteLength (joined segments)) := by
  have lexemes : ∀ token ∈ placed .start segments, ∃ before behind,
      source.toList = before ++ token.lexeme.toList ++ behind ∧
        byteLength before = token.span.start ∧
          byteLength before + byteLength token.lexeme.toList = token.span.stop := by
    intro token member
    obtain ⟨front, segment, back, rfl, given⟩ := mem_placed member
    obtain ⟨before, behind, parts, start, stop⟩ := token_lexeme given (joined back ++ rest)
    refine ⟨before, behind, ?_, start, stop⟩
    rw [← parts, split]
    simp
  constructor
  · intro token member
    have bounds := placed_bounds member
    simp only [Position.start, Nat.zero_add] at bounds
    exact bounds.2
  · exact placed_ordered _ _
  · intro token member
    obtain ⟨before, behind, parts, start, stop⟩ := lexemes token member
    constructor
    · rw [← start]
      exact boundary (parts.trans (List.append_assoc _ _ _))
    · rw [← stop, ← Text.byte_length_append]
      exact boundary parts
  · intro token member
    obtain ⟨before, behind, parts, start, stop⟩ := lexemes token member
    rw [← stop, ← start, parts]
    exact Text.slice_between _ _ _
  · intro token member notString
    obtain ⟨front, segment, back, rfl, given⟩ := mem_placed member
    cases segment with
    | filler layout => cases given
    | remark body oneLine => cases given
    | word kind text spells =>
        cases given
        have present := word_present spells
        simp only [Position.token]
        omega
    | quoted body unquoted =>
        cases given
        exact absurd rfl notString
  · intro offset before
    obtain ⟨front, segment, back, index, rfl, rfl, inside⟩ := segment_at before
    exact segment_accounted split inside

/-- `FaultAt source offset cause`: the byte there cannot begin anything, for the cause. Each case
says by bytes of the source what the lexer has met. -/
inductive FaultAt (source : String) (offset : Nat) : Fault → Prop where
  | unterminatedString (quote : byte? source offset = some '\x22'.toUInt8)
      (last : ∀ later, offset < later → byte? source later ≠ some '\x22'.toUInt8) :
      FaultAt source offset .unterminatedString
  | malformedNumber {digit : Char} {rest : List Char} (front : List Char)
      (isDigit : digit.isDigit = true) (starts : byte? source offset = some digit.toUInt8)
      (left : Text.splitAtByte? source.toList offset = some (front, digit :: rest))
      (refused : Extent.number? (digit :: rest) = none) : FaultAt source offset .malformedNumber

theorem digit_plain {char : Char} (digit : char.isDigit = true) : Plain char := by
  simp only [Char.isDigit, Bool.and_eq_true, decide_eq_true_eq, UInt32.le_iff_toNat_le] at digit
  have nine : ('9' : Char).val.toNat = 57 := rfl
  unfold Plain
  omega

/-- What the lexer is stuck at can be told from the bytes of the source alone. -/
theorem stuck_fault {source : String} {front rest : List Char} {fault : Fault}
    (split : source.toList = front ++ rest) (stuck : Stuck fault rest) :
    FaultAt source (byteLength front) fault := by
  cases stuck with
  | @unterminated rest unquoted =>
      have encoded : String.utf8EncodeChar '\x22' = ['\x22'.toUInt8] := by decide
      have read : ∀ index, byte? source (byteLength front + index) =
          ('\x22'.toUInt8 :: bytes rest)[index]? := by
        intro index
        rw [Text.byte_eq, split, Text.bytes_append, List.getElem?_append_right (by simp),
          Text.length_bytes, Nat.add_sub_cancel_left, Text.bytes_cons, encoded]
        rfl
      refine .unterminatedString (read 0) ?_
      intro later behind found
      obtain ⟨index, rfl⟩ := Nat.exists_eq_add_of_lt behind
      rw [Nat.add_assoc, read, List.getElem?_cons_succ] at found
      exact unquoted ((Text.mem_bytes (by decide) rest).1 (List.mem_of_getElem? found))
  | @malformed char rest digit refused =>
      have encoded := Text.plain_encoded (digit_plain digit)
      refine .malformedNumber front digit ?_ ?_ refused
      · rw [Text.byte_eq, split, Text.bytes_append, List.getElem?_append_right (by simp),
          Text.length_bytes, Nat.sub_self, Text.bytes_cons, encoded]
        rfl
      · rw [split]
        exact Text.split_at_front _ _

def newlineBytes (source : String) (offset : Nat) : Nat :=
  (source.toUTF8.data.toList.take offset).count '\n'.toUInt8

theorem newline_bytes_front {source : String} {front rest : List Char}
    (split : source.toList = front ++ rest) :
    newlineBytes source (byteLength front) = front.count '\n' := by
  rw [newlineBytes, Text.source_bytes, split, Text.bytes_append, ← Text.length_bytes,
    List.take_left, Text.count_bytes (by decide)]

end Accounting

theorem spells_kind {kind : Kind} {text : List Char} (spells : Spells kind text) :
    kind ≠ .endOfInput ∧ kind ≠ .string := by
  cases spells with
  | mark found =>
      have none : ∀ entry ∈ punctuation, entry.2 ≠ .endOfInput ∧ entry.2 ≠ .string := by decide
      exact none _ (lookup_mem found)
  | single found =>
      have none : ∀ entry ∈ operators,
          entry.2.single ≠ .endOfInput ∧ entry.2.single ≠ .string := by decide
      exact none _ (lookup_mem found)
  | double found =>
      have none : ∀ entry ∈ operators,
          entry.2.double ≠ .endOfInput ∧ entry.2.double ≠ .string := by decide
      exact none _ (lookup_mem found)
  | numeral numeral => decide
  | @word char rest notDigit joined =>
      have none : ∀ entry ∈ Kind.reservedWords,
          entry.2 ≠ .endOfInput ∧ entry.2 ≠ .string := by decide
      unfold Kind.ofWord
      cases found : Kind.reservedWords.lookup (String.ofList (char :: rest)) with
      | none => decide
      | some kind => exact none _ (lookup_mem found)

theorem placed_not_end {position : Position} {segments : List Segment} {token : Token}
    (member : token ∈ placed position segments) : token.kind ≠ .endOfInput := by
  obtain ⟨front, segment, back, rfl, given⟩ := mem_placed member
  cases segment with
  | filler layout => cases given
  | remark body oneLine => cases given
  | word kind text spells =>
      cases given
      exact (spells_kind spells).1
  | quoted body unquoted =>
      cases given
      simp [Position.token]

theorem end_token (source : List Char) :
    (Position.start.past source).token .endOfInput 0 [] = Token.endOf source := by
  have line := Text.newlines_before_append source []
  have slice := Text.slice_between source [] []
  simp only [List.append_nil, Text.byte_length_nil, Nat.add_zero] at line slice
  simp [Token.endOf, Token.ofSpan, Position.token, Position.start, slice, Text.lineAt, line]

theorem tokens_ok {source : String} {tokens : List Token} :
    Lexer.tokens source = .ok tokens ↔ scan source = ⟨tokens, none⟩ := by
  unfold Lexer.tokens
  cases scan source with
  | mk found fault => cases fault <;> simp

theorem tokens_segments {source : String} {tokens : List Token}
    (scans : Lexer.tokens source = .ok tokens) :
    ∃ segments, source.toList = joined segments ∧
      tokens = placed .start segments ++ [Token.endOf source.toList] := by
  obtain ⟨segments, rest, split, outcome⟩ := scan_from_segments .start source.toList
  rw [tokens_ok, scan] at scans
  rcases outcome with ⟨rfl, scanned⟩ | ⟨fault, -, scanned⟩
  · rw [scanned, end_token] at scans
    cases scans
    exact ⟨segments, split.trans (List.append_nil _), rfl⟩
  · rw [scanned] at scans
    cases scans

/-- Scanning ends and is lossless. One turn more than there are characters yields all items
of the scan, and whatever turns follow yield none. The tokens before the end of the source
or before the fault have valid spans in order, which with layout and quotes account for all
bytes up to there. -/
theorem scan_lossless (source : String) :
    (∀ turns, source.toList.length < turns →
      (Scanner.start source).yields turns = (scan source).items) ∧
    ∃ found stop, Accounts source found stop ∧ stop ≤ source.utf8ByteSize ∧
      (∀ token ∈ found, token.kind ≠ .endOfInput) ∧
        (stop = source.utf8ByteSize ∧ scan source = ⟨found ++ [Token.endOf source.toList], none⟩ ∨
          ∃ cause, FaultAt source stop cause ∧
            scan source = ⟨found, some ⟨1 + newlineBytes source stop, cause⟩⟩) := by
  refine ⟨fun turns enough => yields_scan turns _ _ enough, ?_⟩
  obtain ⟨segments, rest, split, outcome⟩ := scan_from_segments .start source.toList
  have within : byteLength (joined segments) ≤ source.utf8ByteSize := by
    rw [← Text.byte_length_source, split, Text.byte_length_append]
    exact Nat.le_add_right _ _
  refine ⟨placed .start segments, byteLength (joined segments), segments_account split, within,
    fun token member => placed_not_end member, ?_⟩
  rcases outcome with ⟨rfl, scanned⟩ | ⟨fault, stuck, scanned⟩
  · refine .inl ⟨?_, ?_⟩
    · rw [← Text.byte_length_source, split, List.append_nil]
    · rw [scan, scanned, end_token]
  · refine .inr ⟨fault, stuck_fault split stuck, ?_⟩
    rw [scan, scanned, newline_bytes_front split, past_line]
    rfl

end Quill.Lexer
