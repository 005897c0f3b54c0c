import Quill.Proofs.Token.Extents

/-!
What a source consists of. A segment is a stretch of characters that the lexer takes in one
piece: a blank, a comment, a word of some kind, or a quoted string. Every text that is not
empty begins with a segment, unless the lexer is stuck there; and a segment is recognised
again wherever it stands, provided that a word is followed by layout or by nothing.
-/

namespace Quill.Lexer

set_option autoImplicit false

/-- `Spells kind word`: the characters of the word are a token of the kind. A string is no word,
since its lexeme is not all of its characters. -/
inductive Spells : Kind → List Char → Prop where
  | mark {char : Char} {kind : Kind} (found : punctuation.lookup char = some kind) :
      Spells kind [char]
  | single {char : Char} {operator : Operator} (found : operators.lookup char = some operator) :
      Spells operator.single [char]
  | double {char : Char} {operator : Operator} (found : operators.lookup char = some operator) :
      Spells operator.double [char, operator.second]
  | numeral {word : List Char} (numeral : Numeral word) : Spells .number word
  | word {char : Char} {rest : List Char} (notDigit : char.isDigit = false)
      (joined : ∀ other ∈ char :: rest, Extent.isSeparator other = false) :
      Spells (Kind.ofWord (String.ofList (char :: rest))) (char :: rest)

theorem spells_ne_nil {kind : Kind} {word : List Char} (spells : Spells kind word) : word ≠ [] := by
  cases spells with
  | numeral numeral =>
      cases numeral with
      | whole run => exact run.present
      | fraction run further => simp
  | _ => simp

inductive Filler where
  | blank (char : Char) (isBlank : Extent.isBlank char = true)
  | comment (body : List Char) (oneLine : '\n' ∉ body)

def Filler.text : Filler → List Char
  | blank char _ => [char]
  | comment body _ => '#' :: body ++ ['\n']

/-- A stretch of a source that the lexer takes in one turn. A remark is a comment that the end of
the source cuts off. -/
inductive Segment where
  | filler (layout : Filler)
  | remark (body : List Char) (oneLine : '\n' ∉ body)
  | word (kind : Kind) (text : List Char) (spells : Spells kind text)
  | quoted (body : List Char) (unquoted : '\x22' ∉ body)

namespace Segment

def text : Segment → List Char
  | filler layout => layout.text
  | remark body _ => '#' :: body
  | word _ text _ => text
  | quoted body _ => '\x22' :: body ++ ['\x22']

def piece : Segment → Piece
  | filler layout => .gap layout.text.length
  | remark body _ => .gap (body.length + 1)
  | word kind text _ => .token kind text.length
  | quoted body _ => .quoted (body.length + 2)

end Segment

theorem segment_ne_nil (segment : Segment) : segment.text ≠ [] := by
  cases segment with
  | filler layout => cases layout <;> simp [Segment.text, Filler.text]
  | remark body oneLine => simp [Segment.text]
  | word kind text spells => exact spells_ne_nil spells
  | quoted body unquoted => simp [Segment.text]

/-- `Stuck fault text`: the lexer finds no segment at the head of the text. -/
inductive Stuck : Fault → List Char → Prop where
  | unterminated {rest : List Char} (unquoted : '\x22' ∉ rest) :
      Stuck .unterminatedString ('\x22' :: rest)
  | malformed {char : Char} {rest : List Char} (digit : char.isDigit = true)
      (refused : Extent.number? (char :: rest) = none) : Stuck .malformedNumber (char :: rest)

def isLayout (char : Char) : Bool := Extent.isBlank char || char == '#'

def Loose (text : List Char) : Prop := ∀ char ∈ text.head?, isLayout char = true

/-- A character that the lexer does not take for layout, a quote or a digit. It begins a mark, an
operator or a word. -/
structure Sign (char : Char) : Prop where
  blank : Extent.isBlank char = false
  comment : char ≠ '#'
  quote : char ≠ '\x22'
  digit : char.isDigit = false

instance (char : Char) : Decidable (Sign char) :=
  decidable_of_iff (Extent.isBlank char = false ∧ char ≠ '#' ∧ char ≠ '\x22' ∧ char.isDigit = false)
    ⟨fun ⟨blank, comment, quote, digit⟩ => ⟨blank, comment, quote, digit⟩,
      fun ⟨blank, comment, quote, digit⟩ => ⟨blank, comment, quote, digit⟩⟩

theorem sign_piece {char : Char} (sign : Sign char) (rest : List Char) :
    Piece.ofText char rest =
      match punctuation.lookup char with
      | some kind => .token kind 1
      | none =>
          match operators.lookup char with
          | some operator => Piece.ofOperator char operator (char :: rest)
          | none => Piece.ofWord (char :: rest) := by
  unfold Piece.ofText
  rewrite [sign.blank, if_neg Bool.false_ne_true, if_neg sign.comment, if_neg sign.quote, sign.digit,
    if_neg Bool.false_ne_true]
  rfl

theorem lookup_mem {Key Held : Type} [BEq Key] [LawfulBEq Key] {entries : List (Key × Held)}
    {key : Key} {held : Held} (found : entries.lookup key = some held) : (key, held) ∈ entries := by
  obtain ⟨before, after, split, -⟩ := List.lookup_eq_some_iff.1 found
  simp [split]

theorem punctuation_sign {char : Char} {kind : Kind} (found : punctuation.lookup char = some kind) :
    Sign char := by
  have signs : ∀ entry ∈ punctuation, Sign entry.1 := by decide
  exact signs _ (lookup_mem found)

theorem operators_sign {char : Char} {operator : Operator}
    (found : operators.lookup char = some operator) :
    Sign char ∧ punctuation.lookup char = none ∧ isLayout operator.second = false := by
  have signs : ∀ entry ∈ operators,
      Sign entry.1 ∧ punctuation.lookup entry.1 = none ∧ isLayout entry.2.second = false := by decide
  exact signs _ (lookup_mem found)

theorem separators_not_digit {char : Char} (separator : Extent.isSeparator char = true) :
    char.isDigit = false := by
  have none : Extent.separators.all (fun char => decide (char.isDigit = false)) = true := by decide
  exact of_decide_eq_true (List.all_eq_true.1 none char (List.contains_iff_mem.1 separator))

theorem layout_separates {char : Char} (layout : isLayout char = true) :
    Extent.isSeparator char = true := by
  have all : ('#' :: Extent.blanks).all Extent.isSeparator = true := by decide
  apply List.all_eq_true.1 all
  simpa [isLayout, Extent.isBlank, or_comm] using layout

theorem digit_piece {char : Char} (digit : char.isDigit = true) (rest : List Char) :
    Piece.ofText char rest =
      match Extent.number? (char :: rest) with
      | some size => .token .number size
      | none => .fault .malformedNumber := by
  have apart : ∀ other, Extent.isSeparator other = true → char ≠ other := by
    rintro other separator rfl
    rw [separators_not_digit separator] at digit
    cases digit
  have blank : ¬ Extent.isBlank char = true := fun isBlank =>
    apart char (layout_separates (by simp [isLayout, isBlank])) rfl
  rewrite [Piece.ofText, if_neg blank, if_neg (apart _ (by decide)),
    if_neg (apart _ (by decide)), if_pos digit]
  rfl

theorem layout_ends_numeral {char : Char} (layout : isLayout char = true) :
    char.isDigit = false ∧ char ≠ '.' := by
  refine ⟨separators_not_digit (layout_separates layout), ?_⟩
  rintro rfl
  revert layout
  decide

theorem joined_sign {char : Char} (joined : Extent.isSeparator char = false)
    (notDigit : char.isDigit = false) :
    Sign char ∧ punctuation.lookup char = none ∧ operators.lookup char = none := by
  have apart : ∀ other, Extent.isSeparator other = true → char ≠ other := by
    rintro other separator rfl
    rw [joined] at separator
    cases separator
  have blank : Extent.isBlank char = false := by
    cases isBlank : Extent.isBlank char with
    | false => rfl
    | true => exact absurd rfl (apart char (layout_separates (by simp [isLayout, isBlank])))
  have marks : ∀ entry ∈ punctuation, Extent.isSeparator entry.1 = true := by decide
  have signs : ∀ entry ∈ operators, Extent.isSeparator entry.1 = true := by decide
  refine ⟨⟨blank, apart _ (by decide), apart _ (by decide), notDigit⟩, ?_, ?_⟩
  · rw [List.lookup_eq_none_iff]
    intro entry member
    simpa using apart entry.1 (marks entry member)
  · rw [List.lookup_eq_none_iff]
    intro entry member
    simpa using apart entry.1 (signs entry member)

theorem sign_joined {char : Char} (sign : Sign char) (noMark : punctuation.lookup char = none)
    (noOperator : operators.lookup char = none) : Extent.isSeparator char = false := by
  cases separator : Extent.isSeparator char with
  | false => rfl
  | true =>
      have claimed : Extent.separators.all (fun other => decide (¬ Sign other ∨
          punctuation.lookup other ≠ none ∨ (operators.lookup other).isSome = true)) = true := by
        decide
      have isClaimed := List.all_eq_true.1 claimed char (List.contains_iff_mem.1 separator)
      rcases of_decide_eq_true isClaimed with notSign | mark | operator
      · exact absurd sign notSign
      · exact absurd noMark mark
      · rw [noOperator] at operator
        cases operator

/-- Every text begins with a segment, or else the lexer is stuck. What the lexer does with a text
can so be told by the segments that the text is made of. -/
theorem piece_cases (char : Char) (rest : List Char) :
    (∃ segment after, char :: rest = Segment.text segment ++ after ∧
      (∀ body oneLine, segment = .remark body oneLine → after = []) ∧
        Piece.ofText char rest = segment.piece) ∨
      ∃ fault, Stuck fault (char :: rest) ∧ Piece.ofText char rest = .fault fault := by
  by_cases blank : Extent.isBlank char = true
  · refine .inl ⟨.filler (.blank char blank), rest, rfl, by simp, ?_⟩
    rw [Piece.ofText, if_pos blank]
    rfl
  by_cases comment : char = '#'
  · subst comment
    by_cases ended : '\n' ∈ rest
    · obtain ⟨body, after, rfl, oneLine, -⟩ := split_at_mark ended
      refine .inl ⟨.filler (.comment body oneLine), after, by simp [Segment.text, Filler.text],
        by simp, ?_⟩
      rw [Piece.ofText, if_neg blank, if_pos rfl, comment_ended oneLine]
      simp [Segment.piece, Filler.text]
    · refine .inl ⟨.remark rest ended, [], by simp [Segment.text], fun _ _ _ => rfl, ?_⟩
      rw [Piece.ofText, if_neg blank, if_pos rfl, comment_open ended]
      rfl
  by_cases quote : char = '\x22'
  · subst quote
    by_cases closed : '\x22' ∈ rest
    · obtain ⟨body, after, rfl, unquoted, -⟩ := split_at_mark closed
      refine .inl ⟨.quoted body unquoted, after, by simp [Segment.text], by simp, ?_⟩
      rw [Piece.ofText, if_neg blank, if_neg comment, if_pos rfl, string_closed unquoted]
      rfl
    · refine .inr ⟨.unterminatedString, .unterminated closed, ?_⟩
      rw [Piece.ofText, if_neg blank, if_neg comment, if_pos rfl, string_open closed]
  by_cases digit : char.isDigit = true
  · cases found : Extent.number? (char :: rest) with
    | none =>
        refine .inr ⟨.malformedNumber, .malformed digit found, ?_⟩
        rw [digit_piece digit, found]
    | some size =>
        obtain ⟨word, after, split, longest, rfl⟩ := number_found digit found
        refine .inl ⟨.word .number word (.numeral longest.numeral), after, split, by simp, ?_⟩
        rw [digit_piece digit, found]
        rfl
  have sign : Sign char := ⟨by simpa using blank, comment, quote, by simpa using digit⟩
  have reads := sign_piece sign rest
  cases mark : punctuation.lookup char with
  | some kind =>
      rw [mark] at reads
      exact .inl ⟨.word kind [char] (.mark mark), rest, rfl, by simp, reads⟩
  | none =>
      rw [mark] at reads
      cases found : operators.lookup char with
      | some operator =>
          rw [found] at reads
          simp only [Piece.ofOperator] at reads
          split at reads
          next alone =>
            have isPrefix : [char, operator.second] <+: char :: rest := by
              rw [Extent.standsAlone, Bool.and_eq_true] at alone
              exact List.isPrefixOf_iff_prefix.1 alone.1
            obtain ⟨after, split⟩ := isPrefix
            exact .inl ⟨.word operator.double _ (.double found), after, split.symm, by simp, reads⟩
          next => exact .inl ⟨.word operator.single _ (.single found), rest, rfl, by simp, reads⟩
      | none =>
          rw [found] at reads
          obtain ⟨run, after, split, longest, all, -⟩ :=
            run_split (fun other => !Extent.isSeparator other) (char :: rest)
          have joined := sign_joined sign mark found
          cases run with
          | nil => simp [joined] at longest
          | cons first others =>
              have same : first = char := (List.cons.inj split).1.symm
              subst same
              have taken : (first :: rest).take (Extent.word (first :: rest)) = first :: others := by
                rw [Extent.word, longest, split, List.take_left]
              have spells : Spells (Kind.ofWord (String.ofList (first :: others))) (first :: others) :=
                .word sign.digit (fun other member => by simpa using all other member)
              refine .inl ⟨.word _ _ spells, after, split, by simp, ?_⟩
              rw [reads]
              simp only [Piece.ofWord, taken]
              rw [Extent.word, longest]
              rfl

/-- A word that is spelled as it should is recognised in full and with its kind, if layout or the
end stands behind it: neither can prolong a word. -/
theorem spelled_piece {kind : Kind} {char : Char} {rest after : List Char}
    (spells : Spells kind (char :: rest)) (loose : Loose after) :
    Piece.ofText char (rest ++ after) = .token kind (rest.length + 1) := by
  cases spells with
  | mark found =>
      rw [sign_piece (punctuation_sign found), found]
      rfl
  | @single _ operator found =>
      obtain ⟨sign, noMark, second⟩ := operators_sign found
      have notAlone : Extent.standsAlone [char, operator.second] (char :: ([] ++ after)) = false := by
        cases after with
        | nil => simp [Extent.standsAlone]
        | cons next after =>
            have different : operator.second ≠ next := by
              rintro rfl
              rw [loose _ rfl] at second
              cases second
            simp [Extent.standsAlone, different]
      rw [sign_piece sign, noMark, found]
      simp only [Piece.ofOperator, notAlone]
      rfl
  | @double _ operator found =>
      obtain ⟨sign, noMark, -⟩ := operators_sign found
      have alone : Extent.standsAlone [char, operator.second]
          (char :: ([operator.second] ++ after)) = true := by
        cases after with
        | nil => simp [Extent.standsAlone]
        | cons next after => simp [Extent.standsAlone, layout_separates (loose _ rfl)]
      rw [sign_piece sign, noMark, found]
      simp only [Piece.ofOperator, alone]
      rfl
  | numeral numeral =>
      obtain ⟨first, others, same, isDigit⟩ := numeral_head numeral
      have digit : char.isDigit = true := (List.cons.inj same).1 ▸ isDigit
      have number := number_of_numeral numeral fun next (isHead : next ∈ after.head?) =>
        layout_ends_numeral (loose next isHead)
      rw [List.cons_append] at number
      rw [digit_piece digit, number]
      rfl
  | word notDigit joined =>
      obtain ⟨sign, noMark, noOperator⟩ := joined_sign (joined char List.mem_cons_self) notDigit
      have run : (char :: (rest ++ after)).takeWhile (fun other => !Extent.isSeparator other) =
          char :: rest := by
        rw [← List.cons_append]
        apply take_while_run
        · intro other member
          simpa using joined other member
        · intro next isHead
          simpa using layout_separates (loose next isHead)
      rw [sign_piece sign, noMark, noOperator]
      simp only [Piece.ofWord, Extent.word, run]
      rw [← List.cons_append, List.take_left]
      rfl

/-- A segment is recognised at the head of a text, if the text goes on as it may: a word needs
layout or the end behind it, and a remark the end. -/
theorem segment_piece {segment : Segment} {char : Char} {rest after : List Char}
    (split : char :: rest = segment.text ++ after)
    (loose : ∀ kind word spells, segment = .word kind word spells → Loose after)
    (last : ∀ body oneLine, segment = .remark body oneLine → after = []) :
    Piece.ofText char rest = segment.piece := by
  cases segment with
  | filler layout =>
      cases layout with
      | blank blank isBlank =>
          cases split
          rw [Piece.ofText, if_pos isBlank]
          rfl
      | comment body oneLine =>
          have parts : char = '#' ∧ rest = body ++ '\n' :: after := by
            simpa [Segment.text, Filler.text] using split
          obtain ⟨rfl, rfl⟩ := parts
          rw [Piece.ofText, if_neg (by decide), if_pos rfl, comment_ended oneLine]
          simp [Segment.piece, Filler.text]
  | remark body oneLine =>
      have parts : char = '#' ∧ rest = body := by
        simpa [Segment.text, last body oneLine rfl] using split
      obtain ⟨rfl, rfl⟩ := parts
      rw [Piece.ofText, if_neg (by decide), if_pos rfl, comment_open oneLine]
      rfl
  | quoted body unquoted =>
      have parts : char = '\x22' ∧ rest = body ++ '\x22' :: after := by
        simpa [Segment.text] using split
      obtain ⟨rfl, rfl⟩ := parts
      rw [Piece.ofText, if_neg (by decide), if_neg (by decide), if_pos rfl, string_closed unquoted]
      rfl
  | word kind word spells =>
      obtain ⟨first, others, rfl⟩ := List.exists_cons_of_ne_nil (spells_ne_nil spells)
      have parts : char = first ∧ rest = others ++ after := by
        simpa [Segment.text] using split
      obtain ⟨rfl, rfl⟩ := parts
      exact spelled_piece spells (loose kind _ spells rfl)

end Quill.Lexer
