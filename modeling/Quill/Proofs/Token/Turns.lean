import Quill.Proofs.Token.Lossless

/-!
The scanner at numerals. What a scan tells of numbers, a token or that one is malformed, is told in
the turns in which the scanner has come to a digit; and each of these turns tells of the longest
numeral that the rest of the source begins with.
-/

namespace Quill.Lexer

set_option autoImplicit false

section Turns

variable {source : String}

def Scanner.after : Nat → Scanner → Scanner
  | 0, scanner => scanner
  | turns + 1, scanner => after turns scanner.turn.2

theorem mem_yields {turns : Nat} {scanner : Scanner} {item : Except (Located Fault) Token} :
    item ∈ scanner.yields turns ↔ ∃ before < turns, (scanner.after before).turn.1 = some item := by
  induction turns generalizing scanner with
  | zero => simp [Scanner.yields]
  | succ turns induction =>
      rw [Scanner.yields, List.mem_append, Option.mem_toList, induction]
      constructor
      · rintro (first | ⟨before, few, later⟩)
        · exact ⟨0, Nat.succ_pos turns, first⟩
        · exact ⟨before + 1, Nat.succ_lt_succ few, later⟩
      · rintro ⟨before, few, given⟩
        cases before with
        | zero => exact .inl given
        | succ before => exact .inr ⟨before, Nat.lt_of_succ_lt_succ few, given⟩

theorem mem_items {item : Except (Located Fault) Token} :
    item ∈ (scan source).items ↔
      ∃ turns, ((Scanner.start source).after turns).turn.1 = some item := by
  have enough {turns : Nat} (many : source.toList.length < turns) :
      (scan source).items = (Scanner.start source).yields turns :=
    (yields_scan turns .start source.toList many).symm
  constructor
  · intro member
    rw [enough (Nat.lt_succ_self _), mem_yields] at member
    obtain ⟨before, -, given⟩ := member
    exact ⟨before, given⟩
  · rintro ⟨turns, given⟩
    rw [enough (Nat.lt_of_lt_of_le (Nat.lt_succ_self _) (Nat.le_add_left _ turns)), mem_yields]
    exact ⟨turns, by omega, given⟩

theorem token_mem_items {scan : Scan} {token : Token} :
    .ok token ∈ scan.items ↔ token ∈ scan.tokens := by
  simp [Scan.items]

theorem fault_mem_items {scan : Scan} {fault : Located Fault} :
    .error fault ∈ scan.items ↔ scan.fault = some fault := by
  simp [Scan.items]

def Scanner.Stands (source : String) (scanner : Scanner) : Prop :=
  ∃ front, source.toList = front ++ scanner.rest ∧ scanner.position = Position.start.past front

theorem stands_pass {scanner : Scanner} (stands : scanner.Stands source) (size : Nat) :
    (scanner.pass size).Stands source := by
  obtain ⟨front, parts, place⟩ := stands
  refine ⟨front ++ scanner.rest.take size, ?_, ?_⟩
  · rw [parts, Scanner.pass, List.append_assoc, List.take_append_drop]
  · rw [Scanner.pass, past_append, place]

theorem stands_turn {scanner : Scanner} (stands : scanner.Stands source) :
    scanner.turn.2.Stands source := by
  unfold Scanner.turn
  split
  next => exact stands
  next =>
    split
    next => exact stands
    next =>
      split
      · exact stands_pass stands _
      · exact stands_pass stands _
      · exact stands_pass stands _
      · exact stands

theorem stands_after {scanner : Scanner} (stands : scanner.Stands source) (turns : Nat) :
    (scanner.after turns).Stands source := by
  induction turns generalizing scanner with
  | zero => exact stands
  | succ turns induction => exact induction (stands_turn stands)

end Turns

section Numerals

/-- The scanner comes to a numeral: it is about to look at the rest of the source, of which the
word is the longest numeral. -/
structure Comes (source : String) (place : Position) (word behind : List Char) : Prop where
  arrives : ∃ turns, (Scanner.start source).after turns = ⟨place, word ++ behind, false⟩
  longest : LongestNumeral word (word ++ behind)

theorem turn_literal {place : Position} {word behind : List Char}
    (longest : LongestNumeral word (word ++ behind)) :
    (Scanner.turn ⟨place, word ++ behind, false⟩).1 =
      some (if refusedBefore word behind then .error ⟨place.line, .malformedNumber⟩
        else .ok (place.token .number 0 word)) := by
  obtain ⟨char, rest, rfl, digit⟩ := numeral_head longest.numeral
  have piece := digit_piece digit (rest ++ behind)
  rw [← List.cons_append, number_exact longest] at piece
  simp only [Scanner.turn, List.cons_append, piece]
  cases refusedBefore (char :: rest) behind with
  | true => rfl
  | false =>
      have taken : (char :: (rest ++ behind)).take (char :: rest).length = char :: rest := by
        rw [← List.cons_append, List.take_left]
      simp only [Bool.false_eq_true, if_false, taken]

theorem word_not_number (word : String) : Kind.ofWord word ≠ .number := by
  have none : ∀ entry ∈ Kind.reservedWords, entry.2 ≠ .number := by decide
  unfold Kind.ofWord
  cases found : Kind.reservedWords.lookup word with
  | none => decide
  | some kind => exact none _ (lookup_mem found)

theorem number_piece {char : Char} {rest : List Char} {size : Nat}
    (piece : Piece.ofText char rest = .token .number size) : char.isDigit = true := by
  have marks : ∀ entry ∈ punctuation, entry.2 ≠ .number := by decide
  have signs : ∀ entry ∈ operators, entry.2.single ≠ .number ∧ entry.2.double ≠ .number := by
    decide
  unfold Piece.ofText at piece
  split at piece
  · cases piece
  split at piece
  · cases piece
  split at piece
  · split at piece <;> cases piece
  split at piece
  next digit => exact digit
  next =>
    split at piece
    next kind found =>
      cases piece
      exact absurd rfl (marks _ (lookup_mem found))
    next =>
      split at piece
      next operator found =>
        obtain ⟨single, double⟩ := signs _ (lookup_mem found)
        unfold Piece.ofOperator at piece
        split at piece
        · exact absurd (Piece.token.inj piece).1 double
        · exact absurd (Piece.token.inj piece).1 single
      next => exact absurd (Piece.token.inj piece).1 (word_not_number _)

theorem malformed_piece {char : Char} {rest : List Char}
    (piece : Piece.ofText char rest = .fault .malformedNumber) : char.isDigit = true := by
  rcases piece_cases char rest with ⟨segment, -, -, -, reads⟩ | ⟨fault, stuck, reads⟩
  · rw [reads] at piece
    cases segment <;> cases piece
  · rw [reads] at piece
    cases piece
    cases stuck with
    | malformed digit refused => exact digit

def Numeric : Except (Located Fault) Token → Prop
  | .ok token => token.kind = .number
  | .error fault => fault.cause = .malformedNumber

/-- The scanner says something about a number only where it is at a digit, and so at a numeral. A
malformed number is one of these things. -/
theorem numeric_turn {scanner : Scanner} {item : Except (Located Fault) Token}
    (given : scanner.turn.1 = some item) (numeric : Numeric item) :
    ∃ place word behind, scanner = ⟨place, word ++ behind, false⟩ ∧
      LongestNumeral word (word ++ behind) := by
  obtain ⟨place, text, finished⟩ := scanner
  have begins : finished = false ∧ ∃ char rest, text = char :: rest ∧ char.isDigit = true := by
    unfold Scanner.turn at given
    split at given
    next => cases given
    next unfinished =>
      refine ⟨by simpa using unfinished, ?_⟩
      split at given
      next =>
        cases given
        cases numeric
      next char rest isText =>
        refine ⟨char, rest, isText, ?_⟩
        split at given
        next => cases given
        next kind size piece =>
          cases given
          have isNumber : kind = .number := numeric
          subst isNumber
          exact number_piece piece
        next =>
          cases given
          cases numeric
        next cause piece =>
          cases given
          have malformed : cause = .malformedNumber := numeric
          subst malformed
          exact malformed_piece piece
  obtain ⟨rfl, char, rest, rfl, digit⟩ := begins
  obtain ⟨word, behind, parts, longest⟩ := longest_numeral digit rest
  exact ⟨place, word, behind, by rw [parts], longest⟩

variable {source : String} {place : Position} {word behind : List Char}

/-- What a scan says about numbers is what it says at the numerals that the scanner comes to, and it
says something about each of them. -/
theorem numeric_item_iff {item : Except (Located Fault) Token} :
    item ∈ (scan source).items ∧ Numeric item ↔ ∃ place word behind,
      Comes source place word behind ∧
        item = if refusedBefore word behind then .error ⟨place.line, .malformedNumber⟩
          else .ok (place.token .number 0 word) := by
  rw [mem_items]
  constructor
  · rintro ⟨⟨turns, given⟩, numeric⟩
    obtain ⟨place, word, behind, arrives, longest⟩ := numeric_turn given numeric
    rw [arrives, turn_literal longest] at given
    exact ⟨place, word, behind, ⟨⟨turns, arrives⟩, longest⟩, (Option.some.inj given).symm⟩
  · rintro ⟨place, word, behind, ⟨⟨turns, arrives⟩, longest⟩, rfl⟩
    refine ⟨⟨turns, by rw [arrives, turn_literal longest]⟩, ?_⟩
    cases refusedBefore word behind <;> rfl

theorem comes_place (comes : Comes source place word behind) :
    ∃ front, source.toList = front ++ (word ++ behind) ∧ place = Position.start.past front := by
  obtain ⟨turns, arrives⟩ := comes.arrives
  have start : (Scanner.start source).Stands source := ⟨[], rfl, rfl⟩
  have stands := stands_after start turns
  rw [arrives] at stands
  exact stands

theorem number_token_iff {token : Token} :
    token ∈ (scan source).tokens ∧ token.kind = .number ↔ ∃ place word behind,
      Comes source place word behind ∧ refusedBefore word behind = false ∧
        token = place.token .number 0 word := by
  constructor
  · rintro ⟨member, number⟩
    obtain ⟨place, word, behind, comes, isItem⟩ :=
      numeric_item_iff.1 ⟨token_mem_items.2 member, number⟩
    split at isItem
    next => cases isItem
    next accepted =>
      cases isItem
      exact ⟨place, word, behind, comes, by simpa using accepted, rfl⟩
  · rintro ⟨place, word, behind, comes, accepted, rfl⟩
    have given := numeric_item_iff.2 ⟨place, word, behind, comes, rfl⟩
    rw [accepted, if_neg Bool.false_ne_true, token_mem_items] at given
    exact given

theorem malformed_number_iff {line : Nat} :
    (scan source).fault = some ⟨line, .malformedNumber⟩ ↔ ∃ place word behind,
      Comes source place word behind ∧ refusedBefore word behind = true ∧ line = place.line := by
  rw [← fault_mem_items]
  constructor
  · intro member
    obtain ⟨place, word, behind, comes, isItem⟩ := numeric_item_iff.1 ⟨member, rfl⟩
    split at isItem
    next refused =>
      cases isItem
      exact ⟨place, word, behind, comes, refused, rfl⟩
    next => cases isItem
  · rintro ⟨place, word, behind, comes, refused, rfl⟩
    have given := numeric_item_iff.2 ⟨place, word, behind, comes, rfl⟩
    rw [if_pos refused] at given
    exact given.1

end Numerals

end Quill.Lexer
