import Quill.Number.Numeral
import Quill.Proofs.Token.Turns

/-!
The numbers of a source. A number token covers the longest numeral at the head of the rest of the
source, and whatever is a numeral is read as a double.
-/

namespace Quill.Lexer

set_option autoImplicit false

section Reading

theorem exponent_none : Number.exponent? [] = some 0 := rfl

theorem digits_alone {run : List Char} (digits : Digits run) :
    run.takeWhile Char.isDigit = run ∧ run.dropWhile Char.isDigit = [] :=
  ⟨List.takeWhile_eq_self_iff.2 digits.all, List.dropWhile_eq_nil_iff.2 digits.all⟩

theorem decimal_numeral {word : List Char} (numeral : Numeral word) :
    ∃ decimal, Number.decimal? word = some decimal := by
  cases numeral with
  | whole run =>
      obtain ⟨taken, left⟩ := digits_alone run
      refine ⟨⟨Number.digitsValue (word ++ []), 0 - ([] : List Char).length⟩, ?_⟩
      unfold Number.decimal?
      rw [left, taken]
      simp [run.present, exponent_none]
  | @fraction digits behind run further =>
      have before : (digits ++ '.' :: behind).takeWhile Char.isDigit = digits :=
        take_while_run run.all (by simp)
      have point : (digits ++ '.' :: behind).dropWhile Char.isDigit = '.' :: behind := by
        rw [List.dropWhile_append_of_pos run.all]
        rfl
      obtain ⟨taken, left⟩ := digits_alone further
      refine ⟨⟨Number.digitsValue (digits ++ behind), 0 - behind.length⟩, ?_⟩
      unfold Number.decimal?
      simp only [point, before, taken, left]
      simp [run.present, exponent_none]

/-- Every numeral is read as a double. It has neither a sign nor an exponent, and one that is beyond
the range of doubles is read too. -/
theorem read_numeral {word : List Char} (numeral : Numeral word) :
    (Number.read? (String.ofList word)).isSome = true := by
  obtain ⟨decimal, found⟩ := decimal_numeral numeral
  obtain ⟨char, rest, rfl, digit⟩ := numeral_head numeral
  have unsigned : Number.splitSign (char :: rest) = (false, char :: rest) := by
    unfold Number.splitSign
    split
    next same => cases same; simp at digit
    next same => cases same; simp at digit
    next => rfl
  unfold Number.read?
  rw [String.toList_ofList, unsigned]
  dsimp only
  repeat' split
  · rfl
  · rfl
  · rw [found]
    rfl

end Reading

section Scanning

/-- A number token covers its lexeme, which is the longest numeral at the head of what follows
the start of the token. -/
theorem scan_longest {source : String} {token : Token} (member : token ∈ (scan source).tokens)
    (number : token.kind = .number) :
    Text.slice? source.toList token.span.start token.span.stop = some token.lexeme.toList ∧
      ∃ front rest, Text.splitAtByte? source.toList token.span.start = some (front, rest) ∧
        LongestNumeral token.lexeme.toList rest := by
  obtain ⟨place, word, behind, comes, -, rfl⟩ := number_token_iff.1 ⟨member, number⟩
  obtain ⟨front, parts, rfl⟩ := comes_place comes
  refine ⟨?_, front, word ++ behind, ?_, ?_⟩
  · rw [parts, ← List.append_assoc]
    simpa [Position.token, Position.start] using Text.slice_between front word behind
  · rw [parts]
    simpa [Position.token, Position.start] using Text.split_at_front front (word ++ behind)
  · simpa [Position.token] using comes.longest

theorem tokens_scan {source : String} {tokens : List Token}
    (scans : Lexer.tokens source = .ok tokens) : tokens = (scan source).tokens := by
  rw [tokens_ok.1 scans]

theorem number_tokens_read {source : String} {tokens : List Token}
    (scans : Lexer.tokens source = .ok tokens) {token : Token} (member : token ∈ tokens)
    (number : token.kind = .number) : (Number.read? token.lexeme).isSome = true := by
  rw [tokens_scan scans] at member
  obtain ⟨-, front, rest, -, longest⟩ := scan_longest member number
  simpa using read_numeral longest.numeral

end Scanning

end Quill.Lexer
