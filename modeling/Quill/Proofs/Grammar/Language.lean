import Quill.Proofs.Grammar.ClauseAcceptance
import Quill.Proofs.Grammar.Whole

/-!
The language of the parser is that of the grammar. What is read without a fault derives from
the rules, because a reading in which nothing was dropped is a derivation; and what derives
from the rules is read without a fault, because every parser accepts what its rule derives.
-/

namespace Quill.Grammar

set_option autoImplicit false

theorem derives_program {words : List Token} {finish : Token} (closed : finish.kind = .endOfInput) :
    Derives (.rule .program) (words ++ [finish]) ↔ Derives (.many (.rule .declaration)) words := by
  rw [derives_rule, Nonterminal.body]
  constructor
  · intro derives
    obtain ⟨body, last, same, isBody, isLast⟩ := derives_sequence.1 derives
    obtain ⟨word, rfl, -⟩ := derives_token.1 isLast
    rw [(List.append_inj' same rfl).1]
    exact isBody
  · intro derives
    exact .sequence derives (.token closed)

/-- Tokens that derive from the grammar are read to the end, and nothing is dropped. This holds
whatever their derivation is, also where an `else` could belong to several branches. -/
theorem parse_derived (tokens : List Token) (finish : Token)
    (derives : Derives (.many (.rule .declaration)) (beforeEnd tokens))
    (legible : Legible (beforeEnd tokens)) : (parse tokens finish).faults = [] := by
  have whole : (Cursor.start tokens finish).rest = beforeEnd tokens ++ [] := by
    rw [List.append_nil]
    rfl
  obtain ⟨stmts, next, run, -⟩ := program_accepts derives legible _ [] whole rfl
  unfold parse
  rw [run]
  rfl

/-- The parser records no fault exactly for the tokens that derive from the grammar and whose
numerals stand for numbers. Tokens behind an end mark are not looked at. -/
theorem parse_accepts_exactly (source : String) (tokens : List Token) :
    (parse tokens (Token.endOf source.toList)).faults = [] ↔
      Derives (.rule .program) (beforeEnd tokens ++ [Token.endOf source.toList]) ∧
        ∀ token ∈ beforeEnd tokens, token.kind = .number → (Number.read? token.lexeme).isSome := by
  have closed : (Token.endOf source.toList).kind = .endOfInput := rfl
  rw [derives_program closed]
  constructor
  · intro clean
    obtain ⟨next, forms⟩ := parse_forms tokens closed
    exact ⟨forms.derivable clean, forms.legible clean⟩
  · intro grammatical
    rcases grammatical with ⟨derives, legible⟩
    exact parse_derived tokens _ derives legible

end Quill.Grammar
