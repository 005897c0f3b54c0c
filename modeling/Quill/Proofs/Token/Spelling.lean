import Quill.Token.Lexer

/-!
The spelling of words. The lexer decides the kind of a word by its text alone, so a token
says by its kind whether its text is reserved: an identifier is never spelled `this` or
`base`, and the two reserved words are never spelled otherwise.
-/

namespace Quill

set_option autoImplicit false

def wordKinds : List Kind := .identifier :: Kind.reservedWords.map Prod.snd

/-- A token that is a word has the kind of its text. So a name that is looked up by its text is
never confused with a reserved word. -/
def Token.Spelled (token : Token) : Prop :=
  token.kind ∈ wordKinds → Kind.ofWord token.lexeme = token.kind

namespace Lexer

theorem punctuation_not_word {char : Char} {kind : Kind}
    (found : punctuation.lookup char = some kind) : kind ∉ wordKinds := by
  have member : (char, kind) ∈ punctuation := by
    obtain ⟨before, after, split, -⟩ := List.lookup_eq_some_iff.1 found
    simp [split]
  have none : ∀ entry ∈ punctuation, entry.2 ∉ wordKinds := by decide
  exact none _ member

theorem operators_not_word {char : Char} {operator : Operator}
    (found : operators.lookup char = some operator) :
    operator.single ∉ wordKinds ∧ operator.double ∉ wordKinds := by
  have member : (char, operator) ∈ operators := by
    obtain ⟨before, after, split, -⟩ := List.lookup_eq_some_iff.1 found
    simp [split]
  have none : ∀ entry ∈ operators,
      entry.2.single ∉ wordKinds ∧ entry.2.double ∉ wordKinds := by decide
  exact none _ member

/-- What is recognised as a word has the kind of its text: it is looked up among the reserved words
with the very text that becomes its lexeme. -/
theorem piece_spelled {char : Char} {rest : List Char} {kind : Kind} {size : Nat}
    (piece : Piece.ofText char rest = .token kind size) (word : kind ∈ wordKinds) :
    Kind.ofWord (String.ofList ((char :: rest).take size)) = kind := by
  unfold Piece.ofText at piece
  split at piece
  next => cases piece
  split at piece
  next => cases piece
  split at piece
  next => split at piece <;> cases piece
  split at piece
  next =>
    split at piece <;> cases piece
    exact absurd word (by decide)
  split at piece
  next mark found =>
    cases piece
    exact absurd word (punctuation_not_word found)
  split at piece
  next operator found =>
    obtain ⟨single, double⟩ := operators_not_word found
    unfold Piece.ofOperator at piece
    split at piece <;> cases piece
    · exact absurd word double
    · exact absurd word single
  next =>
    cases piece
    rfl

theorem scan_from_spelled (position : Position) (skip : Nat) (text : List Char) :
    ∀ token ∈ (scanFrom position skip text).tokens, token.Spelled := by
  induction text generalizing position skip with
  | nil =>
      intro token member word
      simp only [scanFrom, Position.token, List.mem_singleton] at member
      subst member
      exact absurd word (show Kind.endOfInput ∉ wordKinds by decide)
  | cons char rest induction =>
      cases skip with
      | succ skip => exact induction _ _
      | zero =>
          unfold scanFrom
          split
          next => exact induction _ _
          next kind size piece =>
            refine List.forall_mem_cons.2 ⟨fun word => ?_, induction _ _⟩
            exact piece_spelled piece word
          next =>
            refine List.forall_mem_cons.2 ⟨fun word => ?_, induction _ _⟩
            exact absurd word (show Kind.string ∉ wordKinds by decide)
          next => exact List.forall_mem_nil _

theorem tokens_spelled {source : String} {tokens : List Token}
    (scanned : Lexer.tokens source = .ok tokens) : ∀ token ∈ tokens, token.Spelled := by
  have spelled := scan_from_spelled .start 0 source.toList
  unfold Lexer.tokens scan at scanned
  split at scanned
  next => cases scanned
  next found same =>
    cases scanned
    rwa [same] at spelled

end Lexer

namespace Token

/-- A name that no reserved word is confused with. -/
def Ordinary (name : String) : Prop := name ≠ "this" ∧ name ≠ "base"

instance (name : String) : Decidable (Ordinary name) := inferInstanceAs (Decidable (_ ∧ _))

theorem Spelled.ordinary {token : Token} (spelled : token.Spelled)
    (kind : token.kind = .identifier) : Ordinary token.lexeme := by
  have same := spelled (by rw [kind]; decide)
  rw [kind] at same
  constructor <;> intro reserved <;> rw [reserved] at same <;> revert same <;> decide

theorem Spelled.reserved {token : Token} (spelled : token.Spelled)
    (word : token.kind ∈ Kind.reservedWords.map Prod.snd) :
    (token.lexeme, token.kind) ∈ Kind.reservedWords := by
  have same := spelled (List.mem_cons_of_mem _ word)
  unfold Kind.ofWord at same
  cases found : Kind.reservedWords.lookup token.lexeme with
  | none =>
      rw [found] at same
      rw [← same] at word
      exact absurd word (by decide)
  | some kind =>
      obtain ⟨before, after, split, -⟩ := List.lookup_eq_some_iff.1 found
      rw [found] at same
      rw [← same, split]
      simp

theorem Spelled.this_lexeme {token : Token} (spelled : token.Spelled)
    (kind : token.kind = .thisWord) : token.lexeme = "this" := by
  have member := spelled.reserved (by rw [kind]; decide)
  rw [kind] at member
  simpa [Kind.reservedWords] using member

theorem Spelled.base_lexeme {token : Token} (spelled : token.Spelled)
    (kind : token.kind = .baseWord) : token.lexeme = "base" := by
  have member := spelled.reserved (by rw [kind]; decide)
  rw [kind] at member
  simpa [Kind.reservedWords] using member

end Token

end Quill
