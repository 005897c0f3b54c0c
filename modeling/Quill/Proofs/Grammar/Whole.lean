import Quill.Proofs.Grammar.Clause
import Quill.Proofs.Grammar.Consumption

/-!
Whole token lists. A parse reads everything before the end mark, and what it returns is a
reading of these tokens.
-/

namespace Quill.Grammar

set_option autoImplicit false

/-- The tokens of a list before its end mark. All else that stands in a list is never looked at, and
a list without an end mark is read as a whole. -/
def beforeEnd (tokens : List Token) : List Token :=
  tokens.takeWhile (·.kind ≠ .endOfInput)

theorem start_closed (tokens : List Token) {finish : Token} (closed : finish.kind = .endOfInput) :
    (Cursor.start tokens finish).finish.kind = .endOfInput := by
  unfold Cursor.start
  cases found : tokens.find? (·.kind = .endOfInput) with
  | none => simpa using closed
  | some token => simpa using List.find?_some found

theorem start_append {front : List Token} (plain : ∀ token ∈ front, token.kind ≠ .endOfInput)
    (back : List Token) (finish : Token) :
    Cursor.start (front ++ back) finish =
      { Cursor.start back finish with rest := front ++ (Cursor.start back finish).rest } := by
  have rest : (front ++ back).takeWhile (·.kind ≠ .endOfInput) =
      front ++ back.takeWhile (·.kind ≠ .endOfInput) :=
    List.takeWhile_append_of_pos (by simpa using plain)
  have absent : front.find? (·.kind = .endOfInput) = none :=
    List.find?_eq_none.2 (by simpa using plain)
  unfold Cursor.start
  rw [rest, List.find?_append, absent, Option.none_or]

theorem start_ended {words : List Token} {ending : Token} (closed : ending.kind = .endOfInput)
    (plain : ∀ token ∈ words, token.kind ≠ .endOfInput) (finish : Token) :
    Cursor.start (words ++ [ending]) finish = ⟨words, ending, 0, []⟩ := by
  rw [start_append plain]
  simp [Cursor.start, closed]

theorem before_end_ended {words : List Token} {ending : Token}
    (closed : ending.kind = .endOfInput) (plain : ∀ token ∈ words, token.kind ≠ .endOfInput) :
    beforeEnd (words ++ [ending]) = words :=
  congrArg Cursor.rest (start_ended closed plain ending)

def assigned (tokens : List Token) (finish : Token) : Nat :=
  (stopOf (program (Cursor.start tokens finish))).nextId

/-- A parse reads all tokens before the end mark and gives out all numbers that it assigns. From
this come the facts about whole programs, whatever faults they have. -/
theorem parse_assigns (tokens : List Token) {finish : Token} (closed : finish.kind = .endOfInput) :
    Forms (.body (parse tokens finish).statements) (beforeEnd tokens) 0 (assigned tokens finish)
      (parse tokens finish).faults := by
  have startClosed := start_closed tokens closed
  obtain ⟨stmts, stop, programRun, ended⟩ := program_total (Cursor.start tokens finish)
  obtain ⟨words, added, formed⟩ := program_produces _ _ _ programRun startClosed
  have consumed : beforeEnd tokens = words := by
    have rest := formed.rest
    rw [ended, List.append_nil] at rest
    exact rest
  have recorded : stop.faults = added := formed.faults
  unfold parse assigned
  rw [programRun, consumed]
  simp only [recorded]
  exact formed.forms

theorem parse_forms (tokens : List Token) {finish : Token} (closed : finish.kind = .endOfInput) :
    ∃ next, Forms (.body (parse tokens finish).statements) (beforeEnd tokens) 0 next
      (parse tokens finish).faults :=
  ⟨_, parse_assigns tokens closed⟩

end Quill.Grammar
