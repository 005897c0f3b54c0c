import Quill.Proofs.Grammar.Confinement
import Quill.Proofs.Grammar.Recovery
import Quill.Proofs.Layout.Offences

/-!
What follows faulty tokens. Tokens that begin with a declaration are read behind any others as
they are read alone, however many faults there are before them, except where the tokens before
end in the middle of a declaration that goes on with the next one. Those places are known from
the faults that the tokens before have at their end when nothing follows.
-/

namespace Quill.Grammar

set_option autoImplicit false

/-- Read alone, the tokens have a fault at their end, and a token of this kind goes on there. What
is open can be told from the fault and from the last two tokens. -/
def LeftOpen (front : List Token) (finish : Token) (kind : Kind) : Prop :=
  ∃ offence ∈ offences front finish, offence.line = front.length ∧
    kind ∈ awaited (front.map Token.kind) offence.cause

instance (front : List Token) (finish : Token) (kind : Kind) :
    Decidable (LeftOpen front finish kind) :=
  inferInstanceAs (Decidable (∃ offence ∈ offences front finish, offence.line = front.length ∧
    kind ∈ awaited (front.map Token.kind) offence.cause))

section Following

variable {front back : List Token} {next finish : Token} (closed : finish.kind = .endOfInput)
  (starts : startsDeclaration next.kind = true)

def gapBehind (front : List Token) (back : List Token) : Gap where
  seam := ⟨.places front finish, (Cursor.start (next :: back) finish).rest,
    (Cursor.start (next :: back) finish).finish⟩
  next := next
  behind := back.takeWhile (·.kind ≠ .endOfInput)
  tail := by
    have other : next.kind ≠ .endOfInput := by
      intro same
      rw [same] at starts
      cases starts
    simp [Cursor.start, other]
  starts := starts
  front := front.map Token.kind
  finish := { finish with line := front.length }
  closed := closed

theorem indexed_kinds (tokens : List Token) :
    (indexed tokens).map Token.kind = tokens.map Token.kind := by
  refine List.ext_getElem (by simp [indexed]) fun place within inside => ?_
  simp [indexed]

theorem indexed_plain (plain : ∀ token ∈ front, token.kind ≠ .endOfInput) :
    ∀ token ∈ indexed front, token.kind ≠ .endOfInput := by
  intro token member same
  have kind : token.kind ∈ (indexed front).map Token.kind := List.mem_map_of_mem member
  rw [indexed_kinds, same] at kind
  obtain ⟨other, isOther, ended⟩ := List.mem_map.1 kind
  exact plain other isOther ended

theorem assigned_relabel (labels : Labels) (unshifted : labels.shift = 0) (tokens : List Token)
    (finish : Token) :
    assigned (tokens.map (Token.relabel labels)) (finish.relabel labels) =
      assigned tokens finish := by
  unfold assigned
  rw [start_unshifted labels unshifted, program_relabel]
  cases program (Cursor.start tokens finish) <;>
    simp [acrossOutcome, stopOf, Cursor.across, Seam.relabelling, unshifted]

/-- What is read at the start is read anywhere, whatever faults there were, up to the numbers of the
expressions, which go on from those given out before. -/
theorem program_later (tokens : List Token) (finish : Token) (shift : Nat)
    (earlier : List (Located Fault)) :
    ∃ last, program { Cursor.start tokens finish with nextId := shift, faults := earlier } =
      .ok (relabelStmts (.numbered shift) (parse tokens finish).statements) last := by
  obtain ⟨stmts, stop, run, -⟩ := program_total (Cursor.start tokens finish)
  have here : { Cursor.start tokens finish with nextId := shift, faults := earlier } =
      ((Cursor.start tokens finish).relabel (.numbered shift)).behind earlier := by
    simp only [Cursor.relabel, Cursor.across, Cursor.behind, Seam.relabelling, tokens_numbered,
      List.append_nil, Cursor.start, Nat.zero_add, List.map_nil]
    rfl
  have read : (parse tokens finish).statements = stmts := by
    unfold parse
    rw [run]
  rw [here, Script.program.behind, program_relabel, run, read]
  exact ⟨_, rfl⟩

include closed starts in
/-- Behind any tokens that are not left open, a declaration and all that follows it are read as
they are alone. The statements that survive before are those that the tokens before have alone,
and none of the faults there has taken anything from what follows. -/
theorem errors_confined (plain : ∀ token ∈ front, token.kind ≠ .endOfInput)
    (shut : ¬ LeftOpen front finish next.kind) :
    (parse (front ++ next :: back) finish).statements =
      (parse front finish).statements ++
        relabelStmts (.numbered (assigned front finish))
          (parse (next :: back) finish).statements := by
  let places := Labels.places front finish
  let last : Token := { finish with line := front.length }
  let gap : Gap := gapBehind closed starts front back
  let start := Cursor.start (indexed front) last
  have begins : start = ⟨indexed front, last, 0, []⟩ := start_plain (indexed_plain plain)
  have lastPlace : last.relabel places = finish := by
    simp only [last, places, Token.relabel, Labels.places,
      List.getD_eq_default _ _ (Nat.le_refl _)]
    rfl
  obtain ⟨stmts, stop, run, ended⟩ := program_total start
  -- The run over the places stands for the run over the tokens.
  have statements : (parse front finish).statements = relabelStmts places stmts := by
    have relabelled := parse_relabel places rfl (indexed front) last
    rw [indexed_relabel, lastPlace] at relabelled
    rw [relabelled, Parse.relabel]
    unfold parse
    rw [run]
  have numbers : assigned front finish = stop.nextId := by
    have relabelled := assigned_relabel places rfl (indexed front) last
    rw [indexed_relabel, lastPlace] at relabelled
    rw [relabelled]
    unfold assigned
    rw [run]
    rfl
  have after : gap.After [] start := by
    rw [begins]
    exact ⟨(indexed_kinds front).symm ▸ List.suffix_refl _, rfl⟩
  have calm : ¬ gap.Opened (program start) := by
    rintro ⟨fault, member, line, awaits⟩
    refine shut ⟨fault, ?_, line, awaits⟩
    rw [run] at member
    unfold offences parse
    rw [run]
    exact member
  obtain ⟨faults, follows⟩ := program_confined after run calm []
  obtain ⟨final, later⟩ := program_later (next :: back) finish stop.nextId faults
  have turns : stop.beyond gap.seam faults =
      { Cursor.start (next :: back) finish with nextId := stop.nextId, faults := faults } := by
    simp [Cursor.beyond, Cursor.across, ended, gap, gapBehind, Labels.places]
  have whole : start.beyond gap.seam [] = Cursor.start (front ++ next :: back) finish := by
    rw [begins, start_append plain]
    change (⟨(indexed front).map (Token.relabel places) ++ _, _, 0, []⟩ : Cursor) = _
    rw [indexed_relabel]
    rfl
  rw [← turns] at later
  have read := follows _ final later
  rw [whole] at read
  conv_lhs => unfold parse
  rw [read, statements, numbers]
  rfl

end Following

section Sample

def wordsOf (source : String) : List Token :=
  beforeEnd ((Lexer.tokens source).toOption.getD [])

/-- Faults in a block and in a method, both closed, and a statement without its semicolon. -/
def shaken : List Token :=
  wordsOf "\x7b a b; c; \x7d\n1 = 2;\nclass A \x7b f() \x7b x y; \x7d \x7d\nif (d) e"

theorem errors_confined_shaken :
    (parse shaken (Token.endOf [])).faults.length = 4 ∧
      (parse shaken (Token.endOf [])).statements.length = 2 ∧
      (parse (shaken ++ wordsOf "var g; g;") (Token.endOf [])).statements =
        (parse shaken (Token.endOf [])).statements ++
          relabelStmts (.numbered (assigned shaken (Token.endOf [])))
            (parse (wordsOf "var g; g;") (Token.endOf [])).statements := by
  have plain : ∀ token ∈ shaken, token.kind ≠ .endOfInput := by decide +kernel
  have shut : ¬ LeftOpen shaken (Token.endOf []) .varWord := by decide +kernel
  have words : wordsOf "var g; g;" = ⟨.varWord, ⟨0, 3⟩, "var", 1⟩ ::
      [⟨.identifier, ⟨4, 5⟩, "g", 1⟩, ⟨.semicolon, ⟨5, 6⟩, ";", 1⟩,
        ⟨.identifier, ⟨7, 8⟩, "g", 1⟩, ⟨.semicolon, ⟨8, 9⟩, ";", 1⟩] := by decide +kernel
  refine ⟨by decide +kernel, by decide +kernel, ?_⟩
  rw [words]
  exact errors_confined (end_of_kind _) rfl plain shut

/-- No closing brace comes before its opening one, and every opening one is closed. -/
def BracesMatch (tokens : List Token) : Prop :=
  (∀ front ∈ tokens.inits,
    front.countP (·.kind = .rightBrace) ≤ front.countP (·.kind = .leftBrace)) ∧
    tokens.countP (·.kind = .leftBrace) = tokens.countP (·.kind = .rightBrace)

/-- Matching braces do not keep the tokens before from going on: the `return` behind `if (a)`
is its branch, and no statement of its own. -/
theorem errors_not_confined :
    ¬ ∀ (front back : List Token) (finish : Token), finish.kind = .endOfInput →
      (∀ token ∈ front, token.kind ≠ .endOfInput) → BracesMatch front →
      (∃ next ∈ back.head?, startsDeclaration next.kind = true) →
      (parse back finish).faults = [] →
        unnumberedStmts (parse back finish).statements <:+
          unnumberedStmts (parse (front ++ back) finish).statements := by
  intro confined
  have braces : BracesMatch (wordsOf "if (a)") := ⟨by decide +kernel, by decide +kernel⟩
  have behind := confined (wordsOf "if (a)") (wordsOf "return;") (Token.endOf []) (end_of_kind _)
    (by decide +kernel) braces (by decide +kernel) (by decide +kernel)
  have returns := behind.map fun stmt => stmt matches .returnStmt _ _
  revert returns
  decide +kernel

end Sample

end Quill.Grammar
