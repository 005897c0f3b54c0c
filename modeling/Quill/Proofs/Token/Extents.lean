import Mathlib.Data.List.TakeWhile
import Mathlib.Data.Nat.Find
import Quill.Token.Lexer

/-!
How far the lexer reaches. A comment ends with its line, a string at the next quote, and a numeral
where the longest numeral does: the points that the lexer looks at behind it only decide whether
the numeral is accepted at all.
-/

namespace Quill.Lexer

set_option autoImplicit false

structure Digits (text : List Char) : Prop where
  present : text ≠ []
  all : ∀ char ∈ text, char.isDigit = true

inductive Numeral : List Char → Prop where
  | whole {digits : List Char} (run : Digits digits) : Numeral digits
  | fraction {digits behind : List Char} (run : Digits digits) (further : Digits behind) :
      Numeral (digits ++ '.' :: behind)

/-- The word is the longest numeral that the text begins with. This says what a literal is without
the lexer: whatever its reader does is measured against it. -/
structure LongestNumeral (word text : List Char) : Prop where
  numeral : Numeral word
  begins : word <+: text
  longest : ∀ other, Numeral other → other <+: text → other.length ≤ word.length

section Runs

variable {property : Char → Bool}

theorem take_while_run {run after : List Char} (all : ∀ char ∈ run, property char = true)
    (stops : ∀ char ∈ after.head?, property char = false) :
    (run ++ after).takeWhile property = run := by
  rw [List.takeWhile_append_of_pos all]
  cases after with
  | nil => simp
  | cons char after => simp [stops char rfl]

theorem run_split (property : Char → Bool) (text : List Char) :
    ∃ run after, text = run ++ after ∧ text.takeWhile property = run ∧
      (∀ char ∈ run, property char = true) ∧ ∀ char ∈ after.head?, property char = false := by
  refine ⟨text.takeWhile property, text.dropWhile property,
    List.takeWhile_append_dropWhile.symm, rfl, ?_, ?_⟩
  · intro char member
    exact List.mem_takeWhile_imp member
  · intro char isHead
    have stopped := List.head?_dropWhile_not property text
    rw [Option.mem_def.1 isHead] at stopped
    simpa using stopped

theorem split_at_mark {mark : Char} {text : List Char} (present : mark ∈ text) :
    ∃ run after, text = run ++ mark :: after ∧ mark ∉ run ∧
      text.takeWhile (· != mark) = run := by
  obtain ⟨run, after, rfl, longest, all, stops⟩ := run_split (· != mark) text
  have absent : mark ∉ run := by
    intro member
    simpa using all mark member
  cases after with
  | nil => simp [absent] at present
  | cons char after =>
      have same : char = mark := by simpa using stops char rfl
      subst same
      exact ⟨run, after, rfl, absent, longest⟩

theorem take_while_absent {mark : Char} {text : List Char} (absent : mark ∉ text) :
    text.takeWhile (· != mark) = text := by
  rw [List.takeWhile_eq_self_iff]
  intro char member
  simpa using fun same : char = mark => absent (same ▸ member)

theorem take_while_mark {mark : Char} {run : List Char} (absent : mark ∉ run) (after : List Char) :
    (run ++ mark :: after).takeWhile (· != mark) = run := by
  apply take_while_run
  · intro char member
    simpa using fun same : char = mark => absent (same ▸ member)
  · simp

end Runs

section Extents

theorem comment_ended {body : List Char} (oneLine : '\n' ∉ body) (after : List Char) :
    Extent.comment ('#' :: (body ++ '\n' :: after)) = body.length + 2 := by
  have whole : '\n' ∉ '#' :: body := by simp [oneLine]
  have run := take_while_mark whole after
  rw [List.cons_append] at run
  unfold Extent.comment
  rw [run]
  simp only [List.length_cons, List.length_append]
  omega

theorem comment_open {body : List Char} (oneLine : '\n' ∉ body) :
    Extent.comment ('#' :: body) = body.length + 1 := by
  have whole : '\n' ∉ '#' :: body := by simp [oneLine]
  unfold Extent.comment
  rw [take_while_absent whole]
  simp

theorem string_closed {body : List Char} (unquoted : '\x22' ∉ body) (after : List Char) :
    Extent.string? ('\x22' :: (body ++ '\x22' :: after)) = some (body.length + 2) := by
  simp only [Extent.string?, take_while_mark unquoted]
  simp

theorem string_open {rest : List Char} (unquoted : '\x22' ∉ rest) :
    Extent.string? ('\x22' :: rest) = none := by
  simp [Extent.string?, take_while_absent unquoted]

theorem digits_run {run after : List Char} (all : ∀ char ∈ run, char.isDigit = true)
    (stops : ∀ char ∈ after.head?, char.isDigit = false) :
    Extent.digits (run ++ after) = run.length := by
  rw [Extent.digits, take_while_run all stops]

theorem digits_zero_iff (text : List Char) :
    Extent.digits text = 0 ↔ Extent.startsWithDigit text = false := by
  cases text with
  | nil => simp [Extent.digits, Extent.startsWithDigit]
  | cons char text =>
      cases digit : char.isDigit <;> simp [Extent.digits, Extent.startsWithDigit, digit]

def pointed : List Char → Bool
  | '.' :: rest => Extent.startsWithDigit rest
  | _ => false

def doublyPointed : List Char → Bool
  | '.' :: rest => pointed rest
  | _ => false

/-- Is the numeral malformed because of what stands behind it? One point before a digit is too many
in any case, and two are if there is no fraction. -/
def refusedBefore (word behind : List Char) : Bool :=
  pointed behind || (!word.contains '.' && doublyPointed behind)

theorem pointed_other {text : List Char} (other : ∀ rest, text ≠ '.' :: rest) :
    pointed text = false := by
  unfold pointed
  split
  next rest => exact absurd rfl (other rest)
  next => rfl

theorem doubly_pointed_other {text : List Char} (other : ∀ rest, text ≠ '.' :: rest) :
    doublyPointed text = false := by
  unfold doublyPointed
  split
  next rest => exact absurd rfl (other rest)
  next => rfl

theorem number_whole {run behind : List Char} (digits : Digits run)
    (stops : ∀ char ∈ behind.head?, char.isDigit = false) (unpointed : pointed behind = false) :
    Extent.number? (run ++ behind) = if doublyPointed behind then none else some run.length := by
  unfold Extent.number?
  rw [digits_run digits.all stops]
  simp only [List.drop_left]
  split
  next rest => rfl
  next rest single =>
    have noFraction : Extent.digits rest = 0 := (digits_zero_iff rest).2 unpointed
    have notDouble : doublyPointed ('.' :: rest) = false := pointed_other single
    rw [noFraction, notDouble]
    rfl
  next other => rw [doubly_pointed_other other, if_neg Bool.false_ne_true]

/-- A point with digits behind it goes with the digits before it. What makes such a number malformed
is a second point with a digit behind it, and nothing else. -/
theorem number_fraction {whole fraction behind : List Char} (digits : Digits whole)
    (further : Digits fraction) (stops : ∀ char ∈ behind.head?, char.isDigit = false) :
    Extent.number? (whole ++ '.' :: (fraction ++ behind)) =
      if pointed behind then none else some (whole ++ '.' :: fraction).length := by
  obtain ⟨first, others, rfl⟩ := List.exists_cons_of_ne_nil further.present
  have firstDigit := further.all first List.mem_cons_self
  have taken : Extent.digits (first :: (others ++ behind)) = (first :: others).length :=
    digits_run further.all stops
  have dropped : (first :: (others ++ behind)).drop (first :: others).length = behind :=
    List.drop_left
  have size : (whole ++ '.' :: first :: others).length =
      whole.length + 1 + (first :: others).length := by
    simp only [List.length_append, List.length_cons]
    omega
  unfold Extent.number?
  rw [digits_run digits.all (by simp)]
  simp only [List.drop_left, List.cons_append]
  split
  next rest same =>
    cases same
    simp at firstDigit
  next rest _ same =>
    cases same
    rw [taken, if_neg (by simp), dropped, size]
    split
    next => rfl
    next other => rw [pointed_other other, if_neg Bool.false_ne_true]
  next other => exact absurd rfl (other _)

theorem digit_not_point {run : List Char} (digits : Digits run) : '.' ∉ run := by
  intro member
  exact absurd (digits.all '.' member) (by decide)

theorem numeral_head {word : List Char} (numeral : Numeral word) :
    ∃ char rest, word = char :: rest ∧ char.isDigit = true := by
  have first {digits : List Char} (run : Digits digits) :
      ∃ char rest, digits = char :: rest ∧ char.isDigit = true := by
    obtain ⟨char, rest, rfl⟩ := List.exists_cons_of_ne_nil run.present
    exact ⟨char, rest, rfl, run.all char List.mem_cons_self⟩
  cases numeral with
  | whole run => exact first run
  | fraction run further =>
      obtain ⟨char, rest, rfl, digit⟩ := first run
      exact ⟨char, rest ++ '.' :: _, rfl, digit⟩

theorem numeral_extend {word : List Char} {char : Char} (numeral : Numeral word)
    (digit : char.isDigit = true) : Numeral (word ++ [char]) := by
  have longer {run : List Char} (digits : Digits run) : Digits (run ++ [char]) := by
    refine ⟨by simp, fun other member => ?_⟩
    rcases List.mem_append.1 member with inside | last
    · exact digits.all other inside
    · rw [List.mem_singleton.1 last]
      exact digit
  cases numeral with
  | whole digits => exact .whole (longer digits)
  | @fraction whole fraction digits further =>
      rw [List.append_assoc, List.cons_append]
      exact .fraction digits (longer further)

theorem longest_stops {word behind : List Char} (longest : LongestNumeral word (word ++ behind)) :
    ∀ char ∈ behind.head?, char.isDigit = false := by
  intro char isHead
  obtain ⟨rest, rfl⟩ := List.head?_eq_some_iff.1 (Option.mem_def.1 isHead)
  by_contra digit
  have longer := longest.longest (word ++ [char])
    (numeral_extend longest.numeral (by simpa using digit)) ⟨rest, by simp⟩
  rw [List.length_append, List.length_singleton] at longer
  omega

theorem longest_unpointed {run behind : List Char} (digits : Digits run)
    (longest : LongestNumeral run (run ++ behind)) : pointed behind = false := by
  unfold pointed
  split
  next rest =>
    cases rest with
    | nil => rfl
    | cons char rest =>
        by_contra digit
        have fraction : Digits [char] := ⟨by simp, by simpa [Extent.startsWithDigit] using digit⟩
        have longer := longest.longest (run ++ '.' :: [char]) (.fraction digits fraction)
          ⟨rest, by simp⟩
        simp only [List.length_append, List.length_cons] at longer
        omega
  next => rfl

/-- The reader of numbers, told by the longest numeral: it takes exactly this one, unless what
stands behind it makes it refuse. -/
theorem number_exact {word behind : List Char}
    (longest : LongestNumeral word (word ++ behind)) :
    Extent.number? (word ++ behind) =
      if refusedBefore word behind then none else some word.length := by
  have stops := longest_stops longest
  unfold refusedBefore
  cases longest.numeral with
  | whole digits =>
      have unpointed := longest_unpointed digits longest
      rw [number_whole digits stops unpointed, unpointed]
      simp [digit_not_point digits]
  | @fraction whole fraction digits further =>
      rw [List.append_assoc, List.cons_append, number_fraction digits further stops]
      simp

/-- A text that begins with a digit begins with a longest numeral, since numerals that a text begins
with are no longer than the text. -/
theorem longest_numeral {char : Char} (digit : char.isDigit = true) (rest : List Char) :
    ∃ word behind, char :: rest = word ++ behind ∧ LongestNumeral word (word ++ behind) := by
  classical
  let text := char :: rest
  let size := Nat.findGreatest (fun size => Numeral (text.take size)) text.length
  have single : Numeral (text.take 1) := .whole ⟨by simp [text], by simpa [text] using digit⟩
  have numeral : Numeral (text.take size) :=
    Nat.findGreatest_spec (P := fun size => Numeral (text.take size)) (by simp [text]) single
  refine ⟨text.take size, text.drop size, (List.take_append_drop _ _).symm, numeral,
    List.prefix_append _ _, ?_⟩
  rw [List.take_append_drop]
  intro other isNumeral begins
  have within : other.length ≤ text.length := begins.length_le
  have isTaken : other = text.take other.length := List.prefix_iff_eq_take.1 begins
  have bound : other.length ≤ size := Nat.le_findGreatest within (isTaken ▸ isNumeral)
  rw [List.length_take]
  exact Nat.le_min.2 ⟨bound, within⟩

theorem number_of_numeral {word after : List Char} (numeral : Numeral word)
    (stops : ∀ char ∈ after.head?, char.isDigit = false ∧ char ≠ '.') :
    Extent.number? (word ++ after) = some word.length := by
  have noDigit : ∀ char ∈ after.head?, char.isDigit = false := fun char isHead =>
    (stops char isHead).1
  have other : ∀ rest, after ≠ '.' :: rest := by
    rintro rest rfl
    exact (stops '.' rfl).2 rfl
  have unpointed := pointed_other other
  cases numeral with
  | whole digits =>
      rw [number_whole digits noDigit unpointed, doubly_pointed_other other]
      rfl
  | fraction digits further =>
      rw [List.append_assoc, List.cons_append, number_fraction digits further noDigit, unpointed]
      rfl

/-- What is taken for a number is the longest numeral. -/
theorem number_found {char : Char} {rest : List Char} {size : Nat} (digit : char.isDigit = true)
    (found : Extent.number? (char :: rest) = some size) :
    ∃ word behind, char :: rest = word ++ behind ∧ LongestNumeral word (word ++ behind) ∧
      size = word.length := by
  obtain ⟨word, behind, parts, longest⟩ := longest_numeral digit rest
  rw [parts, number_exact longest] at found
  split at found
  next => cases found
  next => exact ⟨word, behind, parts, longest, (Option.some.inj found).symm⟩

end Extents

end Quill.Lexer
