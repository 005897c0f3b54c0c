import Quill.Proofs.Token.Turns

/-!
Points that a literal has no use for. Behind the longest numeral that a literal begins with may
stand one point before a digit, or two. The lexer refuses the first always, and the second only
behind a numeral without a fraction; behind a fraction the two points are tokens. So the numbers
of a scan are the literals that the scanner comes to and that are not continued in a way that is
refused, and a number of a source is malformed where the scanner comes to a literal that is.
-/

namespace Quill.Lexer

set_option autoImplicit false

open Text (byteLength byte?)

section Points

def OnePoint (source : String) (offset : Nat) : Prop :=
  byte? source offset = some '.'.toUInt8 ∧
    ∃ digit : Char, digit.isDigit = true ∧ byte? source (offset + 1) = some digit.toUInt8

def TwoPoints (source : String) (offset : Nat) : Prop :=
  byte? source offset = some '.'.toUInt8 ∧ OnePoint source (offset + 1)

/-- What makes a literal malformed: one point before a digit behind it, or two if it has no
fraction. -/
def Surplus (source : String) (literal : Token) : Prop :=
  OnePoint source literal.span.stop ∨
    '.' ∉ literal.lexeme.toList ∧ TwoPoints source literal.span.stop

variable {source : String} {front behind : List Char}

theorem point_behind (parts : source.toList = front ++ behind) :
    byte? source (byteLength front) = some '.'.toUInt8 ↔ ∃ rest, behind = '.' :: rest := by
  rw [Text.byte_behind parts (by decide), List.head?_eq_some_iff]

theorem past_point {rest : List Char} (parts : source.toList = front ++ '.' :: rest) :
    source.toList = (front ++ ['.']) ++ rest ∧
      byteLength (front ++ ['.']) = byteLength front + 1 := by
  have size : ('.' : Char).utf8Size = 1 := by decide
  exact ⟨by simp [parts], by simp [size]⟩

theorem one_point_iff (parts : source.toList = front ++ behind) :
    OnePoint source (byteLength front) ↔ pointed behind = true := by
  unfold OnePoint
  rw [point_behind parts]
  constructor
  · rintro ⟨⟨rest, rfl⟩, digit, isDigit, next⟩
    obtain ⟨further, length⟩ := past_point parts
    rw [← length, Text.byte_behind further (digit_plain isDigit)] at next
    change Extent.startsWithDigit rest = true
    rw [Extent.startsWithDigit, next]
    exact isDigit
  · intro isPointed
    unfold pointed at isPointed
    split at isPointed
    next rest =>
      obtain ⟨further, length⟩ := past_point parts
      obtain ⟨digit, first, isDigit⟩ := (Option.any_eq_true _ _).1 isPointed
      refine ⟨⟨rest, rfl⟩, digit, isDigit, ?_⟩
      rw [← length, Text.byte_behind further (digit_plain isDigit)]
      exact first
    next => cases isPointed

theorem two_points_iff (parts : source.toList = front ++ behind) :
    TwoPoints source (byteLength front) ↔ doublyPointed behind = true := by
  unfold TwoPoints
  rw [point_behind parts]
  constructor
  · rintro ⟨⟨rest, rfl⟩, next⟩
    obtain ⟨further, length⟩ := past_point parts
    rw [← length, one_point_iff further] at next
    exact next
  · intro isPointed
    unfold doublyPointed at isPointed
    split at isPointed
    next rest =>
      obtain ⟨further, length⟩ := past_point parts
      refine ⟨⟨rest, rfl⟩, ?_⟩
      rw [← length, one_point_iff further]
      exact isPointed
    next => cases isPointed

end Points

section Literals

/-- A literal of a source: the token of a numeral that the scanner comes to, whether it is then
taken for a number or refused. -/
def Literal (source : String) (token : Token) : Prop :=
  ∃ place word behind, Comes source place word behind ∧ token = place.token .number 0 word

def RefusesNumber (source : String) (line : Nat) : Prop :=
  ∃ fault, tokens source = .error fault ∧
    fault.diagnose .lex Fault.message = .source .lex line "Malformed number."

theorem refuses_number_iff {source : String} {line : Nat} :
    RefusesNumber source line ↔ (scan source).fault = some ⟨line, .malformedNumber⟩ := by
  unfold RefusesNumber tokens
  generalize scan source = scanned
  obtain ⟨found, fault⟩ := scanned
  cases fault with
  | none => simp
  | some fault =>
      obtain ⟨line, cause⟩ := fault
      cases cause <;> simp [Located.diagnose, Fault.message]

variable {source : String} {place : Position} {word behind : List Char}

theorem surplus_iff (comes : Comes source place word behind) :
    Surplus source (place.token .number 0 word) ↔ refusedBefore word behind = true := by
  obtain ⟨front, parts, rfl⟩ := comes_place comes
  rw [← List.append_assoc] at parts
  have stop : ((Position.start.past front).token .number 0 word).span.stop =
      byteLength (front ++ word) := by
    simp [Position.token, Position.start]
  unfold Surplus refusedBefore
  rw [stop, one_point_iff parts, two_points_iff parts]
  simp [Position.token]

theorem comes_line (comes : Comes source place word behind) :
    place.line = 1 + newlineBytes source (place.token .number 0 word).span.start := by
  obtain ⟨front, parts, rfl⟩ := comes_place comes
  have start : ((Position.start.past front).token .number 0 word).span.start =
      byteLength front := by
    simp [Position.token, Position.start]
  rw [start, newline_bytes_front parts, past_line]
  rfl

/-- The numbers of a scan are the literals that are not continued by points in surplus: by one
before a digit or, if they have no fraction, by two. A literal that is so continued is a malformed
number on the line where it starts, and nothing else is. -/
theorem surplus_points_refused (source : String) :
    (∀ token, token ∈ (scan source).tokens ∧ token.kind = .number ↔
      Literal source token ∧ ¬ Surplus source token) ∧
    ∀ line, RefusesNumber source line ↔ ∃ literal, Literal source literal ∧
      Surplus source literal ∧ line = 1 + newlineBytes source literal.span.start := by
  constructor
  · intro token
    rw [number_token_iff]
    constructor
    · rintro ⟨place, word, behind, comes, accepted, rfl⟩
      refine ⟨⟨place, word, behind, comes, rfl⟩, ?_⟩
      rw [surplus_iff comes, accepted]
      exact Bool.false_ne_true
    · rintro ⟨⟨place, word, behind, comes, rfl⟩, spared⟩
      rw [surplus_iff comes] at spared
      exact ⟨place, word, behind, comes, by simpa using spared, rfl⟩
  · intro line
    rw [refuses_number_iff, malformed_number_iff]
    constructor
    · rintro ⟨place, word, behind, comes, refused, rfl⟩
      exact ⟨_, ⟨place, word, behind, comes, rfl⟩, (surplus_iff comes).2 refused, comes_line comes⟩
    · rintro ⟨literal, ⟨place, word, behind, comes, rfl⟩, surplus, rfl⟩
      exact ⟨place, word, behind, comes, (surplus_iff comes).1 surplus, (comes_line comes).symm⟩

/-- Two points between a numeral with a fraction and a digit. After the fraction only one point is
looked for. -/
def doubled : String := "5.5..5"

/-- Two points behind a fraction are accepted, although a digit follows them. -/
theorem doubled_points_accepted :
    ∃ token ∈ (scan doubled).tokens, token.kind = .number ∧ Literal doubled token ∧
      TwoPoints doubled token.span.stop ∧ ∀ line, ¬ RefusesNumber doubled line := by
  have scanned : (scan doubled).fault = none ∧ (scan doubled).tokens.head? =
      some (Position.start.token .number 0 ['5', '.', '5']) := by decide +kernel
  have member := List.mem_of_head? scanned.2
  obtain ⟨place, word, behind, comes, -, isToken⟩ := number_token_iff.1 ⟨member, rfl⟩
  have parts : doubled.toList = ['5', '.', '5'] ++ ['.', '.', '5'] := by decide
  refine ⟨_, member, rfl, ⟨place, word, behind, comes, isToken⟩,
    (two_points_iff parts).2 (by decide), ?_⟩
  intro line refused
  rw [refuses_number_iff, scanned.1] at refused
  cases refused

end Literals

end Quill.Lexer
