import Mathlib.Data.List.Forall2
import Quill.Proofs.Tree.Formed

/-!
Expressions as they are written. An expression is laid out from left to right into slots,
each of which is filled by one token; and it respects precedence if every operand binds at
least as strongly as its place demands. Every expression that is read respects precedence,
and its slots are filled by the tokens it was read from.
-/

namespace Quill

set_option autoImplicit false

open Grammar

namespace Grammar

def Level.rank : Level → Nat
  | assignment => 0
  | disjunction => 1
  | conjunction => 2
  | equality => 3
  | comparison => 4
  | term => 5
  | factor => 6
  | unary => 7
  | call => 8
  | primary => 9

def Level.joinedBy : Kind → Level
  | .orOr => disjunction
  | .andAnd => conjunction
  | .bangEqual | .equalEqual => equality
  | .greater | .greaterEqual | .less | .lessEqual => comparison
  | .minus | .plus => term
  | .star | .slash => factor
  | _ => primary

theorem joined_by {level : Level} {kind : Kind} (member : kind ∈ level.operators) :
    Level.joinedBy kind = level := by
  revert kind
  cases level <;> decide

theorem rank_cases (level other : Level) (bound : level.rank ≤ other.rank) :
    other = level ∨ level.operand.rank ≤ other.rank := by
  cases level <;> cases other <;> simp_all [Level.rank, Level.operand]

theorem operand_rank (level : Level) : level.rank ≤ level.operand.rank := by
  cases level <;> decide

/-- A place in a written expression: for a token that the tree keeps, for a token of which
only the kind matters, or for the token of a constant. -/
inductive Slot where
  | held (token : Token)
  | mark (kind : Kind)
  | constant (value : Literal)

def constantKind : Literal → Kind
  | .nil => .nilWord
  | .boolean false => .falseWord
  | .boolean true => .trueWord
  | .number _ => .number
  | .text _ => .string

theorem literal_kind {token : Token} {value : Literal} (denotes : literalOf? token = some value) :
    token.kind = constantKind value := by
  unfold literalOf? at denotes
  split at denotes
  case h_4 kind =>
    obtain ⟨bits, -, rfl⟩ := Option.map_eq_some_iff.1 denotes
    exact kind
  case h_6 => cases denotes
  all_goals
    next kind =>
      cases denotes
      exact kind

namespace Slot

def kind : Slot → Kind
  | held token => token.kind
  | mark kind => kind
  | constant value => constantKind value

@[simp] theorem kind_held (token : Token) : (held token).kind = token.kind := rfl

@[simp] theorem kind_mark (kind : Kind) : (mark kind).kind = kind := rfl

@[simp] theorem kind_constant (value : Literal) :
    (constant value).kind = constantKind value := rfl

def FilledBy : Slot → Token → Prop
  | held kept, token => token = kept
  | mark kind, token => token.kind = kind
  | constant value, token => literalOf? token = some value

theorem FilledBy.same_kind {slot : Slot} {token : Token} (fills : slot.FilledBy token) :
    token.kind = slot.kind := by
  cases slot with
  | held kept => exact congrArg Token.kind fills
  | mark kind => exact fills
  | constant value => exact literal_kind fills

end Slot

def Fill (slots : List Slot) (words : List Token) : Prop :=
  List.Forall₂ Slot.FilledBy slots words

theorem Fill.kinds {slots : List Slot} {words : List Token} (fill : Fill slots words) :
    slots.map Slot.kind = words.map Token.kind := by
  induction fill with
  | nil => rfl
  | cons fills _ induction => rw [List.map_cons, List.map_cons, fills.same_kind, induction]

theorem Fill.append {slots moreSlots : List Slot} {words moreWords : List Token}
    (first : Fill slots words) (second : Fill moreSlots moreWords) :
    Fill (slots ++ moreSlots) (words ++ moreWords) :=
  List.rel_append first second

theorem fill_one {slot : Slot} {word : Token} (fills : slot.FilledBy word) :
    Fill [slot] [word] :=
  .cons fills .nil

end Grammar

mutual

/-- The slots of an expression from left to right. A tree does not keep its brackets and commas, so
these are written as marks, for which any token of the kind will do. -/
def Expr.flatten : Expr → List Slot
  | .literal _ value => [.constant value]
  | .grouping _ inner => .mark .leftParen :: (inner.flatten ++ [.mark .rightParen])
  | .unary _ operator right => .held operator :: right.flatten
  | .binary _ left operator right => left.flatten ++ .held operator :: right.flatten
  | .logical _ left operator right => left.flatten ++ .held operator :: right.flatten
  | .variableRef _ name => [.held name]
  | .thisRef _ keyword => [.held keyword]
  | .baseRef _ keyword method => [.held keyword, .mark .dot, .held method]
  | .assign _ name value => .held name :: .mark .equal :: value.flatten
  | .call _ callee paren given =>
      callee.flatten ++ .mark .leftParen :: (flattenArguments given ++ [.held paren])
  | .get _ object name => object.flatten ++ [.mark .dot, .held name]
  | .set _ object name value =>
      object.flatten ++ .mark .dot :: .held name :: .mark .equal :: value.flatten

def flattenArguments : List Expr → List Slot
  | [] => []
  | [last] => last.flatten
  | first :: second :: others =>
      first.flatten ++ .mark .comma :: flattenArguments (second :: others)

end

def Expr.level : Expr → Level
  | .literal _ _ | .grouping _ _ | .variableRef _ _ | .thisRef _ _ | .baseRef _ _ _ => .primary
  | .unary _ _ _ => .unary
  | .binary _ _ operator _ | .logical _ _ operator _ => .joinedBy operator.kind
  | .assign _ _ _ | .set _ _ _ _ => .assignment
  | .call _ _ _ _ | .get _ _ _ => .call

def Expr.Fits (expr : Expr) (level : Level) : Prop := level.rank ≤ expr.level.rank

mutual

/-- Every operand is at a level that its place allows, and every token is of a kind that
its place allows. Operators group to the left: only the left operand may be at the level of
the operator itself. -/
def Expr.Respects : Expr → Prop
  | .literal _ _ => True
  | .grouping _ inner => inner.Respects
  | .unary _ operator right => operator.kind ∈ signs ∧ right.Fits .unary ∧ right.Respects
  | .binary _ left operator right =>
      operator.kind ∈ binaryOperators ∧
        (left.Fits (.joinedBy operator.kind) ∧ left.Respects) ∧
          right.Fits (Level.joinedBy operator.kind).operand ∧ right.Respects
  | .logical _ left operator right =>
      operator.kind ∈ logicalOperators ∧
        (left.Fits (.joinedBy operator.kind) ∧ left.Respects) ∧
          right.Fits (Level.joinedBy operator.kind).operand ∧ right.Respects
  | .variableRef _ name => name.kind = .identifier
  | .thisRef _ keyword => keyword.kind = .thisWord
  | .baseRef _ keyword method => keyword.kind = .baseWord ∧ method.kind = .identifier
  | .assign _ name value => name.kind = .identifier ∧ value.Respects
  | .call _ callee paren given =>
      (callee.Fits .call ∧ callee.Respects) ∧ (given.length ≤ listLimit ∧ respectsAll given) ∧
        paren.kind = .rightParen
  | .get _ object name => (object.Fits .call ∧ object.Respects) ∧ name.kind = .identifier
  | .set _ object name value =>
      (object.Fits .call ∧ object.Respects) ∧ name.kind = .identifier ∧ value.Respects

def respectsAll : List Expr → Prop
  | [] => True
  | expr :: others => expr.Respects ∧ respectsAll others

end

def Expr.Written (expr : Expr) (words : List Token) : Prop := Fill expr.flatten words

mutual

theorem flatten_plain : (expr : Expr) → expr.Respects →
    Kind.endOfInput ∉ expr.flatten.map Slot.kind
  | .literal _ value, _ => by
      cases value with
      | boolean truth => cases truth <;> simp [Expr.flatten, -List.mem_map, constantKind]
      | _ => simp [Expr.flatten, -List.mem_map, constantKind]
  | .variableRef _ _, respects | .thisRef _ _, respects | .baseRef _ _ _, respects => by
      simp_all [Expr.flatten, Expr.Respects, Slot.kind]
  | .grouping _ inner, respects => by
      simpa [Expr.flatten, -List.mem_map] using flatten_plain inner respects
  | .unary _ operator right, respects => by
      have signed : operator.kind ≠ .endOfInput := ne_of_mem_of_not_mem respects.1 (by decide)
      simpa [Expr.flatten, -List.mem_map, signed.symm] using flatten_plain right respects.2.2
  | .binary _ left operator right, respects
  | .logical _ left operator right, respects => by
      have joining : operator.kind ≠ .endOfInput := ne_of_mem_of_not_mem respects.1 (by decide)
      simpa [Expr.flatten, -List.mem_map, joining.symm] using
        ⟨flatten_plain left respects.2.1.2, flatten_plain right respects.2.2.2⟩
  | .assign _ _ value, respects => by
      simpa [Expr.flatten, -List.mem_map, respects.1] using flatten_plain value respects.2
  | .call _ callee _ given, respects => by
      simpa [Expr.flatten, -List.mem_map, respects.2.2] using
        ⟨flatten_plain callee respects.1.2, arguments_plain given respects.2.1.2⟩
  | .get _ object _, respects => by
      simpa [Expr.flatten, -List.mem_map, respects.2] using flatten_plain object respects.1.2
  | .set _ object _ value, respects => by
      simpa [Expr.flatten, -List.mem_map, respects.2.1] using
        ⟨flatten_plain object respects.1.2, flatten_plain value respects.2.2⟩

theorem arguments_plain : (given : List Expr) → respectsAll given →
    Kind.endOfInput ∉ (flattenArguments given).map Slot.kind
  | [], _ => by simp [flattenArguments]
  | [last], respects => flatten_plain last respects.1
  | first :: second :: others, respects => by
      simpa [flattenArguments, -List.mem_map] using
        ⟨flatten_plain first respects.1, arguments_plain (second :: others) respects.2⟩

end

theorem Expr.Written.plain {expr : Expr} {words : List Token} (written : expr.Written words)
    (respects : expr.Respects) : ∀ word ∈ words, word.kind ≠ .endOfInput := by
  have absent := flatten_plain expr respects
  rw [Fill.kinds written] at absent
  intro word member same
  exact absent (same ▸ List.mem_map_of_mem member)

theorem fits_assignment (expr : Expr) : expr.Fits .assignment := Nat.zero_le _

theorem Expr.Fits.weaken {expr : Expr} {level : Level} (fits : expr.Fits level.operand) :
    expr.Fits level :=
  Nat.le_trans (operand_rank level) fits

section Joined

variable {level : Level} (id : Nat) (left : Expr) (operator : Token) (right : Expr)

theorem build_flatten :
    (level.build id left operator right).flatten =
      left.flatten ++ .held operator :: right.flatten := by
  cases level <;> simp only [Level.build, Expr.flatten]

theorem build_level (member : operator.kind ∈ level.operators) :
    (level.build id left operator right).level = level := by
  rcases operators_binary member with ⟨build, -⟩ | ⟨build, -⟩ <;>
    rw [build, Expr.level, joined_by member]

theorem build_respects (member : operator.kind ∈ level.operators) :
    (level.build id left operator right).Respects ↔
      (left.Fits level ∧ left.Respects) ∧ right.Fits level.operand ∧ right.Respects := by
  rcases operators_binary member with ⟨build, isOperator⟩ | ⟨build, isOperator⟩ <;>
    simp only [build, Expr.Respects, joined_by member, isOperator, true_and]

end Joined

namespace Grammar

/-- What is read respects precedence, and is written by the tokens it is read from. Phrases are all
that the parser of expressions can return. -/
def Phrase.Mirrored : Phrase → List Token → Prop
  | .expr level term, words => (term.Fits level ∧ term.Respects) ∧ term.Written words
  | .arguments given, words => respectsAll given ∧ Fill (flattenArguments given) words

/-- What is read as a phrase respects precedence, and the tokens that it was read from fill the
slots that it flattens to. There is one case for each way to read a phrase. -/
theorem Reads.mirrored {phrase : Phrase} {words : List Token} {first next : Nat}
    (reads : Reads phrase words first next) : phrase.Mirrored words := by
  induction reads with
  | literal denotes => exact ⟨⟨Nat.le_refl _, trivial⟩, fill_one denotes⟩
  | variableRef kind => exact ⟨⟨Nat.le_refl _, kind⟩, fill_one rfl⟩
  | thisRef kind => exact ⟨⟨Nat.le_refl _, kind⟩, fill_one rfl⟩
  | baseRef keywordKind dotKind methodKind =>
      exact ⟨⟨Nat.le_refl _, keywordKind, methodKind⟩, .cons rfl (.cons dotKind (fill_one rfl))⟩
  | grouping leftKind body rightKind induction =>
      refine ⟨⟨Nat.le_refl _, ?_⟩, .cons leftKind (induction.2.append (fill_one rightKind))⟩
      exact induction.1.2
  | call head leftKind given limit rightKind headInduction givenInduction =>
      refine ⟨⟨Nat.le_refl _, headInduction.1, ⟨limit, givenInduction.1⟩, rightKind⟩, ?_⟩
      rw [List.append_assoc, List.cons_append]
      exact headInduction.2.append (.cons leftKind (givenInduction.2.append (fill_one rfl)))
  | get head dotKind nameKind induction =>
      refine ⟨⟨Nat.le_refl _, induction.1, nameKind⟩, ?_⟩
      exact induction.2.append (.cons dotKind (fill_one rfl))
  | unary kind body induction =>
      exact ⟨⟨Nat.le_refl _, kind, induction.1⟩, .cons rfl induction.2⟩
  | joined leftBody kind rightBody leftInduction rightInduction =>
      refine ⟨⟨?_, (build_respects _ _ _ _ kind).2 ⟨leftInduction.1, rightInduction.1⟩⟩, ?_⟩
      · exact Nat.le_of_eq (congrArg Level.rank (build_level _ _ _ _ kind).symm)
      · rw [Expr.Written, build_flatten]
        exact leftInduction.2.append (.cons rfl rightInduction.2)
  | only body induction => exact ⟨⟨induction.1.1.weaken, induction.1.2⟩, induction.2⟩
  | assign nameKind equalsKind body induction =>
      exact ⟨⟨Nat.le_refl _, nameKind, induction.1.2⟩, .cons rfl (.cons equalsKind induction.2)⟩
  | set head dotKind nameKind equalsKind body headInduction valueInduction =>
      refine ⟨⟨Nat.le_refl _, headInduction.1, nameKind, valueInduction.1.2⟩, ?_⟩
      exact headInduction.2.append (.cons dotKind (.cons rfl (.cons equalsKind valueInduction.2)))
  | noArguments => exact ⟨trivial, .nil⟩
  | lastArgument body induction => exact ⟨⟨induction.1.2, trivial⟩, induction.2⟩
  | @moreArguments _ _ _ _ others _ _ _ body commaKind present rest bodyInduction restInduction =>
      refine ⟨⟨bodyInduction.1.2, restInduction.1⟩, ?_⟩
      cases others with
      | nil => exact absurd rfl present
      | cons second others => exact bodyInduction.2.append (.cons commaKind restInduction.2)

end Grammar

end Quill
