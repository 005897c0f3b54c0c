import Quill.Proofs.Grammar.Acceptance
import Quill.Proofs.Grammar.Derivation

/-!
Expressions of the grammar are accepted. An expression ends where the next token cannot
extend it; at each level these are the operators of the level and of all stronger ones. The
length of an expression bounds the budget that it needs.
-/

namespace Quill.Grammar

set_option autoImplicit false

/-- The kinds of a token that would extend what stands before it. A parser takes all that it can, so
a phrase of a level is read as such only before other tokens. -/
def Level.extensions : Level → List Kind
  | assignment =>
      [.equal, .orOr, .andAnd, .bangEqual, .equalEqual, .greater, .greaterEqual, .less, .lessEqual,
        .minus, .plus, .star, .slash, .leftParen, .dot]
  | disjunction =>
      [.orOr, .andAnd, .bangEqual, .equalEqual, .greater, .greaterEqual, .less, .lessEqual,
        .minus, .plus, .star, .slash, .leftParen, .dot]
  | conjunction =>
      [.andAnd, .bangEqual, .equalEqual, .greater, .greaterEqual, .less, .lessEqual, .minus, .plus,
        .star, .slash, .leftParen, .dot]
  | equality =>
      [.bangEqual, .equalEqual, .greater, .greaterEqual, .less, .lessEqual, .minus, .plus, .star,
        .slash, .leftParen, .dot]
  | comparison =>
      [.greater, .greaterEqual, .less, .lessEqual, .minus, .plus, .star, .slash, .leftParen, .dot]
  | term => [.minus, .plus, .star, .slash, .leftParen, .dot]
  | factor => [.star, .slash, .leftParen, .dot]
  | unary | call => [.leftParen, .dot]
  | primary => []

theorem operand_extensions (level : Level) : level.operand.extensions ⊆ level.extensions := by
  cases level <;> decide

theorem operators_extend (level : Level) : level.operators ⊆ level.extensions := by
  cases level <;> decide

theorem operators_end (level : Level) :
    ∀ kind ∈ level.operators, kind ∉ level.operand.extensions := by
  cases level <;> decide

def leafKinds : List Kind :=
  [.number, .string, .trueWord, .falseWord, .nilWord, .thisWord, .identifier]

/-- A primary is a single word, a use of `base` or an expression between parentheses. -/
theorem primary_parts {words : List Token} (derives : Derives (.rule .primary) words) :
    (∃ word, words = [word] ∧ word.kind ∈ leafKinds) ∨
      (∃ keyword dot method, words = [keyword, dot, method] ∧ keyword.kind = .baseWord ∧
        dot.kind = .dot ∧ method.kind = .identifier) ∨
      ∃ left inner right, words = left :: inner ++ [right] ∧ left.kind = .leftParen ∧
        Derives (.rule .expression) inner ∧ right.kind = .rightParen := by
  rw [derives_rule, Nonterminal.body, derives_either, derives_either] at derives
  rcases derives with (leaf | base) | grouping
  · left
    simp only [derives_either, derives_token, ← exists_or, ← and_or_left, or_assoc] at leaf
    simpa [leafKinds] using leaf
  · right; left
    obtain ⟨front, last, rfl, isFront, isMethod⟩ := derives_sequence.1 base
    obtain ⟨first, second, rfl, isKeyword, isDot⟩ := derives_sequence.1 isFront
    obtain ⟨keyword, rfl, keywordKind⟩ := derives_token.1 isKeyword
    obtain ⟨dot, rfl, dotKind⟩ := derives_token.1 isDot
    obtain ⟨method, rfl, methodKind⟩ := derives_token.1 isMethod
    exact ⟨keyword, dot, method, rfl, keywordKind, dotKind, methodKind⟩
  · right; right
    obtain ⟨front, last, rfl, isFront, isRight⟩ := derives_sequence.1 grouping
    obtain ⟨first, inner, rfl, isLeft, derives⟩ := derives_sequence.1 isFront
    obtain ⟨left, rfl, leftKind⟩ := derives_token.1 isLeft
    obtain ⟨right, rfl, rightKind⟩ := derives_token.1 isRight
    exact ⟨left, inner, right, rfl, leftKind, derives, rightKind⟩

theorem unary_cases {words : List Token} (derives : Derives (.rule .unary) words) :
    (∃ operator others, words = operator :: others ∧ operator.kind ∈ signs ∧
      Derives (.rule .unary) others) ∨ Derives (.rule .call) words := by
  rw [derives_rule, Nonterminal.body, derives_either] at derives
  rcases derives with signed | call
  · left
    obtain ⟨first, others, rfl, isSign, unary⟩ := derives_sequence.1 signed
    simp only [derives_either, derives_token, ← exists_or, ← and_or_left] at isSign
    rcases isSign with ⟨operator, rfl, kind⟩
    exact ⟨operator, others, rfl, by simpa [signs] using kind, unary⟩
  · exact .inr call

theorem unary_parts {words : List Token} (derives : Derives (.rule .unary) words) :
    ∃ operators callWords, words = operators ++ callWords ∧
      (∀ operator ∈ operators, operator.kind ∈ signs) ∧ Derives (.rule .call) callWords := by
  induction words with
  | nil =>
      rcases unary_cases derives with ⟨operator, others, same, -⟩ | call
      · cases same
      · exact ⟨[], [], rfl, by simp, call⟩
  | cons word words induction =>
      rcases unary_cases derives with ⟨operator, others, same, kind, unary⟩ | call
      · cases same
        obtain ⟨operators, callWords, rfl, kinds, call⟩ := induction unary
        refine ⟨word :: operators, callWords, rfl, ?_, call⟩
        simpa using ⟨kind, kinds⟩
      · exact ⟨[], word :: words, rfl, by simp, call⟩

def Target (words : List Token) : Prop :=
  ∃ before name, words = before ++ [name] ∧ name.kind = .identifier ∧
    (before = [] ∨ ∃ object dot, before = object ++ [dot] ∧ dot.kind = .dot ∧
      Derives (.rule .call) object)

theorem assignment_parts {words : List Token} (derives : Derives (.rule .assignment) words) :
    (∃ target equals value, words = target ++ equals :: value ∧ Target target ∧
      equals.kind = .equal ∧ Derives (.rule .assignment) value) ∨ Derives (.rule .logicOr) words := by
  rw [derives_rule, Nonterminal.body, derives_either] at derives
  rcases derives with assigns | disjunction
  · left
    obtain ⟨front, value, rfl, isFront, isValue⟩ := derives_sequence.1 assigns
    obtain ⟨target, last, rfl, isTarget, isEquals⟩ := derives_sequence.1 isFront
    obtain ⟨before, second, rfl, isBefore, isName⟩ := derives_sequence.1 isTarget
    obtain ⟨equals, rfl, equalsKind⟩ := derives_token.1 isEquals
    obtain ⟨name, rfl, nameKind⟩ := derives_token.1 isName
    refine ⟨before ++ [name], equals, value, by simp, ⟨before, name, rfl, nameKind, ?_⟩, equalsKind,
      isValue⟩
    rcases derives_optional.1 isBefore with rfl | present
    · exact .inl rfl
    · obtain ⟨object, third, rfl, isObject, isDot⟩ := derives_sequence.1 present
      obtain ⟨dot, rfl, dotKind⟩ := derives_token.1 isDot
      exact .inr ⟨object, dot, rfl, dotKind, isObject⟩
  · exact .inr disjunction

def primaryStarts : List Kind := leafKinds ++ [.baseWord, .leftParen]

def expressionStarts : List Kind := signs ++ primaryStarts

theorem primary_starts {words : List Token} (derives : Derives (.rule .primary) words) :
    Follows primaryStarts words := by
  rcases primary_parts derives with ⟨word, rfl, kind⟩ |
    ⟨keyword, dot, method, rfl, kind, -⟩ | ⟨left, inner, right, rfl, kind, -⟩
  · exact ⟨word, [], rfl, List.mem_append_left _ kind⟩
  · exact ⟨keyword, _, rfl, by simp [kind, primaryStarts]⟩
  · exact ⟨left, _, rfl, by simp [kind, primaryStarts]⟩

theorem call_starts {words : List Token} (derives : Derives (.rule .call) words) :
    Follows primaryStarts words := by
  obtain ⟨head, parts, rfl, primary, -⟩ := derives_call.1 derives
  exact (primary_starts primary).append _

theorem unary_starts {words : List Token} (derives : Derives (.rule .unary) words) :
    Follows expressionStarts words := by
  rcases unary_cases derives with ⟨operator, others, rfl, kind, -⟩ | call
  · exact ⟨operator, others, rfl, List.mem_append_left _ kind⟩
  · exact (call_starts call).subset (List.subset_append_right _ _)

theorem chain_starts {level : Level} (joins : level.operators ≠ [])
    (operand : ∀ words, Derives (.rule level.operand.name) words → Follows expressionStarts words)
    {words : List Token} (derives : Derives (.rule level.name) words) :
    Follows expressionStarts words := by
  obtain ⟨first, parts, rfl, isOperand, -⟩ := (derives_chain joins).1 derives
  exact (operand first isOperand).append _

theorem disjunction_starts {words : List Token} (derives : Derives (.rule .logicOr) words) :
    Follows expressionStarts words := by
  have factor := fun words => @chain_starts .factor (by decide) (fun _ => unary_starts) words
  have term := fun words => @chain_starts .term (by decide) factor words
  have comparison := fun words => @chain_starts .comparison (by decide) term words
  have equality := fun words => @chain_starts .equality (by decide) comparison words
  have conjunction := fun words => @chain_starts .conjunction (by decide) equality words
  exact @chain_starts .disjunction (by decide) conjunction words derives

theorem target_starts {words : List Token} (target : Target words) :
    Follows primaryStarts words := by
  rcases target with ⟨before, name, rfl, nameKind, place⟩
  rcases place with rfl | ⟨object, dot, rfl, -, call⟩
  · exact ⟨name, [], rfl, by simp [nameKind, primaryStarts, leafKinds]⟩
  · exact ((call_starts call).append _).append _

theorem expression_starts {words : List Token} (derives : Derives (.rule .expression) words) :
    Follows expressionStarts words := by
  rcases assignment_parts (derives_rule.1 derives) with
    ⟨target, equals, value, rfl, isTarget, -⟩ | disjunction
  · exact ((target_starts isTarget).subset (List.subset_append_right _ _)).append _
  · exact disjunction_starts disjunction

theorem derives_list {item : Ebnf} {limit : Nat} {words : List Token} (positive : 0 < limit)
    (derives : Derives (item ++ .upTo (limit - 1) (.token .comma ++ item)) words) :
    ∃ count, count ≤ limit ∧ Listed item count words := by
  obtain ⟨first, others, rfl, isFirst, more⟩ := derives_sequence.1 derives
  obtain ⟨parts, rfl, short, each⟩ := derives_up_to.1 more
  exact ⟨parts.length + 1, by omega, first, parts, rfl, rfl, isFirst, each⟩

theorem listed_cases {item : Ebnf} {count : Nat} {words : List Token}
    (listed : Listed item count words) :
    (count = 1 ∧ Derives item words) ∨
      ∃ first comma others shorter, words = first ++ comma :: others ∧ count = shorter + 1 ∧
        Derives item first ∧ comma.kind = .comma ∧ Listed item shorter others := by
  rcases listed with ⟨first, parts, rfl, length, isFirst, each⟩
  cases parts with
  | nil => exact .inl ⟨length.symm, by simpa using isFirst⟩
  | cons part parts =>
      right
      simp only [List.mem_cons, forall_eq_or_imp] at each
      obtain ⟨front, second, rfl, isComma, isSecond⟩ := derives_sequence.1 each.1
      obtain ⟨comma, rfl, kind⟩ := derives_token.1 isComma
      refine ⟨first, comma, second ++ parts.flatten, parts.length + 1, by simp, length.symm,
        isFirst, kind, second, parts, rfl, rfl, isSecond, each.2⟩

def Handles (inner : Parser Expr) (bound : Nat) : Prop :=
  ∀ words : List Token, words.length ≤ bound → Legible words →
    Derives (.rule .expression) words → Accepts inner words (Stops Level.assignment.extensions) Any

theorem leaf_accepts {build : Nat → Expr} {word : Token} {good : Expr → Prop}
    (isGood : ∀ id, good (build id)) : Accepts (leaf build) [word] Any good :=
  accepts_advance.followed fun _ _ => accepts_make isGood

theorem suffix_present {part : List Token} (suffixed : Suffix part) : 0 < part.length := by
  rcases suffixed with ⟨left, right, words, rfl, -⟩ | ⟨dot, name, rfl, -⟩ <;> simp

theorem accept_all_accepts {kinds : List Kind} {operators : List Token}
    (members : ∀ operator ∈ operators, operator.kind ∈ kinds) :
    Accepts (acceptAll kinds) operators (Stops kinds) (· = operators) := by
  intro start rest held stops
  have pass : ∀ operator ∈ operators, kinds.contains operator.kind = true := by
    simpa using members
  have ended : rest.takeWhile (kinds.contains ·.kind) = [] ∧
      rest.dropWhile (kinds.contains ·.kind) = rest := by
    cases rest with
    | nil => exact ⟨rfl, rfl⟩
    | cons word rest =>
        have fails : ¬ kinds.contains word.kind = true := by
          intro member
          exact stops ⟨word, rest, rfl, by simpa using member⟩
        exact ⟨List.takeWhile_cons_of_neg fails, List.dropWhile_cons_of_neg fails⟩
  refine ⟨operators, start.nextId, ?_, rfl⟩
  unfold acceptAll
  rw [held, List.takeWhile_append_of_pos pass, List.dropWhile_append_of_pos pass, ended.1, ended.2,
    List.append_nil]

theorem apply_signs_accepts (operators : List Token) (right : Expr) :
    Accepts (applySigns right operators) [] Any Any := by
  induction operators with
  | nil => exact accepts_pure _ trivial
  | cons operator operators induction =>
      exact induction.followed fun _ _ => accepts_make fun _ => trivial

section Chains

variable {level : Level} {operand : Parser Expr}

theorem chain_stops {good : Expr → Prop} {left : Expr} (isGood : good left) (budget : Nat) :
    Accepts (chainFrom level.operators level.build operand budget left) []
      (Stops level.extensions) good := by
  cases budget with
  | zero => exact accepts_pure left isGood
  | succ budget =>
      exact accepts_none (fun _ stops => stops.subset (operators_extend level))
        (accepts_pure left isGood)

theorem links_stop {parts : List (List Token)} (each : ∀ part ∈ parts, level.Link part)
    {rest : List Token} (stops : Stops level.extensions rest) :
    Stops level.operand.extensions (parts.flatten ++ rest) := by
  cases parts with
  | nil => exact stops.subset (operand_extensions level)
  | cons part parts =>
      obtain ⟨operator, words, rfl, kind, -⟩ := each part List.mem_cons_self
      exact stops_cons (operators_end level _ kind) _

/-- Links are accepted one by one, before anything that does not extend the chain. The operands must
be accepted up to the length of all links together. -/
theorem chain_from_accepts {parts : List (List Token)} (each : ∀ part ∈ parts, level.Link part)
    (accepts : ∀ words, Derives (.rule level.operand.name) words →
      words.length ≤ parts.flatten.length → Legible words →
        Accepts operand words (Stops level.operand.extensions) Any)
    (legible : Legible parts.flatten) {budget : Nat} (enough : parts.length ≤ budget)
    (left : Expr) :
    Accepts (chainFrom level.operators level.build operand budget left) parts.flatten
      (Stops level.extensions) Any := by
  induction parts generalizing budget left with
  | nil => exact chain_stops trivial budget
  | cons part parts induction =>
      simp only [List.mem_cons, forall_eq_or_imp] at each
      rcases each.1 with ⟨operator, words, rfl, kind, derives⟩
      simp only [List.flatten_cons, List.cons_append, List.length_cons, List.length_append] at accepts
      simp only [List.flatten_cons, legible_append] at legible
      have readable : Legible words := (legible_cons.1 legible.1).2
      cases budget with
      | zero => simp at enough
      | succ budget =>
          rw [List.flatten_cons]
          refine (accepts_option_some kind).followed fun answer same => ?_
          rw [same]
          refine (accepts words derives (by omega) readable).bind (fun right _ => ?_)
            (fun rest stops => links_stop each.2 stops)
          have made : Accepts (make fun id => level.build id left operator right) [] Any Any :=
            accepts_make fun _ => trivial
          refine made.followed fun joined _ => ?_
          refine induction each.2 (fun other isOther shorter => ?_) legible.2
            (by simpa using enough) joined
          exact accepts other isOther (by omega)

theorem link_present {part : List Token} (link : level.Link part) : 0 < part.length := by
  rcases link with ⟨operator, words, rfl, -⟩
  exact Nat.succ_pos _

theorem chain_accepts (joins : level.operators ≠ []) {words : List Token}
    (accepts : ∀ first, Derives (.rule level.operand.name) first → first.length ≤ words.length →
      Legible first → Accepts operand first (Stops level.operand.extensions) Any)
    (derives : Derives (.rule level.name) words) (legible : Legible words) :
    Accepts (chain level.operators level.build operand) words (Stops level.extensions) Any := by
  obtain ⟨first, parts, rfl, isFirst, each⟩ := (derives_chain joins).1 derives
  have few := parts_length_le fun part member => link_present (each part member)
  rw [legible_append] at legible
  simp only [List.length_append] at accepts
  refine (accepts first isFirst (by omega) legible.1).bind (fun left _ => ?_)
    (fun rest stops => links_stop each stops)
  refine accepts_remaining fun count enough => ?_
  exact chain_from_accepts each (fun other isOther shorter => accepts other isOther (by omega))
    legible.2 (by omega) left

theorem operand_accepts {words : List Token} {good : Expr → Prop}
    (accepts : Accepts operand words (Stops level.operand.extensions) good) :
    Accepts (chain level.operators level.build operand) words (Stops level.extensions) good := by
  refine accepts.last (fun left isGood => ?_) (fun rest stops => ?_)
  · exact accepts_remaining fun count _ => chain_stops isGood count
  · exact stops.subset (operand_extensions level)

end Chains

/-- What is read as the target of an assignment can be assigned to. -/
def Assignable : Expr → Prop
  | .variableRef _ _ | .get _ _ _ => True
  | _ => False

theorem assign_to_accepts {target : Expr} {follow : List Token → Prop} (equals : Token)
    (value : Expr) (assignable : Assignable target) :
    Accepts (assignTo equals target value) [] follow Any := by
  cases target with
  | variableRef id name =>
      have made : Accepts (make fun id => .assign id name value) [] follow Any :=
        accepts_make fun _ => trivial
      exact made
  | get id object name =>
      have made : Accepts (make fun id => .set id object name value) [] follow Any :=
        accepts_make fun _ => trivial
      exact made
  | _ => exact assignable.elim

/-- At a level, what derives from its rule is accepted up to a length. -/
def Level.Accepting (inner : Parser Expr) (bound : Nat) (level : Level) : Prop :=
  ∀ words, Derives (.rule level.name) words → words.length ≤ bound → Legible words →
    Accepts (level.parser inner) words (Stops level.extensions) Any

theorem parser_chain {inner : Parser Expr} {level : Level} (joins : level.operators ≠ []) :
    level.parser inner = chain level.operators level.build (level.operand.parser inner) := by
  cases level with
  | assignment | unary | call | primary => exact absurd rfl joins
  | _ => rfl

theorem chain_accepting {inner : Parser Expr} {bound : Nat} {level : Level}
    (joins : level.operators ≠ []) (accepting : level.operand.Accepting inner bound) :
    level.Accepting inner bound := by
  intro words derives short legible
  rw [parser_chain joins]
  refine chain_accepts joins (fun first isFirst shorter readable => ?_) derives legible
  exact accepting first isFirst (Nat.le_trans shorter short) readable

section Inner

variable {inner : Parser Expr}

theorem name_accepts {name : Token} (kind : name.kind = .identifier) :
    Accepts (primary inner) [name] Any (fun expr => ∃ id, expr = .variableRef id name) := by
  apply accepts_peek
  simp only [kind]
  exact leaf_accepts fun id => ⟨id, rfl⟩

variable {bound : Nat} (handles : Handles inner bound)

include handles

theorem grouping_accepts {left right : Token} {words : List Token} (leftKind : left.kind = .leftParen)
    (derives : Derives (.rule .expression) words) (rightKind : right.kind = .rightParen)
    (legible : Legible words) (short : words.length ≤ bound) :
    Accepts (primary inner) (left :: words ++ [right]) Any Any := by
  apply accepts_peek
  simp only [leftKind]
  refine accepts_advance.followed fun _ _ => ?_
  refine Accepts.bind (handles words short legible derives) (fun expr _ => ?_) (fun rest _ => ?_)
  · exact (accepts_expect rightKind).followed fun _ _ => accepts_make fun _ => trivial
  · apply stops_cons
    rw [rightKind]
    decide

theorem primary_accepts {words : List Token} (derives : Derives (.rule .primary) words)
    (legible : Legible words) (short : words.length ≤ bound + 1) :
    Accepts (primary inner) words Any Any := by
  rcases primary_parts derives with ⟨word, rfl, kind⟩ |
    ⟨keyword, dot, method, rfl, keywordKind, dotKind, methodKind⟩ |
      ⟨left, words, right, rfl, leftKind, isInner, rightKind⟩
  · apply accepts_peek
    have readable := legible word (List.mem_singleton_self _)
    simp only [leafKinds, List.mem_cons, List.not_mem_nil, or_false] at kind
    rcases kind with kind | kind | kind | kind | kind | kind | kind
    · obtain ⟨bits, found⟩ := Option.isSome_iff_exists.1 (readable kind)
      simp only [kind, found]
      exact leaf_accepts fun _ => trivial
    all_goals
      simp only [kind]
      exact leaf_accepts fun _ => trivial
  · apply accepts_peek
    simp only [keywordKind]
    refine accepts_advance.followed fun _ _ => ?_
    refine (accepts_expect dotKind).followed fun _ _ => ?_
    exact (accepts_expect methodKind).followed fun _ _ => accepts_make fun _ => trivial
  · simp only [List.cons_append, List.length_cons, List.length_append, List.length_nil] at short
    have inside : Legible words := by
      intro word member
      exact legible word (by simp [member])
    exact grouping_accepts handles leftKind isInner rightKind inside (by omega)

theorem arguments_accept {room count : Nat} {words : List Token}
    (listed : Listed (.rule .expression) count words) (enough : count ≤ room)
    (legible : Legible words) (short : words.length ≤ bound) :
    Accepts (arguments inner room) words (Follows [.rightParen]) Any := by
  induction room generalizing count words with
  | zero =>
      rcases listed with ⟨first, parts, rfl, length, -⟩
      omega
  | succ room induction =>
      rcases listed_cases listed with ⟨rfl, derives⟩ |
        ⟨first, comma, others, shorter, rfl, rfl, isFirst, commaKind, isOthers⟩
      · refine (handles words short legible derives).last (fun expr _ => ?_)
          (fun rest => follows_stops (by decide))
        exact accepts_absent (fun rest => follows_stops (by decide)) (accepts_pure _ trivial)
      · simp only [legible_append, legible_word commaKind (by decide)] at legible
        simp only [List.length_append, List.length_cons] at short
        refine (handles first (by omega) legible.1 isFirst).bind (fun expr _ => ?_) (fun rest _ => ?_)
        · refine (accepts_accept_true commaKind).followed fun answer same => ?_
          rw [same]
          refine (induction isOthers (by omega) legible.2 (by omega)).last
            (fun _ _ => accepts_pure _ trivial) (fun _ allowed => allowed)
        · apply stops_cons
          rw [commaKind]
          decide

theorem argument_list_accepts {words : List Token}
    (derives : Derives (.optional (.rule .arguments)) words) (legible : Legible words)
    (short : words.length ≤ bound) :
    Accepts (argumentList inner) words (Follows [.rightParen]) Any := by
  rcases derives_optional.1 derives with rfl | present
  · exact accepts_check_true (fun _ closes => closes) (accepts_pure _ trivial)
  · obtain ⟨count, limited, listed⟩ := derives_list (by decide) (derives_rule.1 present)
    have starts : Follows expressionStarts words := by
      rcases listed with ⟨first, parts, rfl, -, isFirst, -⟩
      exact (expression_starts isFirst).append _
    refine accepts_check_false (fun rest _ => ?_)
      (arguments_accept handles listed limited legible short)
    exact follows_stops (by decide) (starts.append rest)

theorem suffix_accepts {part : List Token} (suffixed : Suffix part) (legible : Legible part)
    (short : part.length ≤ bound + 1) :
    ∃ mark behind, part = mark :: behind ∧ mark.kind ∈ [Kind.leftParen, .dot] ∧
      ∀ head, Accepts (suffix inner mark head) behind Any Any := by
  rcases suffixed with ⟨left, right, words, rfl, leftKind, rightKind, given⟩ |
    ⟨dot, name, rfl, dotKind, nameKind⟩
  · refine ⟨left, words ++ [right], rfl, by simp [leftKind], fun head => ?_⟩
    simp only [List.cons_append, legible_word leftKind (by decide), legible_append] at legible
    simp only [List.cons_append, List.length_cons, List.length_append, List.length_nil] at short
    unfold suffix
    rw [if_pos leftKind]
    refine (argument_list_accepts handles given legible.1 (by omega)).bind (fun _ _ => ?_)
      (fun rest _ => ⟨right, rest, rfl, by simp [rightKind]⟩)
    exact (accepts_expect rightKind).followed fun _ _ => accepts_make fun _ => trivial
  · refine ⟨dot, [name], rfl, by simp [dotKind], fun head => ?_⟩
    unfold suffix
    rw [if_neg (by simp [dotKind])]
    exact (accepts_expect nameKind).followed fun _ _ => accepts_make fun _ => trivial

theorem suffixes_accept {parts : List (List Token)} {last : List Token}
    {follow : List Token → Prop} {good : Expr → Prop} (each : ∀ part ∈ parts, Suffix part)
    (legible : Legible parts.flatten) (short : parts.flatten.length ≤ bound + 1) (spare : Nat)
    (final : ∀ budget head, spare ≤ budget →
      Accepts (suffixesFrom inner budget head) last follow good) {budget : Nat}
    (enough : parts.length + spare ≤ budget) (head : Expr) :
    Accepts (suffixesFrom inner budget head) (parts.flatten ++ last) follow good := by
  induction parts generalizing budget head with
  | nil => exact final budget head (by simpa using enough)
  | cons part parts induction =>
      simp only [List.mem_cons, forall_eq_or_imp] at each
      simp only [List.flatten_cons, legible_append] at legible
      simp only [List.flatten_cons, List.length_append] at short
      simp only [List.length_cons] at enough
      obtain ⟨mark, behind, rfl, kind, accepts⟩ :=
        suffix_accepts handles each.1 legible.1 (by omega)
      cases budget with
      | zero => omega
      | succ budget =>
          rw [List.flatten_cons, List.append_assoc]
          refine (accepts_option_some kind).followed fun answer same => ?_
          rw [same]
          refine (accepts head).followed fun longer _ => ?_
          exact induction each.2 legible.2 (by omega) (by omega) longer

omit handles in
theorem suffixes_stop {good : Expr → Prop} {head : Expr} (isGood : good head) (budget : Nat) :
    Accepts (suffixesFrom inner budget head) [] (Stops Level.call.extensions) good := by
  cases budget with
  | zero => exact accepts_pure head isGood
  | succ budget => exact accepts_none (fun _ stops => stops) (accepts_pure head isGood)

theorem call_accepts {words : List Token} (derives : Derives (.rule .call) words)
    (legible : Legible words) (short : words.length ≤ bound + 1) :
    Accepts (call inner) words (Stops Level.call.extensions) Any := by
  obtain ⟨head, parts, rfl, isHead, each⟩ := derives_call.1 derives
  have few := parts_length_le fun part member => suffix_present (each part member)
  rw [legible_append] at legible
  rw [List.length_append] at short
  refine (primary_accepts handles isHead legible.1 (by omega)).followed fun expr _ => ?_
  refine accepts_remaining fun count enough => ?_
  rw [← List.append_nil parts.flatten]
  exact suffixes_accept handles each legible.2 (by omega) 0
    (fun budget _ _ => suffixes_stop trivial budget) (by omega) expr

omit handles in
theorem property_accepts {dot name : Token} (dotKind : dot.kind = .dot)
    (nameKind : name.kind = .identifier) (budget : Nat) (head : Expr) :
    Accepts (suffixesFrom inner (budget + 1) head) [dot, name] (Stops Level.call.extensions)
      Assignable := by
  have member : dot.kind ∈ [Kind.leftParen, .dot] := by simp [dotKind]
  have get : Accepts (finishGet head) [name] Any Assignable :=
    (accepts_expect nameKind).followed fun _ _ => accepts_make fun _ => trivial
  refine (accepts_option_some member).followed fun answer same => ?_
  rw [same]
  simp only [suffix, dotKind, reduceCtorEq, if_false]
  exact get.followed fun expr isGood => suffixes_stop isGood budget

theorem target_accepts {words : List Token} (target : Target words) (legible : Legible words)
    (short : words.length ≤ bound + 1) :
    Accepts (call inner) words (Stops Level.call.extensions) Assignable := by
  rcases target with ⟨before, name, rfl, nameKind, place⟩
  rcases place with rfl | ⟨object, dot, rfl, dotKind, isObject⟩
  · refine (name_accepts nameKind).followed fun expr isName => ?_
    rcases isName with ⟨id, rfl⟩
    exact accepts_remaining fun count _ => suffixes_stop trivial count
  · obtain ⟨head, parts, rfl, isHead, each⟩ := derives_call.1 isObject
    have few := parts_length_le fun part member => suffix_present (each part member)
    simp only [legible_append] at legible
    simp only [List.length_append, List.length_singleton] at short
    rw [List.append_assoc, List.append_assoc]
    refine (primary_accepts handles isHead legible.1.1.1 (by omega)).followed fun expr _ => ?_
    refine accepts_remaining fun count enough => ?_
    simp only [List.length_append, List.length_singleton] at enough
    refine suffixes_accept handles each legible.1.1.2 (by omega) 1 (fun budget head _ => ?_)
      (by omega) expr
    cases budget with
    | zero => omega
    | succ budget => exact property_accepts dotKind nameKind budget head

theorem unary_accepts {words : List Token} (derives : Derives (.rule .unary) words)
    (legible : Legible words) (short : words.length ≤ bound + 1) :
    Accepts (unary inner) words (Stops Level.unary.extensions) Any := by
  obtain ⟨operators, callWords, rfl, kinds, isCall⟩ := unary_parts derives
  rw [legible_append] at legible
  rw [List.length_append] at short
  refine (accept_all_accepts kinds).bind (fun taken _ => ?_) (fun rest _ => ?_)
  · refine (call_accepts handles isCall legible.2 (by omega)).last (fun right _ => ?_)
      (fun _ stops => stops)
    exact (apply_signs_accepts taken right).weaken (fun _ _ => trivial) (fun _ good => good)
  · exact follows_stops (by decide) ((call_starts isCall).append rest)

theorem disjunction_accepting : Level.disjunction.Accepting inner (bound + 1) := by
  have unary : Level.unary.Accepting inner (bound + 1) :=
    fun words derives short legible => unary_accepts handles derives legible short
  have factor : Level.factor.Accepting inner (bound + 1) := chain_accepting (by decide) unary
  have term : Level.term.Accepting inner (bound + 1) := chain_accepting (by decide) factor
  have comparison : Level.comparison.Accepting inner (bound + 1) :=
    chain_accepting (by decide) term
  have equality : Level.equality.Accepting inner (bound + 1) :=
    chain_accepting (by decide) comparison
  have conjunction : Level.conjunction.Accepting inner (bound + 1) :=
    chain_accepting (by decide) equality
  exact chain_accepting (by decide) conjunction

/-- The target of an assignment comes through all levels as it is. It is read before the equals sign
is seen, and only what comes out of this tells whether it can be assigned to. -/
theorem assignable_accepts {words : List Token} (target : Target words) (legible : Legible words)
    (short : words.length ≤ bound + 1) :
    Accepts (disjunction inner) words (Stops Level.disjunction.extensions) Assignable := by
  have unsigned : Accepts (unary inner) words (Stops Level.unary.extensions) Assignable := by
    have none : Accepts (acceptAll signs) [] (Stops signs) (· = []) :=
      accept_all_accepts (List.forall_mem_nil _)
    refine none.bind (fun taken same => ?_) (fun rest _ => ?_)
    · rw [same]
      exact (target_accepts handles target legible short).last
        (fun right isGood => accepts_pure right isGood) (fun _ stops => stops)
    · exact follows_stops (by decide) ((target_starts target).append rest)
  exact @operand_accepts .disjunction _ _ _ (@operand_accepts .conjunction _ _ _
    (@operand_accepts .equality _ _ _ (@operand_accepts .comparison _ _ _
      (@operand_accepts .term _ _ _ (@operand_accepts .factor _ _ _ unsigned)))))

/-- An assignment is accepted although its target is read first, as if it were all there is. The
sign behind the target does not extend an operand, so the reading of the target ends there. -/
theorem assignment_accepts {words : List Token} (derives : Derives (.rule .assignment) words)
    (legible : Legible words) (short : words.length ≤ bound + 1) :
    Accepts (assignment inner) words (Stops Level.assignment.extensions) Any := by
  rcases assignment_parts derives with
    ⟨target, equals, value, rfl, isTarget, equalsKind, isValue⟩ | isDisjunction
  · rw [legible_append] at legible
    have readable : Legible value := (legible_cons.1 legible.2).2
    have present := (target_starts isTarget).length_pos
    simp only [List.length_append, List.length_cons] at short
    have member : equals.kind ∈ [Kind.equal] := by simp [equalsKind]
    refine (assignable_accepts handles isTarget legible.1 (by omega)).bind
      (fun assigned assignable => ?_) (fun rest _ => ?_)
    · refine (accepts_option_some member).followed fun answer same => ?_
      rw [same]
      refine (handles value (by omega) readable (.rule isValue)).last (fun expr _ => ?_)
        (fun _ stops => stops)
      exact assign_to_accepts equals expr assignable
    · apply stops_cons
      rw [equalsKind]
      decide
  · refine (disjunction_accepting handles words isDisjunction short legible).last
      (fun expr _ => ?_) (fun _ stops => stops.subset (by decide))
    exact accepts_none (fun _ stops => stops.subset (by decide)) (accepts_pure expr trivial)

end Inner

theorem expression_within_handles (budget : Nat) : Handles (expressionWithin budget) budget := by
  induction budget with
  | zero =>
      intro words short legible derives
      have present := (expression_starts derives).length_pos
      omega
  | succ budget induction =>
      intro words short legible derives start
      exact assignment_accepts induction (derives_rule.1 derives) legible short start

/-- An expression of the grammar is accepted before anything that does not extend it. -/
theorem expression_accepts {words : List Token} (derives : Derives (.rule .expression) words)
    (legible : Legible words) :
    Accepts expression words (Stops Level.assignment.extensions) Any := by
  intro start rest held stops
  have enough : words.length ≤ start.rest.length := by
    rw [held, List.length_append]
    omega
  exact expression_within_handles start.rest.length words enough legible derives start rest held stops

end Quill.Grammar
