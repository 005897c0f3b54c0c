import Quill.Proofs.Grammar.Phrase
import Quill.Proofs.Grammar.PhraseAcceptance
import Quill.Proofs.Grammar.Precedence
import Quill.Proofs.Grammar.Whole
import Quill.Proofs.Tree.Unnumbered

/-!
Expressions that respect precedence are restored from the tokens that write them. Each level
is restored from the one below it: the left spine of a chain, or of calls and properties, is
unwound until an expression of the level below is reached, and the parser takes the same way
forwards. Together with what is known of every reading, parsing and writing are inverse.
-/

namespace Quill.Grammar

set_option autoImplicit false

section Filling

variable {slot : Slot} {slots more : List Slot} {words : List Token}

theorem fill_cons_cases (fill : Fill (slot :: slots) words) :
    ∃ word rest, words = word :: rest ∧ slot.FilledBy word ∧ Fill slots rest := by
  cases fill with
  | cons fills rest => exact ⟨_, _, rfl, fills, rest⟩

theorem fill_append_cases (fill : Fill (slots ++ more) words) :
    ∃ first second, words = first ++ second ∧ Fill slots first ∧ Fill more second := by
  induction slots generalizing words with
  | nil => exact ⟨[], words, rfl, .nil, fill⟩
  | cons slot slots induction =>
      obtain ⟨word, rest, rfl, fills, behind⟩ := fill_cons_cases fill
      obtain ⟨first, second, rfl, isFirst, isSecond⟩ := induction behind
      exact ⟨word :: first, second, rfl, .cons fills isFirst, isSecond⟩

theorem fill_one_cases (fill : Fill [slot] words) :
    ∃ word, words = [word] ∧ slot.FilledBy word := by
  obtain ⟨word, rest, rfl, fills, behind⟩ := fill_cons_cases fill
  cases behind
  exact ⟨word, rfl, fills⟩

end Filling

def Like (expr : Expr) : Expr → Prop := fun result => result.unnumbered = expr.unnumbered

/-- Every expression of a level is restored from its tokens, up to a length and up to the numbers of
its nodes, before anything that does not extend it. -/
def Level.Restored (level : Level) (parser : Parser Expr) (bound : Nat) : Prop :=
  ∀ (expr : Expr) (words : List Token), expr.Fits level → expr.Respects → expr.Written words →
    words.length ≤ bound → Accepts parser words (Stops level.extensions) (Like expr)

/-- An expression of a level is one of the next level, or an operator of the level joins
its two operands. -/
theorem joined_cases {level : Level} (joins : level.operators ≠ []) {expr : Expr}
    (fits : expr.Fits level) (respects : expr.Respects) :
    expr.Fits level.operand ∨
      ∃ id left operator right, expr = level.build id left operator right ∧
        operator.kind ∈ level.operators := by
  rcases rank_cases level expr.level fits with same | stronger
  · right
    have spelled : ∀ {kind : Kind}, Level.joinedBy kind = level →
        (kind ∈ binaryOperators → kind ∈ level.operators ∧ level.build = Expr.binary) ∧
          (kind ∈ logicalOperators → kind ∈ level.operators ∧ level.build = Expr.logical) := by
      intro kind joined
      subst joined
      cases kind <;> simp [binaryOperators, logicalOperators, Level.joinedBy, Level.operators,
        Level.build]
    cases expr with
    | binary id left operator right =>
        obtain ⟨member, build⟩ := (spelled same).1 respects.1
        exact ⟨id, left, operator, right, by rw [build], member⟩
    | logical id left operator right =>
        obtain ⟨member, build⟩ := (spelled same).2 respects.1
        exact ⟨id, left, operator, right, by rw [build], member⟩
    | _ => exact absurd (congrArg Level.operators same.symm) joins
  · exact .inl stronger

theorem joined_unfit {expr : Expr} {operator : Token} {level : Level}
    (joined : expr.level = .joinedBy operator.kind)
    (member : operator.kind ∈ binaryOperators ∨ operator.kind ∈ logicalOperators)
    (strong : Level.unary.rank ≤ level.rank) : ¬ expr.Fits level := by
  have weak : ∀ kind ∈ binaryOperators ++ logicalOperators,
      (Level.joinedBy kind).rank < Level.unary.rank := by decide
  unfold Expr.Fits
  rw [joined, Nat.not_le]
  exact Nat.lt_of_lt_of_le (weak _ (List.mem_append.2 member)) strong

theorem unary_forms {expr : Expr} (fits : expr.Fits .unary) (respects : expr.Respects) :
    expr.Fits .call ∨ ∃ id operator right, expr = .unary id operator right := by
  cases expr with
  | unary id operator right => exact .inr ⟨id, operator, right, rfl⟩
  | binary => exact absurd fits (joined_unfit rfl (.inl respects.1) (by decide))
  | logical => exact absurd fits (joined_unfit rfl (.inr respects.1) (by decide))
  | _ => simp_all [Expr.Fits, Expr.level, Level.rank]

theorem call_forms {expr : Expr} (fits : expr.Fits .call) (respects : expr.Respects) :
    expr.Fits .primary ∨ (∃ id callee paren given, expr = .call id callee paren given) ∨
      ∃ id object name, expr = .get id object name := by
  cases expr with
  | call id callee paren given => exact .inr (.inl ⟨id, callee, paren, given, rfl⟩)
  | get id object name => exact .inr (.inr ⟨id, object, name, rfl⟩)
  | binary => exact absurd fits (joined_unfit rfl (.inl respects.1) (by decide))
  | logical => exact absurd fits (joined_unfit rfl (.inr respects.1) (by decide))
  | _ => simp_all [Expr.Fits, Expr.level, Level.rank]

theorem assignment_forms {expr : Expr} (respects : expr.Respects) :
    expr.Fits .disjunction ∨ (∃ id name value, expr = .assign id name value) ∨
      ∃ id object name value, expr = .set id object name value := by
  have joined : ∀ kind, kind ∈ binaryOperators ∨ kind ∈ logicalOperators →
      Level.disjunction.rank ≤ (Level.joinedBy kind).rank := by
    simp only [← List.mem_append]
    decide
  cases expr with
  | assign id name value => exact .inr (.inl ⟨id, name, value, rfl⟩)
  | set id object name value => exact .inr (.inr ⟨id, object, name, value, rfl⟩)
  | binary => exact .inl (joined _ (.inl respects.1))
  | logical => exact .inl (joined _ (.inr respects.1))
  | _ => exact .inl (by simp [Expr.Fits, Expr.level, Level.rank])

theorem constant_starts (value : Literal) : constantKind value ∈ primaryStarts := by
  cases value with
  | boolean truth => cases truth <;> decide
  | _ => simp [constantKind, primaryStarts, leafKinds]

theorem call_slots : (expr : Expr) → expr.Fits .call → expr.Respects →
    ∃ slot slots, expr.flatten = slot :: slots ∧ slot.kind ∈ primaryStarts
  | .literal _ value, _, _ => ⟨_, _, rfl, constant_starts value⟩
  | .grouping _ _, _, _ => ⟨_, _, rfl, by decide⟩
  | .variableRef _ name, _, respects =>
      ⟨_, _, rfl, by rw [Slot.kind, show name.kind = .identifier from respects]; decide⟩
  | .thisRef _ keyword, _, respects =>
      ⟨_, _, rfl, by rw [Slot.kind, show keyword.kind = .thisWord from respects]; decide⟩
  | .baseRef _ keyword _, _, respects =>
      ⟨_, _, rfl, by rw [Slot.kind, show keyword.kind = .baseWord from respects.1]; decide⟩
  | .call _ callee _ _, _, respects => by
      obtain ⟨slot, slots, same, kind⟩ := call_slots callee respects.1.1 respects.1.2
      exact ⟨slot, _, by rw [Expr.flatten, same]; rfl, kind⟩
  | .get _ object _, _, respects => by
      obtain ⟨slot, slots, same, kind⟩ := call_slots object respects.1.1 respects.1.2
      exact ⟨slot, _, by rw [Expr.flatten, same]; rfl, kind⟩
  | .binary _ _ _ _, fits, respects =>
      absurd fits (joined_unfit rfl (.inl respects.1) (by decide))
  | .logical _ _ _ _, fits, respects =>
      absurd fits (joined_unfit rfl (.inr respects.1) (by decide))
  | .unary _ _ _, fits, _ | .assign _ _ _, fits, _ | .set _ _ _ _, fits, _ => by
      simp [Expr.Fits, Expr.level, Level.rank] at fits

theorem expression_slots : (expr : Expr) → expr.Respects →
    ∃ slot slots, expr.flatten = slot :: slots ∧ slot.kind ∈ expressionStarts
  | .unary _ operator _, respects => ⟨_, _, rfl, List.mem_append_left _ respects.1⟩
  | .binary _ left _ _, respects | .logical _ left _ _, respects => by
      obtain ⟨slot, slots, same, kind⟩ := expression_slots left respects.2.1.2
      exact ⟨slot, _, by rw [Expr.flatten, same]; rfl, kind⟩
  | .assign _ name _, respects =>
      ⟨_, _, rfl, by rw [Slot.kind, show name.kind = .identifier from respects.1]; decide⟩
  | .set _ object _ _, respects => by
      obtain ⟨slot, slots, same, kind⟩ := call_slots object respects.1.1 respects.1.2
      exact ⟨slot, _, by rw [Expr.flatten, same]; rfl, List.mem_append_right _ kind⟩
  | .literal _ _, respects | .grouping _ _, respects | .variableRef _ _, respects
  | .thisRef _ _, respects | .baseRef _ _ _, respects | .call _ _ _ _, respects
  | .get _ _ _, respects => by
      obtain ⟨slot, slots, same, kind⟩ :=
        call_slots _ (by simp [Expr.Fits, Expr.level, Level.rank]) respects
      exact ⟨slot, slots, same, List.mem_append_right _ kind⟩

theorem fill_starts {kinds : List Kind} {slots : List Slot} {words : List Token}
    (starts : ∃ slot behind, slots = slot :: behind ∧ slot.kind ∈ kinds)
    (fill : Fill slots words) : Follows kinds words := by
  rcases starts with ⟨slot, behind, rfl, member⟩
  obtain ⟨word, rest, rfl, fills, -⟩ := fill_cons_cases fill
  exact ⟨word, rest, rfl, by rwa [fills.same_kind]⟩

theorem build_like {level : Level} {left right leftResult rightResult : Expr} (id other : Nat)
    (operator : Token) (leftLike : Like left leftResult) (rightLike : Like right rightResult) :
    Like (level.build id left operator right)
      (level.build other leftResult operator rightResult) := by
  unfold Like at leftLike rightLike ⊢
  cases level <;> simp only [Level.build, Expr.unnumbered, leftLike, rightLike]

section Chains

variable {level : Level} {operand : Parser Expr} {bound : Nat}

/-- A chain reads the whole left spine of an expression and then goes on as it would from
there. The spine is unwound from its end, so that what has still to be read grows. -/
theorem chain_reaches (joins : level.operators ≠ [])
    (restored : level.operand.Restored operand bound) {others : List Token}
    {later : List Token → Prop} {good : Expr → Prop} {expr : Expr} {words : List Token}
    (fits : expr.Fits level) (respects : expr.Respects) (written : expr.Written words)
    (short : words.length ≤ bound)
    (proceed : ∀ left, Like expr left → ∀ budget, others.length ≤ budget →
      Accepts (chainFrom level.operators level.build operand budget left) others later good)
    (apart : ∀ rest, later rest → Stops level.operand.extensions (others ++ rest)) :
    Accepts (chain level.operators level.build operand) (words ++ others) later good := by
  generalize size : words.length = count
  induction count using Nat.strongRecOn generalizing expr words others with
  | ind count induction =>
      rcases joined_cases joins fits respects with stronger | ⟨id, left, operator, right, rfl, kind⟩
      · refine (restored expr words stronger respects written short).bind (fun first isLike => ?_)
          apart
        exact accepts_remaining fun count enough => proceed first isLike count enough
      · obtain ⟨leftGood, rightFits, rightRespects⟩ := (build_respects _ _ _ _ kind).1 respects
        rw [Expr.Written, build_flatten] at written
        obtain ⟨leftWords, behind, rfl, leftWritten, filled⟩ := fill_append_cases written
        obtain ⟨word, rightWords, rfl, rfl, rightWritten⟩ := fill_cons_cases filled
        simp only [List.length_append, List.length_cons] at short size
        rw [List.append_assoc]
        refine induction leftWords.length (by omega) leftGood.1 leftGood.2 leftWritten (by omega)
          (fun result isLike budget enough => ?_) (fun rest _ => ?_) rfl
        · simp only [List.cons_append, List.length_cons, List.length_append] at enough
          obtain ⟨budget, rfl⟩ : ∃ fewer, budget = fewer + 1 := ⟨budget - 1, by omega⟩
          refine (accepts_option_some kind).followed fun answer same => ?_
          rw [same]
          refine (restored right rightWords rightFits rightRespects rightWritten (by omega)).bind
            (fun rightResult rightLike => ?_) apart
          have made : Accepts (make fun id => level.build id result word rightResult) [] Any
              (Like (level.build id left word right)) :=
            accepts_make fun other => build_like id other word isLike rightLike
          exact made.followed fun joined isJoined => proceed joined isJoined budget (by omega)
        · exact stops_cons (operators_end level _ kind) _

theorem chain_restored (joins : level.operators ≠ [])
    (restored : level.operand.Restored operand bound) :
    level.Restored (chain level.operators level.build operand) bound := by
  intro expr words fits respects written short
  rw [← List.append_nil words]
  refine chain_reaches joins restored fits respects written short
    (fun left isLike budget _ => chain_stops isLike budget) (fun rest stops => ?_)
  exact stops.subset (operand_extensions level)

end Chains

section Inner

variable {inner : Parser Expr} {bound : Nat} (restored : Level.assignment.Restored inner bound)

include restored

omit restored in
theorem constant_restored {word : Token} {value : Literal} (denotes : literalOf? word = some value)
    (id : Nat) : Accepts (primary inner) [word] Any (Like (.literal id value)) := by
  have isLeaf : ∀ other, Like (.literal id value) (.literal other value) := fun _ => rfl
  apply accepts_peek
  unfold literalOf? at denotes
  split at denotes
  case h_4 kind =>
    obtain ⟨bits, found, rfl⟩ := Option.map_eq_some_iff.1 denotes
    simp only [kind, found]
    exact leaf_accepts isLeaf
  case h_6 => cases denotes
  all_goals
    next kind =>
      cases denotes
      simp only [kind]
      exact leaf_accepts isLeaf

theorem primary_restored {expr : Expr} {words : List Token} (fits : expr.Fits .primary)
    (respects : expr.Respects) (written : expr.Written words) (short : words.length ≤ bound + 1) :
    Accepts (primary inner) words Any (Like expr) := by
  cases expr with
  | literal id value =>
      obtain ⟨word, rfl, denotes⟩ := fill_one_cases written
      exact constant_restored denotes id
  | variableRef id name =>
      obtain ⟨word, rfl, rfl⟩ := fill_one_cases written
      have kind : word.kind = .identifier := respects
      apply accepts_peek
      simp only [kind]
      exact leaf_accepts fun _ => rfl
  | thisRef id keyword =>
      obtain ⟨word, rfl, rfl⟩ := fill_one_cases written
      have kind : word.kind = .thisWord := respects
      apply accepts_peek
      simp only [kind]
      exact leaf_accepts fun _ => rfl
  | baseRef id keyword method =>
      obtain ⟨word, behind, rfl, rfl, filled⟩ := fill_cons_cases written
      obtain ⟨dot, last, rfl, dotKind, filled⟩ := fill_cons_cases filled
      obtain ⟨name, rfl, rfl⟩ := fill_one_cases filled
      obtain ⟨kind, nameKind⟩ : word.kind = .baseWord ∧ name.kind = .identifier := respects
      apply accepts_peek
      simp only [kind]
      refine accepts_advance.followed fun _ _ => ?_
      refine (accepts_expect dotKind).followed fun _ _ => ?_
      refine (accepts_expect nameKind).followed fun found same => ?_
      rw [same]
      exact accepts_make fun _ => rfl
  | grouping id body =>
      obtain ⟨left, behind, rfl, leftKind, filled⟩ := fill_cons_cases written
      obtain ⟨bodyWords, last, rfl, bodyWritten, filled⟩ := fill_append_cases filled
      obtain ⟨right, rfl, rightKind⟩ := fill_one_cases filled
      simp only [List.length_cons, List.length_append, List.length_nil] at short
      have kind : left.kind = .leftParen := leftKind
      apply accepts_peek
      simp only [kind]
      refine accepts_advance.followed fun _ _ => ?_
      refine (restored body bodyWords (fits_assignment body) respects bodyWritten (by omega)).bind
        (fun result isLike => ?_) (fun rest _ => ?_)
      · refine (accepts_expect rightKind).followed fun _ _ => accepts_make fun _ => ?_
        exact congrArg (Expr.grouping 0) isLike
      · exact stops_cons (by rw [show right.kind = _ from rightKind]; decide) rest
  | binary id left operator right =>
      exact absurd fits (joined_unfit rfl (.inl respects.1) (by decide))
  | logical id left operator right =>
      exact absurd fits (joined_unfit rfl (.inr respects.1) (by decide))
  | unary | assign | call | get | set =>
      simp [Expr.Fits, Expr.level, Level.rank] at fits

theorem arguments_restored {room : Nat} {first : Expr} {others : List Expr} {words : List Token}
    (respects : respectsAll (first :: others))
    (fill : Fill (flattenArguments (first :: others)) words)
    (enough : (first :: others).length ≤ room) (short : words.length ≤ bound) :
    Accepts (arguments inner room) words (Follows [.rightParen])
      (unnumberedExprs · = unnumberedExprs (first :: others)) := by
  induction others generalizing first room words with
  | nil =>
      obtain ⟨room, rfl⟩ : ∃ fewer, room = fewer + 1 := ⟨room - 1, by simp at enough; omega⟩
      refine (restored first words (fits_assignment first) respects.1 fill short).last
        (fun result isLike => ?_) (fun rest => follows_stops (by decide))
      refine accepts_absent (fun rest => follows_stops (by decide)) (accepts_pure _ ?_)
      exact congrArg ([·]) isLike
  | cons second others induction =>
      obtain ⟨room, rfl⟩ : ∃ fewer, room = fewer + 1 := ⟨room - 1, by simp at enough; omega⟩
      obtain ⟨firstWords, behind, rfl, firstWritten, filled⟩ := fill_append_cases fill
      obtain ⟨comma, otherWords, rfl, commaKind, otherWritten⟩ := fill_cons_cases filled
      simp only [List.length_append, List.length_cons] at short enough
      have commaIs : comma.kind = .comma := commaKind
      refine (restored first firstWords (fits_assignment first) respects.1 firstWritten
        (by omega)).bind (fun result isLike => ?_) (fun rest _ => ?_)
      · refine (accepts_accept_true commaIs).followed fun answer same => ?_
        rw [same]
        refine (induction respects.2 otherWritten (by simp; omega) (by omega)).last
          (fun results areLike => accepts_pure _ ?_) (fun _ allowed => allowed)
        exact congrArg₂ List.cons isLike areLike
      · exact stops_cons (by rw [commaIs]; decide) _

theorem argument_list_restored {given : List Expr} {words : List Token}
    (respects : respectsAll given) (fill : Fill (flattenArguments given) words)
    (enough : given.length ≤ listLimit) (short : words.length ≤ bound) :
    Accepts (argumentList inner) words (Follows [.rightParen])
      (unnumberedExprs · = unnumberedExprs given) := by
  cases given with
  | nil =>
      cases fill
      exact accepts_check_true (fun _ closes => closes) (accepts_pure _ rfl)
  | cons first others =>
      have starts : Follows expressionStarts words := by
        obtain ⟨slot, slots, same, kind⟩ := expression_slots first respects.1
        refine fill_starts ?_ fill
        cases others with
        | nil => exact ⟨slot, slots, same, kind⟩
        | cons second others => exact ⟨slot, _, by rw [flattenArguments, same]; rfl, kind⟩
      refine accepts_check_false (fun rest _ => ?_)
        (arguments_restored restored respects fill enough short)
      exact follows_stops (by decide) (starts.append rest)

/-- A call reads the primary at its root and then all calls and properties that lead from
there to an expression. -/
theorem call_reaches {others : List Token} {later : List Token → Prop} {good : Expr → Prop}
    {expr : Expr} {words : List Token} (fits : expr.Fits .call) (respects : expr.Respects)
    (written : expr.Written words) (short : words.length ≤ bound + 1)
    (proceed : ∀ head, Like expr head → ∀ budget, others.length ≤ budget →
      Accepts (suffixesFrom inner budget head) others later good) :
    Accepts (call inner) (words ++ others) later good := by
  generalize size : words.length = count
  induction count using Nat.strongRecOn generalizing expr words others with
  | ind count induction =>
      rcases call_forms fits respects with
        isPrimary | ⟨id, callee, paren, given, rfl⟩ | ⟨id, object, name, rfl⟩
      · refine (primary_restored restored isPrimary respects written short).followed
          fun head isLike => ?_
        exact accepts_remaining fun count enough => proceed head isLike count enough
      · obtain ⟨calleeGood, ⟨limited, givenRespects⟩, parenKind⟩ := respects
        obtain ⟨calleeWords, behind, rfl, calleeWritten, filled⟩ := fill_append_cases written
        obtain ⟨left, behind, rfl, leftKind, filled⟩ := fill_cons_cases filled
        obtain ⟨givenWords, last, rfl, givenFilled, filled⟩ := fill_append_cases filled
        obtain ⟨right, rfl, rfl⟩ := fill_one_cases filled
        have leftIs : left.kind = .leftParen := leftKind
        simp only [List.length_append, List.length_cons, List.length_nil] at short size
        rw [List.append_assoc]
        refine induction calleeWords.length (by omega) calleeGood.1 calleeGood.2 calleeWritten
          (by omega) (fun head isLike budget enough => ?_) rfl
        simp only [List.cons_append, List.length_cons, List.length_append] at enough
        obtain ⟨budget, rfl⟩ : ∃ fewer, budget = fewer + 1 := ⟨budget - 1, by omega⟩
        have finish : Accepts (finishCall inner head) (givenWords ++ [right]) Any
            (Like (.call id callee right given)) := by
          refine (argument_list_restored restored givenRespects givenFilled limited
            (by omega)).bind (fun results areLike => ?_)
            (fun rest _ => ⟨right, rest, rfl, by simp [parenKind]⟩)
          refine (accepts_expect parenKind).followed fun found same => accepts_make fun _ => ?_
          unfold Like at isLike ⊢
          rw [same, Expr.unnumbered, Expr.unnumbered, isLike, areLike]
        refine (accepts_option_some (by simp [leftIs])).followed fun answer same => ?_
        rw [same]
        simp only [suffix, leftIs, if_true]
        exact finish.followed fun longer isLonger => proceed longer isLonger budget (by omega)
      · obtain ⟨objectGood, nameKind⟩ := respects
        obtain ⟨objectWords, behind, rfl, objectWritten, filled⟩ := fill_append_cases written
        obtain ⟨dot, last, rfl, dotKind, filled⟩ := fill_cons_cases filled
        obtain ⟨word, rfl, rfl⟩ := fill_one_cases filled
        have dotIs : dot.kind = .dot := dotKind
        simp only [List.length_append, List.length_cons, List.length_nil] at short size
        rw [List.append_assoc]
        refine induction objectWords.length (by omega) objectGood.1 objectGood.2 objectWritten
          (by omega) (fun head isLike budget enough => ?_) rfl
        simp only [List.cons_append, List.nil_append, List.length_cons] at enough
        obtain ⟨budget, rfl⟩ : ∃ fewer, budget = fewer + 1 := ⟨budget - 1, by omega⟩
        have finish : Accepts (finishGet head) [word] Any (Like (.get id object word)) := by
          refine (accepts_expect nameKind).followed fun found same => accepts_make fun _ => ?_
          unfold Like at isLike ⊢
          rw [same, Expr.unnumbered, Expr.unnumbered, isLike]
        refine (accepts_option_some (by simp [dotIs])).followed fun answer same => ?_
        rw [same]
        simp only [suffix, dotIs, reduceCtorEq, if_false]
        exact finish.followed fun longer isLonger => proceed longer isLonger budget (by omega)

theorem call_restored : Level.call.Restored (call inner) (bound + 1) := by
  intro expr words fits respects written short
  rw [← List.append_nil words]
  exact call_reaches restored fits respects written short
    fun head isLike budget _ => suffixes_stop isLike budget

omit restored in
/-- The signs before an operand are read from left to right and applied from right to left. So they
are told apart from the operand before any of them is applied. -/
theorem signs_parts : ∀ {expr : Expr} {words : List Token}, expr.Fits .unary →
    expr.Respects → expr.Written words →
    ∃ operators core coreWords, words = operators ++ coreWords ∧
      (∀ operator ∈ operators, operator.kind ∈ signs) ∧ core.Fits .call ∧ core.Respects ∧
        core.Written coreWords ∧
          ∀ right, Like core right → Accepts (applySigns right operators) [] Any (Like expr) := by
  intro expr words fits respects written
  generalize size : words.length = count
  induction count generalizing expr words with
  | zero =>
      have present := (fill_starts (expression_slots expr respects) written).length_pos
      omega
  | succ count induction =>
      rcases unary_forms fits respects with isCall | ⟨id, operator, right, rfl⟩
      · exact ⟨[], expr, words, rfl, by simp, isCall, respects, written,
          fun right isLike => accepts_pure right isLike⟩
      · obtain ⟨kind, rightFits, rightRespects⟩ := respects
        obtain ⟨word, rest, rfl, rfl, rightWritten⟩ := fill_cons_cases written
        obtain ⟨operators, core, coreWords, rfl, kinds, coreFits, coreRespects, coreWritten,
          apply⟩ := induction rightFits rightRespects rightWritten (by simpa using size)
        refine ⟨word :: operators, core, coreWords, rfl, List.forall_mem_cons.2 ⟨kind, kinds⟩,
          coreFits, coreRespects, coreWritten, fun result isLike => ?_⟩
        exact (apply result isLike).followed fun signed isSigned => accepts_make fun _ =>
          congrArg (Expr.unary 0 word) isSigned

theorem unary_restored : Level.unary.Restored (unary inner) (bound + 1) := by
  intro expr words fits respects written short
  obtain ⟨operators, core, coreWords, rfl, kinds, coreFits, coreRespects, coreWritten, apply⟩ :=
    signs_parts fits respects written
  rw [List.length_append] at short
  refine (accept_all_accepts kinds).bind (fun taken same => ?_) (fun rest _ => ?_)
  · rw [same]
    refine (call_restored restored core coreWords coreFits coreRespects coreWritten
      (by omega)).last (fun right isLike => ?_) (fun _ stops => stops)
    exact (apply right isLike).weaken (fun _ _ => trivial) (fun _ good => good)
  · have starts := fill_starts (call_slots core coreFits coreRespects) coreWritten
    exact follows_stops (by decide) (starts.append rest)

theorem disjunction_restored : Level.disjunction.Restored (disjunction inner) (bound + 1) := by
  have unary : Level.unary.Restored (unary inner) (bound + 1) := unary_restored restored
  have factor : Level.factor.Restored (factor inner) (bound + 1) :=
    @chain_restored .factor _ _ (by decide) unary
  have term : Level.term.Restored (term inner) (bound + 1) :=
    @chain_restored .term _ _ (by decide) factor
  have comparison : Level.comparison.Restored (comparison inner) (bound + 1) :=
    @chain_restored .comparison _ _ (by decide) term
  have equality : Level.equality.Restored (equality inner) (bound + 1) :=
    @chain_restored .equality _ _ (by decide) comparison
  have conjunction : Level.conjunction.Restored (conjunction inner) (bound + 1) :=
    @chain_restored .conjunction _ _ (by decide) equality
  exact @chain_restored .disjunction _ _ (by decide) conjunction

omit restored in
theorem like_variable {id : Nat} {name : Token} {found : Expr}
    (isLike : Like (.variableRef id name) found) : ∃ other, found = .variableRef other name := by
  cases found with
  | variableRef other kept =>
      cases isLike
      exact ⟨other, rfl⟩
  | _ => cases isLike

omit restored in
theorem like_get {id : Nat} {object found : Expr} {name : Token}
    (isLike : Like (.get id object name) found) :
    ∃ other foundObject, found = .get other foundObject name ∧ Like object foundObject := by
  cases found with
  | get other foundObject kept =>
      obtain ⟨-, same, kept⟩ := Expr.get.inj isLike
      exact ⟨other, foundObject, by rw [kept], same⟩
  | _ => cases isLike

/-- What stands before an equals sign is read as an expression of its own, and the value
behind it as any expression. -/
theorem target_restored {target value expr : Expr} {equals : Token}
    {targetWords valueWords : List Token} (fits : target.Fits .call) (respects : target.Respects)
    (written : target.Written targetWords) (equalsKind : equals.kind = .equal)
    (valueRespects : value.Respects) (valueWritten : value.Written valueWords)
    (short : (targetWords ++ equals :: valueWords).length ≤ bound + 1)
    (assigns : ∀ found valueFound, Like target found → Like value valueFound →
      Accepts (assignTo equals found valueFound) [] Any (Like expr)) :
    Accepts (assignment inner) (targetWords ++ equals :: valueWords)
      (Stops Level.assignment.extensions) (Like expr) := by
  simp only [List.length_append, List.length_cons] at short
  have weak : target.Fits .disjunction := Nat.le_trans (by decide) fits
  refine (disjunction_restored restored target targetWords weak respects written (by omega)).bind
    (fun found isLike => ?_) (fun rest _ => stops_cons (by rw [equalsKind]; decide) _)
  refine (accepts_option_some (by simp [equalsKind])).followed fun answer same => ?_
  rw [same]
  refine (restored value valueWords (fits_assignment value) valueRespects valueWritten
    (by omega)).last (fun valueFound valueLike => ?_) (fun _ stops => stops)
  exact (assigns found valueFound isLike valueLike).weaken (fun _ _ => trivial)
    (fun _ good => good)

/-- An assignment is restored with its target, which the parser reads as an expression and then
takes apart. -/
theorem assignment_restored : Level.assignment.Restored (assignment inner) (bound + 1) := by
  intro expr words _ respects written short
  rcases assignment_forms respects with
    fits | ⟨id, name, value, rfl⟩ | ⟨id, object, name, value, rfl⟩
  · refine (disjunction_restored restored expr words fits respects written short).last
      (fun result isLike => ?_) (fun _ stops => stops.subset (by decide))
    exact accepts_none (fun _ stops => stops.subset (by decide)) (accepts_pure result isLike)
  · obtain ⟨nameKind, valueRespects⟩ := respects
    obtain ⟨word, behind, rfl, rfl, filled⟩ := fill_cons_cases written
    obtain ⟨equals, valueWords, rfl, equalsKind, valueWritten⟩ := fill_cons_cases filled
    have fits : (Expr.variableRef id word).Fits .call := Nat.le_succ _
    have targetWritten : (Expr.variableRef id word).Written [word] := fill_one rfl
    refine target_restored restored fits nameKind targetWritten equalsKind valueRespects
      valueWritten short (fun found valueFound isLike valueLike => ?_)
    obtain ⟨other, rfl⟩ := like_variable isLike
    have isLike : ∀ number, Like (.assign id word value) (.assign number word valueFound) :=
      fun _ => congrArg (Expr.assign 0 word) valueLike
    exact accepts_make isLike
  · obtain ⟨objectGood, nameKind, valueRespects⟩ := respects
    obtain ⟨objectWords, behind, rfl, objectWritten, filled⟩ := fill_append_cases written
    obtain ⟨dot, behindDot, rfl, dotKind, nameFilled⟩ := fill_cons_cases filled
    obtain ⟨word, behindName, rfl, rfl, equalsFilled⟩ := fill_cons_cases nameFilled
    obtain ⟨equals, valueWords, rfl, equalsKind, valueWritten⟩ := fill_cons_cases equalsFilled
    have targetWritten : (Expr.get id object word).Written (objectWords ++ [dot, word]) :=
      objectWritten.append (.cons dotKind (fill_one rfl))
    have regrouped : objectWords ++ dot :: word :: equals :: valueWords =
        (objectWords ++ [dot, word]) ++ equals :: valueWords := by simp
    rw [regrouped] at short ⊢
    have fits : (Expr.get id object word).Fits .call := Nat.le_refl _
    have targetRespects : (Expr.get id object word).Respects := ⟨objectGood, nameKind⟩
    refine target_restored restored fits targetRespects targetWritten equalsKind valueRespects
      valueWritten short (fun found valueFound isLike valueLike => ?_)
    obtain ⟨other, foundObject, rfl, objectLike⟩ := like_get isLike
    have isLike : ∀ number,
        Like (.set id object word value) (.set number foundObject word valueFound) := by
      intro number
      unfold Like at objectLike valueLike ⊢
      rw [Expr.unnumbered, Expr.unnumbered, objectLike, valueLike]
    exact accepts_make isLike

end Inner

theorem expression_within_restored (budget : Nat) :
    Level.assignment.Restored (expressionWithin budget) budget := by
  induction budget with
  | zero =>
      intro expr words _ respects written short
      have present := (fill_starts (expression_slots expr respects) written).length_pos
      omega
  | succ budget induction =>
      intro expr words fits respects written short start
      exact assignment_restored induction expr words fits respects written short start

/-- An expression is restored from its tokens before anything that does not extend it. Whatever
respects precedence can so be written without brackets of its own. -/
theorem expression_restored {expr : Expr} {words : List Token} (respects : expr.Respects)
    (written : expr.Written words) :
    Accepts expression words (Stops Level.assignment.extensions) (Like expr) := by
  intro start rest held stops
  have enough : words.length ≤ start.rest.length := by
    rw [held, List.length_append]
    omega
  exact expression_within_restored start.rest.length expr words (fits_assignment expr) respects
    written enough start rest held stops

def Cursor.placed (source : String) (tokens : List Token) (position first : Nat)
    (faults : List (Located Fault)) : Cursor :=
  { Cursor.start (tokens.drop position) (Token.endOf source.toList) with
    nextId := first, faults := faults }

theorem start_cons {word : Token} (plain : word.kind ≠ .endOfInput) (tokens : List Token)
    (finish : Token) :
    Cursor.start (word :: tokens) finish =
      { Cursor.start tokens finish with rest := word :: (Cursor.start tokens finish).rest } := by
  simp [Cursor.start, plain]

/-- What a cursor has before it are tokens of the list, and behind them it goes on as if it
had started there. -/
theorem start_moved {tokens words behind : List Token} {finish : Token}
    (held : (Cursor.start tokens finish).rest = words ++ behind) :
    tokens.take words.length = words ∧ words.length ≤ tokens.length ∧
      Cursor.start (tokens.drop words.length) finish =
        { Cursor.start tokens finish with rest := behind } := by
  induction words generalizing tokens with
  | nil => exact ⟨rfl, Nat.zero_le _, by rw [← show _ = behind from held]; rfl⟩
  | cons word words induction =>
      cases tokens with
      | nil => cases held
      | cons token tokens =>
          have plain : token.kind ≠ .endOfInput := by
            intro ends
            simp [Cursor.start, ends] at held
          rw [start_cons plain] at held
          obtain ⟨rfl, moved⟩ := List.cons.inj held
          obtain ⟨taken, short, placed⟩ := induction moved
          refine ⟨congrArg (token :: ·) taken, Nat.succ_le_succ short, ?_⟩
          rw [start_cons plain]
          exact placed

/-- The tokens that close an expression from without. None of them extends an expression, so behind
one nothing is left open. -/
def closers : List Kind := [.semicolon, .comma, .rightParen, .endOfInput]

theorem closers_stop {rest : List Token} (closed : rest = [] ∨ Follows closers rest)
    (finish : Token) : Stops Level.assignment.extensions (Cursor.start rest finish).rest := by
  rcases closed with rfl | follows
  · exact stops_nil _
  · intro extended
    rcases extended with ⟨token, behind, held, member⟩
    have before := (start_moved (show _ = [token] ++ behind from held)).1
    have stops : Stops Level.assignment.extensions rest := follows_stops (by decide) follows
    refine stops ⟨token, rest.drop 1, ?_, member⟩
    conv_lhs => rw [← List.take_append_drop 1 rest]
    exact congrArg (· ++ rest.drop 1) before

/-- Reading expressions and writing them are inverse. Whatever is read between two positions
respects precedence and is written by exactly the tokens between them; and whatever respects
precedence is read from any tokens that write it, up to the numbers of its nodes, if these
stand before a token that closes it or before the end. -/
theorem expression_inverts_flatten (source : String) (first : Nat)
    (faults : List (Located Fault)) :
    (∀ (tokens : List Token) (position : Nat) (expr : Expr) (stop : Cursor),
      expression (.placed source tokens position first faults) = .ok expr stop →
        ∃ final next, stop = .placed source tokens final next faults ∧
          position ≤ final ∧ final ≤ tokens.length ∧ expr.Respects ∧
          expr.Written ((tokens.drop position).take (final - position)) ∧
          expr.flatten.map Slot.kind =
            ((tokens.drop position).take (final - position)).map Token.kind) ∧
      ∀ (expr : Expr) (before words rest : List Token), expr.Respects → expr.Written words →
        (rest = [] ∨ Follows closers rest) →
          ∃ result next,
            expression (.placed source (before ++ words ++ rest) before.length first faults) =
              .ok result (.placed source (before ++ words ++ rest)
                (before.length + words.length) next faults) ∧
            result.unnumbered = expr.unnumbered := by
  constructor
  · intro tokens position expr stop run
    have closed := start_closed (tokens.drop position) (end_of_kind source.toList)
    obtain ⟨words, read⟩ := expression_yields _ _ _ run closed
    obtain ⟨taken, short, moved⟩ := start_moved read.rest
    obtain ⟨⟨-, respects⟩, written⟩ := read.reads.mirrored
    rw [List.length_drop] at short
    rw [List.drop_drop] at moved
    have covered : (tokens.drop position).take (position + words.length - position) = words := by
      rw [Nat.add_sub_cancel_left, taken]
    have present : 0 < words.length :=
      (fill_starts (expression_slots expr respects) written).length_pos
    refine ⟨position + words.length, stop.nextId, ?_, by omega, by omega, respects, ?_, ?_⟩
    · unfold Cursor.placed
      rw [moved]
      have finish := read.finish
      have kept := read.faults
      cases stop
      cases finish
      cases kept
      rfl
    · rwa [covered]
    · rw [covered]
      exact written.kinds
  · intro expr before words rest respects written closed
    have plain := written.plain respects
    have ahead : (before ++ words ++ rest).drop before.length = words ++ rest := by simp
    have behind : (before ++ words ++ rest).drop (before.length + words.length) = rest := by
      rw [← List.length_append, List.drop_left]
    obtain ⟨result, next, run, isLike⟩ := expression_restored respects written
      (.placed source (before ++ words ++ rest) before.length first faults)
      (Cursor.start rest (Token.endOf source.toList)).rest
      (by rw [Cursor.placed, ahead, start_append plain])
      (closers_stop closed _)
    refine ⟨result, next, ?_, isLike⟩
    rw [run, Cursor.placed, Cursor.placed, ahead, behind, start_append plain]

/-- `a.b = -c || d(e)`, as a tree and as tokens. -/
def mixture : Expr :=
  .set 0 (.variableRef 0 ⟨.identifier, ⟨0, 1⟩, "a", 1⟩) ⟨.identifier, ⟨2, 3⟩, "b", 1⟩
    (.logical 0 (.unary 0 ⟨.minus, ⟨6, 7⟩, "-", 1⟩ (.variableRef 0 ⟨.identifier, ⟨7, 8⟩, "c", 1⟩))
      ⟨.orOr, ⟨9, 11⟩, "||", 1⟩
      (.call 0 (.variableRef 0 ⟨.identifier, ⟨12, 13⟩, "d", 1⟩) ⟨.rightParen, ⟨15, 16⟩, ")", 1⟩
        [.variableRef 0 ⟨.identifier, ⟨14, 15⟩, "e", 1⟩]))

def mixtureWords : List Token :=
  [⟨.identifier, ⟨0, 1⟩, "a", 1⟩, ⟨.dot, ⟨1, 2⟩, ".", 1⟩, ⟨.identifier, ⟨2, 3⟩, "b", 1⟩,
    ⟨.equal, ⟨4, 5⟩, "=", 1⟩, ⟨.minus, ⟨6, 7⟩, "-", 1⟩, ⟨.identifier, ⟨7, 8⟩, "c", 1⟩,
    ⟨.orOr, ⟨9, 11⟩, "||", 1⟩, ⟨.identifier, ⟨12, 13⟩, "d", 1⟩, ⟨.leftParen, ⟨13, 14⟩, "(", 1⟩,
    ⟨.identifier, ⟨14, 15⟩, "e", 1⟩, ⟨.rightParen, ⟨15, 16⟩, ")", 1⟩]

theorem expression_inverts_flatten_mixture :
    mixture.Respects ∧ mixture.Written mixtureWords ∧
      ∃ result next,
        expression (.placed "" ([] ++ mixtureWords ++ []) 0 0 []) =
          .ok result (.placed "" ([] ++ mixtureWords ++ []) 11 next []) ∧
        result.unnumbered = mixture.unnumbered := by
  have respects : mixture.Respects := by
    simp [mixture, Expr.Respects, respectsAll, Expr.Fits, Expr.level, Level.rank, Level.joinedBy,
      Level.operand, signs, logicalOperators, listLimit]
  have written : mixture.Written mixtureWords := by
    simp [mixture, mixtureWords, Expr.Written, Fill, Expr.flatten, flattenArguments,
      Slot.FilledBy]
  exact ⟨respects, written,
    (expression_inverts_flatten "" 0 []).2 mixture [] mixtureWords [] respects written (.inl rfl)⟩

end Quill.Grammar
