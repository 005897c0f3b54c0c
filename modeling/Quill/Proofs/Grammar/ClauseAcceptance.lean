import Quill.Proofs.Grammar.Dangling
import Quill.Proofs.Grammar.PhraseAcceptance

/-!
Statements and declarations of the grammar are accepted, balanced statements before anything
and all others where no `else` follows. The length of a clause bounds the budget it needs.
-/

namespace Quill.Grammar

set_option autoImplicit false

theorem expression_statement_accepts {words : List Token} (derives : Derives (.rule .exprStmt) words)
    (legible : Legible words) : Accepts expressionStatement words Any Any := by
  obtain ⟨expr, semicolon, rfl, isExpr, kind⟩ := then_token (derives_rule.1 derives)
  rw [legible_append] at legible
  refine (expression_accepts isExpr legible.1).bind (fun _ _ => ?_) (fun rest _ => ?_)
  · exact (accepts_expect kind).followed fun _ _ => accepts_pure _ trivial
  · apply stops_cons
    rw [kind]
    decide

theorem var_declaration_accepts {words : List Token} (derives : Derives (.rule .varDecl) words)
    (legible : Legible words) :
    ∃ keyword behind, words = keyword :: behind ∧ keyword.kind = .varWord ∧
      Accepts varDeclaration behind Any Any := by
  obtain ⟨front, semicolon, rfl, isFront, semicolonKind⟩ := then_token (derives_rule.1 derives)
  obtain ⟨opening, value, rfl, isOpening, isValue⟩ := derives_sequence.1 isFront
  obtain ⟨first, name, rfl, isFirst, nameKind⟩ := then_token isOpening
  obtain ⟨keyword, rfl, keywordKind⟩ := derives_token.1 isFirst
  simp only [legible_append] at legible
  refine ⟨keyword, name :: value ++ [semicolon], by simp, keywordKind, ?_⟩
  refine (accepts_expect nameKind).followed fun _ _ => ?_
  have valued : Accepts initializer value (Follows [.semicolon]) Any := by
    rcases derives_optional.1 isValue with rfl | present
    · exact accepts_absent (fun _ => follows_stops (by decide)) (accepts_pure _ trivial)
    · obtain ⟨equals, expr, rfl, equalsKind, isExpr⟩ := token_then present
      refine (accepts_accept_true equalsKind).followed fun answer same => ?_
      rw [same]
      refine (expression_accepts isExpr ?_).map.weaken (fun _ => follows_stops (by decide))
        (fun _ good => good)
      exact (legible_cons.1 legible.1.2).2
  refine valued.bind (fun _ _ => ?_) (fun rest _ => ⟨semicolon, rest, rfl, by simp [semicolonKind]⟩)
  exact (accepts_expect semicolonKind).followed fun _ _ => accepts_pure _ trivial

theorem optional_accepts {closing : Kind} {words : List Token} (apart : closing ∉ expressionStarts)
    (ends : closing ∉ Level.assignment.extensions)
    (derives : Derives (.optional (.rule .expression)) words) (legible : Legible words) :
    Accepts (optionalExpression closing) words (Follows [closing]) Any := by
  rcases derives_optional.1 derives with rfl | present
  · exact accepts_check_true (fun _ closes => closes) (accepts_pure _ trivial)
  · refine accepts_check_false (fun rest _ => ?_) ?_
    · refine follows_stops (fun kind member => ?_) ((expression_starts present).append rest)
      intro closes
      rw [List.mem_singleton.1 closes] at member
      exact apart member
    · refine (expression_accepts present legible).map.weaken (fun rest => ?_) (fun _ good => good)
      exact follows_stops (by simpa using ends)

theorem return_accepts {words : List Token} (derives : Derives (.rule .returnStmt) words)
    (legible : Legible words) :
    ∃ keyword behind, words = keyword :: behind ∧ keyword.kind = .returnWord ∧
      Accepts (returnStatement keyword) behind Any Any := by
  obtain ⟨front, semicolon, rfl, isFront, semicolonKind⟩ := then_token (derives_rule.1 derives)
  obtain ⟨keyword, value, rfl, keywordKind, isValue⟩ := token_then isFront
  rw [legible_append] at legible
  refine ⟨keyword, value ++ [semicolon], rfl, keywordKind, ?_⟩
  refine (optional_accepts (by decide) (by decide) isValue (legible_cons.1 legible.1).2).bind
    (fun _ _ => ?_) (fun rest _ => ⟨semicolon, rest, rfl, by simp [semicolonKind]⟩)
  exact (accepts_expect semicolonKind).followed fun _ _ => accepts_pure _ trivial

theorem for_initializer_accepts {words : List Token}
    (derives : Derives (.rule .varDecl ||| .rule .exprStmt ||| .token .semicolon) words)
    (legible : Legible words) : Accepts forInitializer words Any Any := by
  rcases derives_either.1 derives with isPresent | isAbsent
  · rcases derives_either.1 isPresent with isVar | isExpr
    · obtain ⟨keyword, behind, rfl, kind, accepts⟩ := var_declaration_accepts isVar legible
      refine accepts_absent (fun rest _ => ?_) ?_
      · apply stops_cons
        rw [kind]
        decide
      · refine (accepts_accept_true kind).followed fun answer same => ?_
        rw [same]
        exact accepts.map
    · have starts : Follows expressionStarts words := by
        obtain ⟨expr, semicolon, rfl, isExpr, -⟩ := then_token (derives_rule.1 isExpr)
        exact (expression_starts isExpr).append _
      refine accepts_absent (fun rest _ => follows_stops (by decide) (starts.append rest)) ?_
      refine accepts_absent (fun rest _ => follows_stops (by decide) (starts.append rest)) ?_
      exact (expression_statement_accepts isExpr legible).map
  · obtain ⟨semicolon, rfl, kind⟩ := derives_token.1 isAbsent
    refine (accepts_accept_true kind).followed fun answer same => ?_
    rw [same]
    exact accepts_pure _ trivial

section Statements

variable {statement : Parser Stmt} {follow : List Token → Prop}

theorem while_accepts {header body : List Token} (derives : Derives (conditional .whileWord) header)
    (legible : Legible header) (accepts : Accepts statement body follow Any) :
    ∃ keyword behind, header ++ body = keyword :: behind ∧ keyword.kind = .whileWord ∧
      Accepts (whileStatement statement) behind follow Any := by
  obtain ⟨keyword, left, condition, right, rfl, keywordKind, leftKind, isCondition, rightKind⟩ :=
    conditional_parts derives
  simp only [List.cons_append, legible_word keywordKind (by decide),
    legible_word leftKind (by decide), legible_append] at legible
  refine ⟨keyword, left :: (condition ++ right :: body), by simp, keywordKind, ?_⟩
  refine (accepts_expect leftKind).followed fun _ _ => ?_
  refine (expression_accepts isCondition legible.1).bind (fun _ _ => ?_) (fun rest _ => ?_)
  · refine (accepts_expect rightKind).followed fun _ _ => ?_
    exact accepts.last (fun _ _ => accepts_pure _ trivial) (fun _ allowed => allowed)
  · apply stops_cons
    rw [rightKind]
    decide

/-- A counting loop is accepted with its clauses, given that its body is. What may follow the loop
is what may follow the body, since an `else` behind it belongs to a branch left open there. -/
theorem for_accepts {header body : List Token} (derives : Derives forClauses header)
    (legible : Legible header) (accepts : Accepts statement body follow Any) :
    ∃ keyword behind, header ++ body = keyword :: behind ∧ keyword.kind = .forWord ∧
      Accepts (forStatement statement) behind follow Any := by
  obtain ⟨keyword, left, starting, testing, semicolon, stepping, right, rfl, keywordKind, leftKind,
    isStarting, isTesting, semicolonKind, isStepping, rightKind⟩ := for_clauses_parts derives
  simp only [List.cons_append, legible_word keywordKind (by decide),
    legible_word leftKind (by decide), legible_word semicolonKind (by decide),
    legible_append] at legible
  refine ⟨keyword, left :: (starting ++ (testing ++ semicolon :: (stepping ++ right :: body))),
    by simp, keywordKind, ?_⟩
  refine (accepts_expect leftKind).followed fun _ _ => ?_
  refine (for_initializer_accepts isStarting legible.1.1.1).followed fun _ _ => ?_
  refine (optional_accepts (by decide) (by decide) isTesting legible.1.1.2).bind
    (fun condition _ => ?_) (fun rest _ => ⟨semicolon, _, rfl, by simp [semicolonKind]⟩)
  refine (accepts_expect semicolonKind).followed fun _ _ => ?_
  refine (optional_accepts (by decide) (by decide) isStepping legible.1.2).bind
    (fun _ _ => ?_) (fun rest _ => ⟨right, _, rfl, by simp [rightKind]⟩)
  refine (accepts_expect rightKind).followed fun _ _ => ?_
  refine accepts.last (fun _ _ => ?_) (fun _ allowed => allowed)
  cases condition with
  | some condition => exact accepts_pure _ trivial
  | none =>
      have made : Accepts (make fun id => .literal id (.boolean true)) [] Any Any :=
        accepts_make fun _ => trivial
      exact made.followed fun _ _ => accepts_pure _ trivial

/-- A branch, given what becomes of the statements behind its condition. Whether there is an `else`
is left to these, since it decides to which branch the tokens behind belong. -/
theorem if_accepts {header words : List Token} (derives : Derives (conditional .ifWord) header)
    (legible : Legible header)
    (accepts : ∀ condition, Accepts (do
      let thenBranch ← statement
      if ← accept .elseWord then
        let elseBranch ← statement
        pure (Stmt.ifElse condition thenBranch elseBranch)
      else pure (Stmt.ifThen condition thenBranch)) words follow Any) :
    ∃ keyword behind, header ++ words = keyword :: behind ∧ keyword.kind = .ifWord ∧
      Accepts (ifStatement statement) behind follow Any := by
  obtain ⟨keyword, left, condition, right, rfl, keywordKind, leftKind, isCondition, rightKind⟩ :=
    conditional_parts derives
  simp only [List.cons_append, legible_word keywordKind (by decide),
    legible_word leftKind (by decide), legible_append] at legible
  refine ⟨keyword, left :: (condition ++ right :: words), by simp, keywordKind, ?_⟩
  refine (accepts_expect leftKind).followed fun _ _ => ?_
  refine (expression_accepts isCondition legible.1).bind (fun expr _ => ?_) (fun rest _ => ?_)
  · exact (accepts_expect rightKind).followed fun _ _ => accepts expr
  · apply stops_cons
    rw [rightKind]
    decide

theorem if_then_accepts {header branch : List Token} (derives : Derives (conditional .ifWord) header)
    (legible : Legible header) (accepts : Accepts statement branch (Stops [.elseWord]) Any) :
    ∃ keyword behind, header ++ branch = keyword :: behind ∧ keyword.kind = .ifWord ∧
      Accepts (ifStatement statement) behind (Stops [.elseWord]) Any := by
  refine if_accepts derives legible fun condition => ?_
  refine accepts.last (fun _ _ => ?_) (fun _ stops => stops)
  exact accepts_absent (fun _ stops => stops) (accepts_pure _ trivial)

theorem if_else_accepts {header branch others : List Token} {otherwise : Token}
    (derives : Derives (conditional .ifWord) header) (legible : Legible header)
    (accepts : Accepts statement branch Any Any) (kind : otherwise.kind = .elseWord)
    (acceptsOther : Accepts statement others follow Any) :
    ∃ keyword behind, header ++ (branch ++ otherwise :: others) = keyword :: behind ∧
      keyword.kind = .ifWord ∧ Accepts (ifStatement statement) behind follow Any := by
  refine if_accepts derives legible fun condition => ?_
  refine accepts.followed fun _ _ => ?_
  refine (accepts_accept_true kind).followed fun answer same => ?_
  rw [same]
  exact acceptsOther.last (fun _ _ => accepts_pure _ trivial) (fun _ allowed => allowed)

end Statements

def statementStarts : List Kind :=
  [.forWord, .ifWord, .whileWord, .returnWord, .leftBrace] ++ expressionStarts

def declarationStarts : List Kind := [.classWord, .functionWord, .varWord] ++ statementStarts

theorem statement_starts {words : List Token} (derives : Derives (.rule .statement) words) :
    Follows statementStarts words := by
  rcases derives_statement.1 derives with isExpr | isFor | isIf | isReturn | isWhile | isBlock
  · obtain ⟨expr, semicolon, rfl, isExpr, -⟩ := then_token (derives_rule.1 isExpr)
    exact ((expression_starts isExpr).append _).subset (List.subset_append_right _ _)
  · obtain ⟨header, body, rfl, isHeader, -⟩ := derives_sequence.1 (derives_rule.1 isFor)
    obtain ⟨keyword, left, starting, testing, semicolon, stepping, right, rfl, kind, -⟩ :=
      for_clauses_parts isHeader
    exact ⟨keyword, _, rfl, by simp [kind, statementStarts]⟩
  · obtain ⟨header, branch, isHeader, -, whole⟩ := if_parts isIf
    obtain ⟨keyword, left, condition, right, rfl, kind, -⟩ := conditional_parts isHeader
    rcases whole with rfl | ⟨otherwise, others, rfl, -⟩ <;>
      exact ⟨keyword, _, rfl, by simp [kind, statementStarts]⟩
  · obtain ⟨front, semicolon, rfl, isFront, -⟩ := then_token (derives_rule.1 isReturn)
    obtain ⟨keyword, value, rfl, kind, -⟩ := token_then isFront
    exact ⟨keyword, _, rfl, by simp [kind, statementStarts]⟩
  · obtain ⟨header, body, rfl, isHeader, -⟩ := derives_sequence.1 (derives_rule.1 isWhile)
    obtain ⟨keyword, left, condition, right, rfl, kind, -⟩ := conditional_parts isHeader
    exact ⟨keyword, _, rfl, by simp [kind, statementStarts]⟩
  · obtain ⟨front, right, rfl, isFront, -⟩ := then_token (derives_rule.1 isBlock)
    obtain ⟨left, inside, rfl, kind, -⟩ := token_then isFront
    exact ⟨left, _, rfl, by simp [kind, statementStarts]⟩

theorem class_parts {words : List Token} (derives : Derives (.rule .classDecl) words) :
    ∃ keyword name base left inside right,
      words = keyword :: name :: (base ++ left :: (inside ++ [right])) ∧ keyword.kind = .classWord ∧
        name.kind = .identifier ∧ Derives (.optional (.token .colon ++ .token .identifier)) base ∧
          left.kind = .leftBrace ∧ Derives (.many (.rule .method)) inside ∧
            right.kind = .rightBrace := by
  obtain ⟨front, right, rfl, isFront, rightKind⟩ := then_token (derives_rule.1 derives)
  obtain ⟨opened, inside, rfl, isOpened, isInside⟩ := derives_sequence.1 isFront
  obtain ⟨header, left, rfl, isHeader, leftKind⟩ := then_token isOpened
  obtain ⟨named, base, rfl, isNamed, isBase⟩ := derives_sequence.1 isHeader
  obtain ⟨first, name, rfl, isFirst, nameKind⟩ := then_token isNamed
  obtain ⟨keyword, rfl, keywordKind⟩ := derives_token.1 isFirst
  exact ⟨keyword, name, base, left, inside, right, by simp, keywordKind, nameKind, isBase, leftKind,
    isInside, rightKind⟩

theorem function_parts {words : List Token} (derives : Derives (.rule .function) words) :
    ∃ name left listed right opening inside closing,
      words = name :: left :: (listed ++ right :: opening :: (inside ++ [closing])) ∧
        name.kind = .identifier ∧ left.kind = .leftParen ∧
          Derives (.optional (.rule .parameters)) listed ∧ right.kind = .rightParen ∧
            opening.kind = .leftBrace ∧ Derives (.many (.rule .declaration)) inside ∧
              closing.kind = .rightBrace := by
  obtain ⟨header, body, rfl, isHeader, isBody⟩ := derives_sequence.1 (derives_rule.1 derives)
  obtain ⟨front, right, rfl, isFront, rightKind⟩ := then_token isHeader
  obtain ⟨opened, listed, rfl, isOpened, isListed⟩ := derives_sequence.1 isFront
  obtain ⟨first, left, rfl, isFirst, leftKind⟩ := then_token isOpened
  obtain ⟨name, rfl, nameKind⟩ := derives_token.1 isFirst
  obtain ⟨begun, closing, rfl, isBegun, closingKind⟩ := then_token (derives_rule.1 isBody)
  obtain ⟨opening, inside, rfl, openingKind, isInside⟩ := token_then isBegun
  exact ⟨name, left, listed, right, opening, inside, closing, by simp, nameKind, leftKind, isListed,
    rightKind, openingKind, isInside, closingKind⟩

theorem declaration_starts {words : List Token} (derives : Derives (.rule .declaration) words) :
    Follows declarationStarts words := by
  rcases derives_declaration.1 derives with isClass | isFunction | isVar | isStatement
  · obtain ⟨keyword, name, base, left, inside, right, rfl, kind, -⟩ := class_parts isClass
    exact ⟨keyword, _, rfl, by simp [kind, declarationStarts]⟩
  · obtain ⟨keyword, behind, rfl, kind, -⟩ := token_then (derives_rule.1 isFunction)
    exact ⟨keyword, _, rfl, by simp [kind, declarationStarts]⟩
  · obtain ⟨front, semicolon, rfl, isFront, -⟩ := then_token (derives_rule.1 isVar)
    obtain ⟨opening, value, rfl, isOpening, -⟩ := derives_sequence.1 isFront
    obtain ⟨keyword, behind, rfl, kind, -⟩ := token_then isOpening
    exact ⟨keyword, _, rfl, by simp [kind, declarationStarts]⟩
  · exact (statement_starts isStatement).subset (List.subset_append_right _ _)

theorem parameters_accept {room count : Nat} {words : List Token}
    (listed : Listed (.token .identifier) count words) (enough : count ≤ room) :
    Accepts (parameters room) words (Follows [.rightParen]) Any := by
  induction room generalizing count words with
  | zero =>
      rcases listed with ⟨first, parts, rfl, length, -⟩
      omega
  | succ room induction =>
      rcases listed_cases listed with ⟨rfl, isName⟩ |
        ⟨first, comma, others, shorter, rfl, rfl, isFirst, commaKind, isOthers⟩
      · obtain ⟨name, rfl, kind⟩ := derives_token.1 isName
        refine (accepts_expect kind).followed fun _ _ => ?_
        exact accepts_absent (fun rest => follows_stops (by decide)) (accepts_pure _ trivial)
      · obtain ⟨name, rfl, kind⟩ := derives_token.1 isFirst
        refine (accepts_expect kind).followed fun _ _ => ?_
        refine (accepts_accept_true commaKind).followed fun answer same => ?_
        rw [same]
        exact (induction isOthers (by omega)).last (fun _ _ => accepts_pure _ trivial)
          (fun _ allowed => allowed)

theorem parameter_list_accepts {words : List Token}
    (derives : Derives (.optional (.rule .parameters)) words) :
    Accepts parameterList words (Follows [.rightParen]) Any := by
  rcases derives_optional.1 derives with rfl | present
  · exact accepts_check_true (fun _ closes => closes) (accepts_pure _ trivial)
  · obtain ⟨count, limited, listed⟩ := derives_list (by decide) (derives_rule.1 present)
    have starts : Follows [.identifier] words := by
      rcases listed with ⟨first, parts, rfl, -, isFirst, -⟩
      obtain ⟨name, rfl, kind⟩ := derives_token.1 isFirst
      exact ⟨name, _, rfl, by simp [kind]⟩
    refine accepts_check_false (fun rest _ => ?_) (parameters_accept listed limited)
    exact follows_stops (by decide) (starts.append rest)

/-- Declarations up to a length are accepted before any rest that does not begin with `else`, which
might go on with an open branch at their end. -/
def Declares (declaration : Parser (Option Stmt)) (bound : Nat) : Prop :=
  ∀ words : List Token, words.length ≤ bound → Legible words →
    Derives (.rule .declaration) words → Accepts declaration words (Stops [.elseWord]) Any

def Ends (closing : List Kind) (rest : List Token) : Prop := rest = [] ∨ Follows closing rest

namespace Repeats

variable {First Item : Type} {closing : List Kind} {item : Parser First}
  {join : First → List Item → List Item} {loop : Nat → Parser (List Item)}
  (repeats : Repeats closing item join loop)

include repeats

theorem accepts_nothing (budget : Nat) : Accepts (loop budget) [] (Ends closing) Any := by
  intro start rest held ends
  obtain rfl : start.rest = rest := held
  refine ⟨[], start.nextId, ?_, trivial⟩
  rcases ends with empty | ⟨token, behind, more, member⟩
  · exact repeats.ended empty
  · cases budget with
    | zero =>
        rw [repeats.spent]
        rfl
    | succ budget => exact repeats.closed more member

theorem accepts_more {budget : Nat} {starts : List Kind} {words : List Token}
    {follow : List Token → Prop} (begins : Follows starts words)
    (apart : ∀ kind ∈ starts, kind ∉ closing)
    (accepts : Accepts (item >>= fun first => loop budget >>= fun others => pure (join first others))
      words follow Any) : Accepts (loop (budget + 1)) words follow Any := by
  obtain ⟨token, behind, rfl, member⟩ := begins
  intro start rest held allowed
  rw [repeats.continued held (apart _ member)]
  exact accepts start rest held allowed

end Repeats

section Declarations

variable {declaration : Parser (Option Stmt)} {bound : Nat} (declares : Declares declaration bound)

theorem declarations_stop_else {closing : List Kind} (apart : .elseWord ∉ closing)
    {parts : List (List Token)} (each : ∀ part ∈ parts, Derives (.rule .declaration) part)
    {rest : List Token} (ends : Ends closing rest) :
    Stops [.elseWord] (parts.flatten ++ rest) := by
  cases parts with
  | nil =>
      rcases ends with rfl | closes
      · exact stops_nil _
      · refine follows_stops (fun kind member isElse => ?_) closes
        rw [List.mem_singleton.1 isElse] at member
        exact apart member
  | cons part parts =>
      have starts := declaration_starts (each part List.mem_cons_self)
      rw [List.flatten_cons, List.append_assoc]
      exact follows_stops (by decide) (starts.append _)

include declares

/-- A row of declarations is accepted up to one of the closing kinds. None of these begins a
declaration, or could be taken for the `else` of an open branch. -/
theorem declarations_accept {closing : List Kind}
    (apart : ∀ kind ∈ declarationStarts, kind ∉ closing) (noElse : .elseWord ∉ closing)
    {parts : List (List Token)} (each : ∀ part ∈ parts, Derives (.rule .declaration) part)
    (legible : Legible parts.flatten) (short : parts.flatten.length ≤ bound) {budget : Nat}
    (enough : parts.length ≤ budget) :
    Accepts (declarationsFrom declaration closing budget) parts.flatten (Ends closing) Any := by
  induction parts generalizing budget with
  | nil => exact (repeats_declarations declaration closing).accepts_nothing budget
  | cons part parts induction =>
      have starts := declaration_starts (each part List.mem_cons_self)
      have present := starts.length_pos
      simp only [List.mem_cons, forall_eq_or_imp] at each
      simp only [List.flatten_cons, legible_append] at legible
      simp only [List.flatten_cons, List.length_append] at short
      cases budget with
      | zero => simp at enough
      | succ budget =>
          rw [List.flatten_cons]
          refine (repeats_declarations declaration closing).accepts_more (starts.append _) apart ?_
          refine (declares part (by omega) legible.1 each.1).bind (fun first _ => ?_)
            (fun rest ends => declarations_stop_else noElse each.2 ends)
          exact (induction each.2 legible.2 (by omega) (by simpa using enough)).last
            (fun _ _ => accepts_pure _ trivial) (fun _ ends => ends)

theorem block_accepts {inside : List Token} {right : Token}
    (derives : Derives (.many (.rule .declaration)) inside) (kind : right.kind = .rightBrace)
    (legible : Legible inside) (short : inside.length ≤ bound) :
    Accepts (block declaration) (inside ++ [right]) Any Any := by
  obtain ⟨parts, rfl, each⟩ := derives_many.1 derives
  have few := parts_length_le fun part member => (declaration_starts (each part member)).length_pos
  refine accepts_remaining fun count enough => ?_
  rw [List.length_append] at enough
  refine (declarations_accept declares (by decide) (by decide) each legible short
    (by omega)).bind (fun _ _ => ?_) (fun rest _ => .inr ⟨right, rest, rfl, by simp [kind]⟩)
  exact (accepts_expect kind).followed fun _ _ => accepts_pure _ trivial

theorem function_accepts {words : List Token} (role : Role) (derives : Derives (.rule .function) words)
    (legible : Legible words) (short : words.length ≤ bound) :
    Accepts (function declaration role) words Any Any := by
  obtain ⟨name, left, listed, right, opening, inside, closing, rfl, nameKind, leftKind, isListed,
    rightKind, openingKind, isInside, closingKind⟩ := function_parts derives
  simp only [legible_word nameKind (by decide), legible_word leftKind (by decide), legible_append,
    legible_word rightKind (by decide), legible_word openingKind (by decide)] at legible
  simp only [List.length_cons, List.length_append] at short
  refine (accepts_expect nameKind).followed fun _ _ => ?_
  refine (accepts_expect leftKind).followed fun _ _ => ?_
  refine (parameter_list_accepts isListed).bind (fun _ _ => ?_)
    (fun rest _ => ⟨right, _, rfl, by simp [rightKind]⟩)
  refine (accepts_expect rightKind).followed fun _ _ => ?_
  refine (accepts_expect openingKind).followed fun _ _ => ?_
  exact (block_accepts declares isInside closingKind legible.2.1 (by omega)).last
    (fun _ _ => accepts_pure _ trivial) (fun _ allowed => allowed)

omit declares in
theorem method_starts {words : List Token} (derives : Derives (.rule .method) words) :
    Follows [.functionWord, .identifier] words := by
  obtain ⟨keyword, others, rfl, isKeyword, isFunction⟩ := derives_sequence.1 (derives_rule.1 derives)
  rcases derives_optional.1 isKeyword with rfl | present
  · obtain ⟨name, left, listed, right, opening, inside, closing, rfl, kind, -⟩ :=
      function_parts isFunction
    exact ⟨name, _, rfl, by simp [kind]⟩
  · obtain ⟨word, rfl, kind⟩ := derives_token.1 present
    exact ⟨word, _, rfl, by simp [kind]⟩

theorem method_accepts {words : List Token} (derives : Derives (.rule .method) words)
    (legible : Legible words) (short : words.length ≤ bound)
    {Next : Type} {proceed : FunctionDecl → Parser Next} {others : List Token}
    {follow : List Token → Prop} {fine : Next → Prop}
    (accepts : ∀ decl, Accepts (proceed decl) others follow fine) :
    Accepts (do let _ ← accept .functionWord; let decl ← function declaration .method; proceed decl)
      (words ++ others) follow fine := by
  obtain ⟨keyword, body, rfl, isKeyword, isFunction⟩ := derives_sequence.1 (derives_rule.1 derives)
  rw [legible_append] at legible
  rw [List.length_append] at short
  have isAccepted := function_accepts declares .method isFunction legible.2 (by omega)
  rcases derives_optional.1 isKeyword with rfl | present
  · refine accepts_absent (fun rest _ => ?_) (isAccepted.followed fun decl _ => accepts decl)
    obtain ⟨name, left, listed, right, opening, inside, closing, rfl, kind, -⟩ :=
      function_parts isFunction
    apply stops_cons
    rw [kind]
    decide
  · obtain ⟨word, rfl, kind⟩ := derives_token.1 present
    rw [List.append_assoc]
    refine (accepts_accept_true kind).followed fun _ _ => ?_
    exact isAccepted.followed fun decl _ => accepts decl

theorem methods_accept {parts : List (List Token)}
    (each : ∀ part ∈ parts, Derives (.rule .method) part) (legible : Legible parts.flatten)
    (short : parts.flatten.length ≤ bound) {budget : Nat} (enough : parts.length < budget) :
    Accepts (methodsFrom declaration budget) parts.flatten (Follows [.rightBrace]) Any := by
  induction parts generalizing budget with
  | nil =>
      exact ((repeats_methods declaration).accepts_nothing budget).weaken
        (fun _ closes => .inr closes) fun _ _ => trivial
  | cons part parts induction =>
      have starts := method_starts (each part List.mem_cons_self)
      simp only [List.mem_cons, forall_eq_or_imp] at each
      simp only [List.flatten_cons, legible_append] at legible
      simp only [List.flatten_cons, List.length_append] at short
      cases budget with
      | zero => simp at enough
      | succ budget =>
          rw [List.flatten_cons]
          refine (repeats_methods declaration).accepts_more (starts.append _) (by decide) ?_
          rw [bind_assoc]
          refine method_accepts declares each.1 legible.1 (by omega) fun decl => ?_
          exact (induction each.2 legible.2 (by omega) (by simpa using enough)).last
            (fun _ _ => accepts_pure _ trivial) (fun _ closes => closes)

omit declares in
theorem class_base_accepts {words : List Token}
    (derives : Derives (.optional (.token .colon ++ .token .identifier)) words) :
    Accepts classBase words (Follows [.leftBrace]) Any := by
  rcases derives_optional.1 derives with rfl | present
  · exact accepts_absent (fun _ => follows_stops (by decide)) (accepts_pure _ trivial)
  · obtain ⟨colon, others, rfl, colonKind, isName⟩ := token_then present
    obtain ⟨name, rfl, nameKind⟩ := derives_token.1 isName
    refine (accepts_accept_true colonKind).followed fun answer same => ?_
    rw [same]
    refine (accepts_expect nameKind).followed fun base _ => ?_
    have made : Accepts (make fun id => .variableRef id base) [] Any Any :=
      accepts_make fun _ => trivial
    exact made.followed fun _ _ => accepts_pure _ trivial

theorem class_accepts {words : List Token} (derives : Derives (.rule .classDecl) words)
    (legible : Legible words) (short : words.length ≤ bound + 1) :
    ∃ keyword behind, words = keyword :: behind ∧ keyword.kind = .classWord ∧
      Accepts (classDeclaration declaration) behind Any Any := by
  obtain ⟨keyword, name, base, left, inside, right, rfl, keywordKind, nameKind, isBase, leftKind,
    isInside, rightKind⟩ := class_parts derives
  simp only [legible_word keywordKind (by decide), legible_word nameKind (by decide),
    legible_append, legible_word leftKind (by decide)] at legible
  simp only [List.length_cons, List.length_append] at short
  obtain ⟨parts, rfl, each⟩ := derives_many.1 isInside
  have few := parts_length_le fun part member => (method_starts (each part member)).length_pos
  refine ⟨keyword, _, rfl, keywordKind, ?_⟩
  refine (accepts_expect nameKind).followed fun _ _ => ?_
  refine (class_base_accepts isBase).bind (fun _ _ => ?_)
    (fun rest _ => ⟨left, _, rfl, by simp [leftKind]⟩)
  refine (accepts_expect leftKind).followed fun _ _ => ?_
  refine accepts_remaining fun count enough => ?_
  have more : parts.flatten.length + 1 ≤ count := by
    change (parts.flatten ++ [right]).length ≤ count at enough
    simpa using enough
  refine (methods_accept declares each legible.2.1 (by omega) (by omega)).bind (fun _ _ => ?_)
    (fun rest _ => ⟨right, rest, rfl, by simp [rightKind]⟩)
  exact (accepts_expect rightKind).followed fun _ _ => accepts_pure _ trivial

end Declarations

/-- Statements are accepted up to a length, and balanced ones before anything. Of an open one, an
`else` behind it would be taken for its own. -/
structure States (statement : Parser Stmt) (bound : Nat) : Prop where
  any : ∀ words : List Token, words.length ≤ bound → Legible words →
    Derives (.rule .statement) words → Accepts statement words (Stops [.elseWord]) Any
  balanced : ∀ words : List Token, words.length ≤ bound → Legible words → Balanced words →
    Accepts statement words Any Any

section Rule

variable {statement : Parser Stmt} {declaration : Parser (Option Stmt)} {bound : Nat}
  {follow : List Token → Prop}

theorem keyword_accepts {keyword : Token} {behind : List Token}
    (member : keyword.kind ∈ [Kind.forWord, .ifWord, .whileWord, .returnWord, .leftBrace])
    (accepts : Accepts (match keyword.kind with
      | .forWord => forStatement statement
      | .ifWord => ifStatement statement
      | .whileWord => whileStatement statement
      | .returnWord => returnStatement keyword
      | _ => .block <$> block declaration) behind follow Any) :
    Accepts (statementRule statement declaration) (keyword :: behind) follow Any := by
  refine (accepts_option_some member).followed fun answer same => ?_
  rw [same]
  exact accepts

theorem declaring_accepts {keyword : Token} {behind : List Token}
    (member : keyword.kind ∈ [Kind.classWord, .functionWord, .varWord])
    (accepts : Accepts (match keyword.kind with
      | .classWord => classDeclaration declaration
      | .functionWord => .functionDecl <$> function declaration .function
      | _ => varDeclaration) behind Any Any) :
    Accepts (declarationRule statement declaration) (keyword :: behind) follow Any := by
  refine (accepts_option_some member).followed fun answer same => ?_
  rw [same]
  exact accepts.weaken (fun _ _ => trivial) (fun _ good => good)

theorem looped_accepts {header body : List Token} (looped : Looped header) (legible : Legible header)
    (accepts : Accepts statement body follow Any) :
    Accepts (statementRule statement declaration) (header ++ body) follow Any := by
  rcases looped with isWhile | isFor
  · obtain ⟨keyword, behind, same, kind, isAccepted⟩ := while_accepts isWhile legible accepts
    rw [same]
    refine keyword_accepts (by simp [kind]) ?_
    rw [kind]
    exact isAccepted
  · obtain ⟨keyword, behind, same, kind, isAccepted⟩ := for_accepts isFor legible accepts
    rw [same]
    refine keyword_accepts (by simp [kind]) ?_
    rw [kind]
    exact isAccepted

theorem plain_accepts (declares : Declares declaration bound) {words : List Token}
    (isPlain : Plain words) (legible : Legible words) (short : words.length ≤ bound + 1) :
    Accepts (statementRule statement declaration) words Any Any := by
  rcases isPlain with isExpr | isReturn | isBlock
  · have starts : Follows expressionStarts words := by
      obtain ⟨expr, semicolon, rfl, isExpr, -⟩ := then_token (derives_rule.1 isExpr)
      exact (expression_starts isExpr).append _
    refine accepts_none (fun rest _ => follows_stops (by decide) (starts.append rest)) ?_
    exact expression_statement_accepts isExpr legible
  · obtain ⟨keyword, behind, rfl, kind, isAccepted⟩ := return_accepts isReturn legible
    refine keyword_accepts (by simp [kind]) ?_
    rw [kind]
    exact isAccepted
  · obtain ⟨front, right, rfl, isFront, rightKind⟩ := then_token (derives_rule.1 isBlock)
    obtain ⟨left, inside, rfl, leftKind, isInside⟩ := token_then isFront
    simp only [List.cons_append, legible_word leftKind (by decide), legible_append] at legible
    simp only [List.cons_append, List.length_cons, List.length_append, List.length_nil] at short
    refine keyword_accepts (by simp [leftKind]) ?_
    rw [leftKind]
    exact (block_accepts declares isInside rightKind legible.1 (by omega)).map

theorem branch_accepts {header words : List Token}
    (accepts : ∃ keyword behind, header ++ words = keyword :: behind ∧ keyword.kind = .ifWord ∧
      Accepts (ifStatement statement) behind follow Any) :
    Accepts (statementRule statement declaration) (header ++ words) follow Any := by
  rcases accepts with ⟨keyword, behind, same, kind, isAccepted⟩
  rw [same]
  refine keyword_accepts (by simp [kind]) ?_
  rw [kind]
  exact isAccepted

variable (states : States statement bound) (declares : Declares declaration bound)

include states declares

theorem balanced_accepts {words : List Token} (balanced : Balanced words) (legible : Legible words)
    (short : words.length ≤ bound + 1) :
    Accepts (statementRule statement declaration) words Any Any := by
  cases balanced with
  | plain isPlain => exact plain_accepts declares isPlain legible short
  | loop looped balanced =>
      have positive := looped_length looped
      rw [legible_append] at legible
      rw [List.length_append] at short
      exact looped_accepts looped legible.1 (states.balanced _ (by omega) legible.2 balanced)
  | @branches header branch others otherwise isHeader balanced kind balancedOther =>
      have positive := conditional_length isHeader
      simp only [legible_append, legible_word kind (by decide)] at legible
      simp only [List.length_append, List.length_cons] at short
      rw [List.append_assoc]
      apply branch_accepts
      exact if_else_accepts isHeader legible.1.1
        (states.balanced branch (by omega) legible.1.2 balanced) kind
        (states.balanced others (by omega) legible.2 balancedOther)

/-- If a branch is open, the statement behind `else` is read as its own. -/
theorem statement_rule_accepts {words : List Token} (derives : Derives (.rule .statement) words)
    (legible : Legible words) (short : words.length ≤ bound + 1) :
    Accepts (statementRule statement declaration) words (Stops [.elseWord]) Any := by
  rcases statement_parts derives with isPlain | isIf | ⟨header, body, rfl, looped, isBody⟩
  · exact (plain_accepts declares isPlain legible short).weaken (fun _ _ => trivial)
      (fun _ good => good)
  · obtain ⟨header, branch, isHeader, isBranch, rfl | ⟨otherwise, others, rfl, kind, isOthers⟩⟩ :=
      if_parts isIf
    · have positive := conditional_length isHeader
      rw [legible_append] at legible
      rw [List.length_append] at short
      apply branch_accepts
      exact if_then_accepts isHeader legible.1 (states.any branch (by omega) legible.2 isBranch)
    · have positive := conditional_length isHeader
      rw [List.append_assoc] at legible short ⊢
      rw [legible_append] at legible
      simp only [List.length_append, List.length_cons] at short
      apply branch_accepts
      rcases balanced_or_open isBranch with balanced | branchOpen
      · rw [legible_append, legible_word kind (by decide)] at legible
        exact if_else_accepts isHeader legible.1
          (states.balanced branch (by omega) legible.2.1 balanced) kind
          (states.any others (by omega) legible.2.2 isOthers)
      · have inner := branchOpen otherwise others kind isOthers
        refine if_then_accepts isHeader legible.1 (states.any _ ?_ legible.2 inner)
        simp only [List.length_append, List.length_cons]
        omega
  · have positive := looped_length looped
    rw [legible_append] at legible
    rw [List.length_append] at short
    exact looped_accepts looped legible.1 (states.any body (by omega) legible.2 isBody)

theorem declaration_rule_accepts {words : List Token} (derives : Derives (.rule .declaration) words)
    (legible : Legible words) (short : words.length ≤ bound + 1) :
    Accepts (declarationRule statement declaration) words (Stops [.elseWord]) Any := by
  rcases derives_declaration.1 derives with isClass | isFunction | isVar | isStatement
  · obtain ⟨keyword, behind, rfl, kind, isAccepted⟩ := class_accepts declares isClass legible short
    refine declaring_accepts (by simp [kind]) ?_
    rw [kind]
    exact isAccepted
  · obtain ⟨keyword, behind, rfl, kind, isBehind⟩ := token_then (derives_rule.1 isFunction)
    rw [List.length_cons] at short
    refine declaring_accepts (by simp [kind]) ?_
    rw [kind]
    exact (function_accepts declares .function isBehind (legible_cons.1 legible).2 (by omega)).map
  · obtain ⟨keyword, behind, rfl, kind, isAccepted⟩ := var_declaration_accepts isVar legible
    refine declaring_accepts (by simp [kind]) ?_
    rw [kind]
    exact isAccepted
  · have starts := statement_starts isStatement
    refine accepts_none (fun rest _ => follows_stops (by decide) (starts.append rest)) ?_
    exact statement_rule_accepts states declares isStatement legible short

end Rule

theorem recovering_accepts {rule : Parser Stmt} {words : List Token} {follow : List Token → Prop}
    (accepts : Accepts rule words follow Any) : Accepts (recovering rule) words follow Any := by
  intro start rest held allowed
  obtain ⟨stmt, next, run, -⟩ := accepts start rest held allowed
  refine ⟨some stmt, next, ?_, trivial⟩
  unfold recovering
  rw [run]

/-- Both recursions at once, by induction on the budget: a statement holds declarations in its
blocks, and a declaration may be a statement. -/
theorem within_accepts (budget : Nat) :
    States (statementWithin budget) budget ∧ Declares (declarationWithin budget) budget := by
  induction budget with
  | zero =>
      refine ⟨⟨?_, ?_⟩, ?_⟩
      · intro words short legible derives
        have present := (statement_starts derives).length_pos
        omega
      · intro words short legible balanced
        have present := (statement_starts (balanced_derives balanced)).length_pos
        omega
      · intro words short legible derives
        have present := (declaration_starts derives).length_pos
        omega
  | succ budget induction =>
      rcases induction with ⟨states, declares⟩
      refine ⟨⟨?_, ?_⟩, ?_⟩
      · intro words short legible derives start
        exact statement_rule_accepts states declares derives legible short start
      · intro words short legible balanced start
        exact balanced_accepts states declares balanced legible short start
      · intro words short legible derives start
        exact recovering_accepts (declaration_rule_accepts states declares derives legible short) start

theorem declaration_declares (bound : Nat) : Declares declaration bound := by
  intro words _ legible derives start rest held stops
  have enough : words.length ≤ start.rest.length := by
    rw [held, List.length_append]
    omega
  exact (within_accepts start.rest.length).2 words enough legible derives start rest held stops

theorem program_accepts {words : List Token} (derives : Derives (.many (.rule .declaration)) words)
    (legible : Legible words) : Accepts program words (· = []) Any := by
  obtain ⟨parts, rfl, each⟩ := derives_many.1 derives
  have few := parts_length_le fun part member => (declaration_starts (each part member)).length_pos
  refine accepts_remaining fun count enough => ?_
  refine (declarations_accept (declaration_declares _) ?_ ?_ each legible (Nat.le_refl _)
    (by omega)).weaken (fun _ => .inl) (fun _ good => good)
  · exact fun _ _ => List.not_mem_nil
  · exact List.not_mem_nil

end Quill.Grammar
