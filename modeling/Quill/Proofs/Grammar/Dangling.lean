import Quill.Proofs.Grammar.Derivation

/-!
Statements of the grammar taken apart. Reading gives an `else` to the nearest `if` that has
none, whatever derivation there was. A statement to which no further `else` could belong is
balanced; any other one is open, and can be continued with `else` and a statement.
-/

namespace Quill.Grammar

set_option autoImplicit false

section Parts

variable {words : List Token}

theorem then_token {form : Ebnf} {kind : Kind} (derives : Derives (form ++ .token kind) words) :
    ∃ before word, words = before ++ [word] ∧ Derives form before ∧ word.kind = kind := by
  obtain ⟨before, last, rfl, isBefore, isLast⟩ := derives_sequence.1 derives
  obtain ⟨word, rfl, same⟩ := derives_token.1 isLast
  exact ⟨before, word, rfl, isBefore, same⟩

theorem token_then {form : Ebnf} {kind : Kind} (derives : Derives (.token kind ++ form) words) :
    ∃ word behind, words = word :: behind ∧ word.kind = kind ∧ Derives form behind := by
  obtain ⟨first, behind, rfl, isFirst, isBehind⟩ := derives_sequence.1 derives
  obtain ⟨word, rfl, same⟩ := derives_token.1 isFirst
  exact ⟨word, behind, rfl, same, isBehind⟩

def conditional (word : Kind) : Ebnf :=
  .token word ++ .token .leftParen ++ .rule .expression ++ .token .rightParen

theorem conditional_parts {word : Kind} (derives : Derives (conditional word) words) :
    ∃ keyword left condition right, words = keyword :: left :: condition ++ [right] ∧
      keyword.kind = word ∧ left.kind = .leftParen ∧ Derives (.rule .expression) condition ∧
        right.kind = .rightParen := by
  obtain ⟨front, right, rfl, isFront, rightKind⟩ := then_token derives
  obtain ⟨opening, condition, rfl, isOpening, isCondition⟩ := derives_sequence.1 isFront
  obtain ⟨first, left, rfl, isFirst, leftKind⟩ := then_token isOpening
  obtain ⟨keyword, rfl, keywordKind⟩ := derives_token.1 isFirst
  exact ⟨keyword, left, condition, right, rfl, keywordKind, leftKind, isCondition, rightKind⟩

def forClauses : Ebnf :=
  .token .forWord ++ .token .leftParen ++ (.rule .varDecl ||| .rule .exprStmt ||| .token .semicolon) ++
    .optional (.rule .expression) ++ .token .semicolon ++ .optional (.rule .expression) ++
      .token .rightParen

theorem for_clauses_parts (derives : Derives forClauses words) :
    ∃ keyword left starting testing semicolon stepping right,
      words = keyword :: left :: starting ++ testing ++ semicolon :: stepping ++ [right] ∧
        keyword.kind = .forWord ∧ left.kind = .leftParen ∧
          Derives (.rule .varDecl ||| .rule .exprStmt ||| .token .semicolon) starting ∧
            Derives (.optional (.rule .expression)) testing ∧ semicolon.kind = .semicolon ∧
              Derives (.optional (.rule .expression)) stepping ∧ right.kind = .rightParen := by
  obtain ⟨front, right, rfl, isFront, rightKind⟩ := then_token derives
  obtain ⟨tested, stepping, rfl, isTested, isStepping⟩ := derives_sequence.1 isFront
  obtain ⟨untested, semicolon, rfl, isUntested, semicolonKind⟩ := then_token isTested
  obtain ⟨started, testing, rfl, isStarted, isTesting⟩ := derives_sequence.1 isUntested
  obtain ⟨opening, starting, rfl, isOpening, isStarting⟩ := derives_sequence.1 isStarted
  obtain ⟨first, left, rfl, isFirst, leftKind⟩ := then_token isOpening
  obtain ⟨keyword, rfl, keywordKind⟩ := derives_token.1 isFirst
  exact ⟨keyword, left, starting, testing, semicolon, stepping, right, by simp, keywordKind, leftKind,
    isStarting, isTesting, semicolonKind, isStepping, rightKind⟩

theorem if_parts (derives : Derives (.rule .ifStmt) words) :
    ∃ header branch, Derives (conditional .ifWord) header ∧ Derives (.rule .statement) branch ∧
      (words = header ++ branch ∨ ∃ otherwise others, words = header ++ branch ++ otherwise :: others ∧
        otherwise.kind = .elseWord ∧ Derives (.rule .statement) others) := by
  obtain ⟨front, last, rfl, isFront, isLast⟩ := derives_sequence.1 (derives_rule.1 derives)
  obtain ⟨header, branch, rfl, isHeader, isBranch⟩ := derives_sequence.1 isFront
  refine ⟨header, branch, isHeader, isBranch, ?_⟩
  rcases derives_optional.1 isLast with rfl | present
  · exact .inl (by simp)
  · obtain ⟨otherwise, others, rfl, kind, isOthers⟩ := token_then present
    exact .inr ⟨otherwise, others, rfl, kind, isOthers⟩

def Looped (header : List Token) : Prop :=
  Derives (conditional .whileWord) header ∨ Derives forClauses header

def Plain (words : List Token) : Prop :=
  Derives (.rule .exprStmt) words ∨ Derives (.rule .returnStmt) words ∨
    Derives (.rule .block) words

theorem statement_parts (derives : Derives (.rule .statement) words) :
    Plain words ∨ Derives (.rule .ifStmt) words ∨
      ∃ header body, words = header ++ body ∧ Looped header ∧ Derives (.rule .statement) body := by
  rcases derives_statement.1 derives with isExpr | isFor | isIf | isReturn | isWhile | isBlock
  · exact .inl (.inl isExpr)
  · obtain ⟨header, body, rfl, isHeader, isBody⟩ := derives_sequence.1 (derives_rule.1 isFor)
    exact .inr (.inr ⟨header, body, rfl, .inr isHeader, isBody⟩)
  · exact .inr (.inl isIf)
  · exact .inl (.inr (.inl isReturn))
  · obtain ⟨header, body, rfl, isHeader, isBody⟩ := derives_sequence.1 (derives_rule.1 isWhile)
    exact .inr (.inr ⟨header, body, rfl, .inl isHeader, isBody⟩)
  · exact .inl (.inr (.inr isBlock))

theorem looped_derives {header body : List Token} (looped : Looped header)
    (derives : Derives (.rule .statement) body) : Derives (.rule .statement) (header ++ body) := by
  rcases looped with isWhile | isFor
  · exact derives_statement.2 (.inr (.inr (.inr (.inr (.inl (.rule (.sequence isWhile derives)))))))
  · exact derives_statement.2 (.inr (.inl (.rule (.sequence isFor derives))))

theorem else_derives {header branch others : List Token} {otherwise : Token}
    (isHeader : Derives (conditional .ifWord) header)
    (isBranch : Derives (.rule .statement) branch) (kind : otherwise.kind = .elseWord)
    (isOther : Derives (.rule .statement) others) :
    Derives (.rule .statement) (header ++ branch ++ otherwise :: others) := by
  have other := Derives.present (.sequence (.token kind) isOther)
  have whole : Derives (.rule .ifStmt) _ := .rule (.sequence (.sequence isHeader isBranch) other)
  exact derives_statement.2 (.inr (.inr (.inl whole)))

end Parts

/-- Statements in which every `if` at the end has its `else`. Only these may stand before an `else`
that belongs to a branch around them. -/
inductive Balanced : List Token → Prop where
  | plain {words : List Token} (isPlain : Plain words) : Balanced words
  | loop {header body : List Token} (looped : Looped header) (balanced : Balanced body) :
      Balanced (header ++ body)
  | branches {header branch others : List Token} {otherwise : Token}
      (isHeader : Derives (conditional .ifWord) header) (balanced : Balanced branch)
      (kind : otherwise.kind = .elseWord) (balancedOther : Balanced others) :
      Balanced (header ++ branch ++ otherwise :: others)

def Open (words : List Token) : Prop :=
  ∀ (otherwise : Token) (others : List Token), otherwise.kind = .elseWord →
    Derives (.rule .statement) others →
      Derives (.rule .statement) (words ++ otherwise :: others)

theorem balanced_derives {words : List Token} (balanced : Balanced words) :
    Derives (.rule .statement) words := by
  induction balanced with
  | plain isPlain =>
      rcases isPlain with isExpr | isReturn | isBlock
      · exact derives_statement.2 (.inl isExpr)
      · exact derives_statement.2 (.inr (.inr (.inr (.inl isReturn))))
      · exact derives_statement.2 (.inr (.inr (.inr (.inr (.inr isBlock)))))
  | loop looped _ induction => exact looped_derives looped induction
  | branches isHeader _ kind _ branchDerives otherDerives =>
      exact else_derives isHeader branchDerives kind otherDerives

theorem conditional_length {word : Kind} {header : List Token}
    (derives : Derives (conditional word) header) : 0 < header.length := by
  obtain ⟨keyword, left, condition, right, rfl, -⟩ := conditional_parts derives
  exact Nat.succ_pos _

theorem looped_length {header : List Token} (looped : Looped header) : 0 < header.length := by
  rcases looped with isWhile | isFor
  · exact conditional_length isWhile
  · obtain ⟨keyword, left, starting, testing, semicolon, stepping, right, rfl, -⟩ :=
      for_clauses_parts isFor
    exact Nat.succ_pos _

/-- Every statement is balanced or open. An `else` behind an open branch could as well have
been given to that branch. -/
theorem balanced_or_open {words : List Token} (derives : Derives (.rule .statement) words) :
    Balanced words ∨ Open words := by
  induction size : words.length using Nat.strongRecOn generalizing words with
  | _ count induction =>
      subst size
      rcases statement_parts derives with isPlain | isIf | ⟨header, body, rfl, looped, isBody⟩
      · exact .inl (.plain isPlain)
      · obtain ⟨header, branch, isHeader, isBranch, rfl | ⟨otherwise, others, rfl, kind, isOthers⟩⟩ :=
          if_parts isIf
        · right
          intro otherwise others kind isOthers
          exact else_derives isHeader isBranch kind isOthers
        · have positive := conditional_length isHeader
          simp only [List.length_append, List.length_cons] at induction
          rcases induction branch.length (by omega) isBranch rfl with balanced | branchOpen
          · rcases induction others.length (by omega) isOthers rfl with balancedOther | otherOpen
            · exact .inl (.branches isHeader balanced kind balancedOther)
            · right
              intro later more laterKind isMore
              have longer := otherOpen later more laterKind isMore
              simpa using else_derives isHeader isBranch kind longer
          · right
            intro later more laterKind isMore
            have inner := branchOpen otherwise others kind isOthers
            simpa using else_derives isHeader inner laterKind isMore
      · have positive := looped_length looped
        simp only [List.length_append] at induction
        rcases induction body.length (by omega) isBody rfl with balanced | bodyOpen
        · exact .inl (.loop looped balanced)
        · right
          intro otherwise others kind isOthers
          rw [List.append_assoc]
          exact looped_derives looped (bodyOpen otherwise others kind isOthers)

end Quill.Grammar
