import Quill.Proofs.Grammar.Clause
import Quill.Proofs.Grammar.Ebnf

/-!
What has been read derives from the grammar. Readings group operators to the left where the
rules repeat, so a chain is taken apart into its first operand and the operators with the
operands behind them.
-/

namespace Quill.Grammar

set_option autoImplicit false

def Level.name : Level → Nonterminal
  | assignment => .assignment
  | disjunction => .logicOr
  | conjunction => .logicAnd
  | equality => .equality
  | comparison => .comparison
  | term => .term
  | factor => .factor
  | unary => .unary
  | call => .call
  | primary => .primary

def Level.operatorForm : Level → Ebnf
  | disjunction => .token .orOr
  | conjunction => .token .andAnd
  | equality => .token .bangEqual ||| .token .equalEqual
  | comparison => .token .greater ||| .token .greaterEqual ||| .token .less ||| .token .lessEqual
  | term => .token .minus ||| .token .plus
  | _ => .token .slash ||| .token .star

theorem chain_body {level : Level} (joins : level.operators ≠ []) :
    level.name.body =
      .rule level.operand.name ++ .many (level.operatorForm ++ .rule level.operand.name) := by
  cases level with
  | assignment | unary | call | primary => exact absurd rfl joins
  | _ => rfl

theorem derives_operator {level : Level} (joins : level.operators ≠ []) {words : List Token} :
    Derives level.operatorForm words ↔
      ∃ operator, words = [operator] ∧ operator.kind ∈ level.operators := by
  cases level with
  | assignment | unary | call | primary => exact absurd rfl joins
  | disjunction | conjunction => simp [Level.operatorForm, Level.operators, derives_token]
  | comparison =>
      simp only [Level.operatorForm, Level.operators, derives_either, derives_token, ← exists_or,
        ← and_or_left, List.mem_cons, List.not_mem_nil, or_false, or_assoc]
  | equality | term | factor =>
      simp [Level.operatorForm, Level.operators, derives_either, derives_token, ← exists_or,
        ← and_or_left, or_comm]

def Level.Link (level : Level) (part : List Token) : Prop :=
  ∃ operator words, part = operator :: words ∧ operator.kind ∈ level.operators ∧
    Derives (.rule level.operand.name) words

theorem derives_link {level : Level} (joins : level.operators ≠ []) {part : List Token} :
    Derives (level.operatorForm ++ .rule level.operand.name) part ↔ level.Link part := by
  rw [derives_sequence]
  constructor
  · intro shape
    rcases shape with ⟨left, words, rfl, isOperator, operand⟩
    obtain ⟨operator, rfl, kind⟩ := (derives_operator joins).1 isOperator
    exact ⟨operator, words, rfl, kind, operand⟩
  · intro shape
    rcases shape with ⟨operator, words, rfl, kind, operand⟩
    exact ⟨[operator], words, rfl, (derives_operator joins).2 ⟨operator, rfl, kind⟩, operand⟩

/-- A chain of operands: the first, and links. The rules of all levels with operators have this one
form. -/
theorem derives_chain {level : Level} (joins : level.operators ≠ []) {words : List Token} :
    Derives (.rule level.name) words ↔
      ∃ (first : List Token) (parts : List (List Token)), words = first ++ parts.flatten ∧
        Derives (.rule level.operand.name) first ∧ ∀ part ∈ parts, level.Link part := by
  rw [derives_rule, chain_body joins, derives_sequence]
  constructor
  · intro shape
    rcases shape with ⟨first, others, rfl, operand, many⟩
    obtain ⟨parts, rfl, each⟩ := derives_many.1 many
    exact ⟨first, parts, rfl, operand, fun part member => (derives_link joins).1 (each part member)⟩
  · intro shape
    rcases shape with ⟨first, parts, rfl, operand, each⟩
    refine ⟨first, parts.flatten, rfl, operand, derives_many.2 ⟨parts, rfl, ?_⟩⟩
    exact fun part member => (derives_link joins).2 (each part member)

def Suffix (part : List Token) : Prop :=
  (∃ left right words, part = left :: words ++ [right] ∧ left.kind = .leftParen ∧
    right.kind = .rightParen ∧ Derives (.optional (.rule .arguments)) words) ∨
  ∃ dot name, part = [dot, name] ∧ dot.kind = .dot ∧ name.kind = .identifier

theorem derives_suffix {part : List Token} :
    Derives (.token .leftParen ++ .optional (.rule .arguments) ++ .token .rightParen |||
      .token .dot ++ .token .identifier) part ↔ Suffix part := by
  rw [derives_either]
  constructor
  · intro shape
    rcases shape with isCall | isGet
    · obtain ⟨front, last, rfl, isFront, isLast⟩ := derives_sequence.1 isCall
      obtain ⟨open', words, rfl, isOpen, given⟩ := derives_sequence.1 isFront
      obtain ⟨left, rfl, leftKind⟩ := derives_token.1 isOpen
      obtain ⟨right, rfl, rightKind⟩ := derives_token.1 isLast
      exact .inl ⟨left, right, words, rfl, leftKind, rightKind, given⟩
    · obtain ⟨first, second, rfl, isDot, isName⟩ := derives_sequence.1 isGet
      obtain ⟨dot, rfl, dotKind⟩ := derives_token.1 isDot
      obtain ⟨name, rfl, nameKind⟩ := derives_token.1 isName
      exact .inr ⟨dot, name, rfl, dotKind, nameKind⟩
  · intro shape
    rcases shape with ⟨left, right, words, rfl, leftKind, rightKind, given⟩ |
      ⟨dot, name, rfl, dotKind, nameKind⟩
    · exact .inl (.sequence (.sequence (.token leftKind) given) (.token rightKind))
    · exact .inr (.sequence (.token dotKind) (.token nameKind))

/-- A call is a primary with what is applied to it. -/
theorem derives_call {words : List Token} :
    Derives (.rule .call) words ↔
      ∃ (head : List Token) (parts : List (List Token)), words = head ++ parts.flatten ∧
        Derives (.rule .primary) head ∧ ∀ part ∈ parts, Suffix part := by
  rw [derives_rule, Nonterminal.body, derives_sequence]
  constructor
  · intro shape
    rcases shape with ⟨head, others, rfl, primary, many⟩
    obtain ⟨parts, rfl, each⟩ := derives_many.1 many
    exact ⟨head, parts, rfl, primary, fun part member => derives_suffix.1 (each part member)⟩
  · intro shape
    rcases shape with ⟨head, parts, rfl, primary, each⟩
    refine ⟨head, parts.flatten, rfl, primary, derives_many.2 ⟨parts, rfl, ?_⟩⟩
    exact fun part member => derives_suffix.2 (each part member)

theorem derives_operand {level : Level} {words : List Token}
    (operand : Derives (.rule level.operand.name) words) : Derives (.rule level.name) words := by
  cases level with
  | assignment => exact .rule (.right operand)
  | unary => exact .rule (.right operand)
  | call => exact derives_call.2 ⟨words, [], by simp, operand, by simp⟩
  | primary => exact operand
  | _ => exact (derives_chain (by simp [Level.operators])).2 ⟨words, [], by simp, operand, by simp⟩

theorem derives_joined {level : Level} {left right : List Token} {operator : Token}
    (leftDerives : Derives (.rule level.name) left) (kind : operator.kind ∈ level.operators)
    (rightDerives : Derives (.rule level.operand.name) right) :
    Derives (.rule level.name) (left ++ operator :: right) := by
  have joins : level.operators ≠ [] := List.ne_nil_of_mem kind
  obtain ⟨first, parts, rfl, operand, each⟩ := (derives_chain joins).1 leftDerives
  refine (derives_chain joins).2 ⟨first, parts ++ [operator :: right], by simp, operand, ?_⟩
  intro part member
  rcases List.mem_append.1 member with before | last
  · exact each part before
  · exact ⟨operator, right, List.mem_singleton.1 last, kind, rightDerives⟩

theorem derives_suffixed {words part : List Token} (head : Derives (.rule .call) words)
    (suffix : Suffix part) : Derives (.rule .call) (words ++ part) := by
  obtain ⟨first, parts, rfl, primary, each⟩ := derives_call.1 head
  refine derives_call.2 ⟨first, parts ++ [part], by simp, primary, ?_⟩
  intro other member
  rcases List.mem_append.1 member with before | last
  · exact each other before
  · exact List.mem_singleton.1 last ▸ suffix

def Listed (item : Ebnf) (count : Nat) (words : List Token) : Prop :=
  ∃ (first : List Token) (parts : List (List Token)), words = first ++ parts.flatten ∧
    parts.length + 1 = count ∧ Derives item first ∧
      ∀ part ∈ parts, Derives (.token .comma ++ item) part

theorem listed_one {item : Ebnf} {words : List Token} (derives : Derives item words) :
    Listed item 1 words :=
  ⟨words, [], by simp, rfl, derives, by simp⟩

theorem listed_more {item : Ebnf} {count : Nat} {words others : List Token} {comma : Token}
    (derives : Derives item words) (kind : comma.kind = .comma) (listed : Listed item count others) :
    Listed item (count + 1) (words ++ comma :: others) := by
  rcases listed with ⟨first, parts, rfl, length, firstDerives, each⟩
  refine ⟨words, (comma :: first) :: parts, by simp, by simp [length], derives, ?_⟩
  intro part member
  rcases List.mem_cons.1 member with rfl | later
  · exact .sequence (.token kind) firstDerives
  · exact each part later

theorem derives_listed {item : Ebnf} {limit count : Nat} {words : List Token}
    (listed : Listed item count words) (short : count ≤ limit) :
    Derives (item ++ .upTo (limit - 1) (.token .comma ++ item)) words := by
  rcases listed with ⟨first, parts, rfl, length, firstDerives, each⟩
  refine .sequence firstDerives (derives_up_to.2 ⟨parts, rfl, ?_, each⟩)
  omega

def Phrase.Derivable (words : List Token) : Phrase → Prop
  | .expr level _ => Derives (.rule level.name) words
  | .arguments [] => words = []
  | .arguments (_ :: others) => Listed (.rule .expression) (others.length + 1) words

theorem literal_derives {token : Token} {value : Literal}
    (denotes : literalOf? token = some value) : Derives (.rule .primary) [token] := by
  have kinds : token.kind = .number ∨ token.kind = .string ∨ token.kind = .trueWord ∨
      token.kind = .falseWord ∨ token.kind = .nilWord := by
    unfold literalOf? at denotes
    split at denotes <;> simp_all
  apply Derives.rule
  simp only [Nonterminal.body, derives_either, derives_token]
  rcases kinds with kind | kind | kind | kind | kind <;> simp [kind]

/-- What is read as a phrase derives from the rule of the phrase. Each way to read one is a choice
among the alternatives of its rule. -/
theorem Reads.derivable {phrase : Phrase} {words : List Token} {first next : Nat}
    (reads : Reads phrase words first next) : phrase.Derivable words := by
  induction reads with
  | literal denotes => exact literal_derives denotes
  | variableRef kind => exact .rule (.left (.left (.right (.token kind))))
  | thisRef kind => exact .rule (.left (.left (.left (.right (.token kind)))))
  | baseRef keywordKind dotKind methodKind =>
      exact .rule (.left (.right (.sequence (.sequence (.token keywordKind) (.token dotKind))
        (.token methodKind))))
  | grouping leftKind body rightKind induction =>
      exact .rule (.right (.sequence (.sequence (.token leftKind) (.rule induction))
        (.token rightKind)))
  | @call left right words givenWords callee given _ _ _ head leftKind arguments limit rightKind
      headDerives givenDerives =>
      have givenForm : Derives (.optional (.rule .arguments)) givenWords := by
        cases given with
        | nil => exact derives_optional.2 (.inl givenDerives)
        | cons argument others =>
            exact .present (.rule (derives_listed givenDerives (by simpa using limit)))
      have suffixed := derives_suffixed headDerives
        (.inl ⟨left, right, givenWords, rfl, leftKind, rightKind, givenForm⟩)
      simpa [Phrase.Derivable, Level.name] using suffixed
  | get head dotKind nameKind headDerives =>
      exact derives_suffixed headDerives (.inr ⟨_, _, rfl, dotKind, nameKind⟩)
  | @unary operator _ _ _ _ kind body induction =>
      have sign : Derives (.token .bang ||| .token .minus) [operator] := by
        simp only [signs, List.mem_cons, List.not_mem_nil, or_false] at kind
        rcases kind with kind | kind
        · exact .left (.token kind)
        · exact .right (.token kind)
      exact .rule (.left (.sequence sign induction))
  | joined leftBody kind rightBody leftDerives rightDerives =>
      exact derives_joined leftDerives kind rightDerives
  | only body induction => exact derives_operand induction
  | assign nameKind equalsKind body induction =>
      exact .rule (.left (.sequence (.sequence (.sequence .absent (.token nameKind))
        (.token equalsKind)) induction))
  | set head dotKind nameKind equalsKind body headDerives valueDerives =>
      have target := Derives.present (.sequence headDerives (.token dotKind))
      have whole := Derives.sequence (.sequence (.sequence target (.token nameKind))
        (.token equalsKind)) valueDerives
      exact .rule (.left (by simpa [Level.name] using whole))
  | noArguments => rfl
  | lastArgument body induction => exact listed_one (.rule induction)
  | @moreArguments _ _ _ _ others _ _ _ body commaKind present rest bodyDerives restDerives =>
      cases others with
      | nil => exact absurd rfl present
      | cons argument others => exact listed_more (.rule bodyDerives) commaKind restDerives

theorem enumerates_listed {names words : List Token} (enumerates : Enumerates names words) :
    names ≠ [] → Listed (.token .identifier) names.length words := by
  induction enumerates with
  | nobody => simp
  | last kind => exact fun _ => listed_one (.token kind)
  | more kind commaKind present rest induction =>
      exact fun _ => listed_more (.token kind) commaKind (induction present)

theorem enumerates_derives {names words : List Token} (enumerates : Enumerates names words)
    (short : names.length ≤ listLimit) : Derives (.optional (.rule .parameters)) words := by
  by_cases absent : names = []
  · cases enumerates with
    | nobody => exact .absent
    | _ => cases absent
  · exact .present (.rule (derives_listed (enumerates_listed enumerates absent) short))

theorem derives_statement {words : List Token} :
    Derives (.rule .statement) words ↔ Derives (.rule .exprStmt) words ∨
      Derives (.rule .forStmt) words ∨ Derives (.rule .ifStmt) words ∨
        Derives (.rule .returnStmt) words ∨ Derives (.rule .whileStmt) words ∨
          Derives (.rule .block) words := by
  rw [derives_rule]
  simp only [Nonterminal.body, derives_either, or_assoc]

theorem derives_declaration {words : List Token} :
    Derives (.rule .declaration) words ↔ Derives (.rule .classDecl) words ∨
      Derives (.rule .funDecl) words ∨ Derives (.rule .varDecl) words ∨
        Derives (.rule .statement) words := by
  rw [derives_rule]
  simp only [Nonterminal.body, derives_either, or_assoc]

def Clause.Derivable (words : List Token) : Clause → Prop
  | .optional _ => Derives (.optional (.rule .expression)) words
  | .variable _ => ∀ keyword : Token, keyword.kind = .varWord →
      Derives (.rule .varDecl) (keyword :: words)
  | .initializer _ => Derives (.rule .varDecl ||| .rule .exprStmt ||| .token .semicolon) words
  | .statement _ => Derives (.rule .statement) words
  | .declaration _ => Derives (.rule .declaration) words
  | .function _ => Derives (.rule .function) words
  | .methods _ => Derives (.many (.rule .method)) words
  | .body _ => Derives (.many (.rule .declaration)) words

theorem expression_derives {expr : Expr} {words : List Token} {first next : Nat}
    (reads : Reads (.expr .assignment expr) words first next) :
    Derives (.rule .expression) words :=
  .rule reads.derivable

theorem expression_statement_derives {expr : Expr} {semicolon : Token} {words : List Token}
    {first next : Nat} (reads : Reads (.expr .assignment expr) words first next)
    (kind : semicolon.kind = .semicolon) : Derives (.rule .exprStmt) (words ++ [semicolon]) :=
  .rule (.sequence (expression_derives reads) (.token kind))

theorem header_derives {word : Kind} {keyword left right : Token} {condition : Expr}
    {words : List Token} {first next : Nat} (keywordKind : keyword.kind = word)
    (leftKind : left.kind = .leftParen)
    (reads : Reads (.expr .assignment condition) words first next)
    (rightKind : right.kind = .rightParen) :
    Derives (.token word ++ .token .leftParen ++ .rule .expression ++ .token .rightParen)
      (keyword :: left :: words ++ [right]) :=
  .sequence (.sequence (.sequence (.token keywordKind) (.token leftKind)) (expression_derives reads))
    (.token rightKind)

theorem class_derives {keyword name left right : Token} {baseWords words : List Token}
    (keywordKind : keyword.kind = .classWord) (nameKind : name.kind = .identifier)
    (base : Derives (.optional (.token .colon ++ .token .identifier)) baseWords)
    (leftKind : left.kind = .leftBrace) (inside : Derives (.many (.rule .method)) words)
    (rightKind : right.kind = .rightBrace) :
    Derives (.rule .declaration) (keyword :: name :: baseWords ++ left :: words ++ [right]) := by
  have header := Derives.sequence (.sequence (.token keywordKind) (.token nameKind)) base
  have whole := Derives.sequence (.sequence (.sequence header (.token leftKind)) inside)
    (.token rightKind)
  refine derives_declaration.2 (.inl (.rule ?_))
  simpa [Nonterminal.body] using whole

theorem method_derives {keywordWords words : List Token}
    (keyword : Derives (.optional (.token .functionWord)) keywordWords)
    (function : Derives (.rule .function) words) :
    Derives (.rule .method) (keywordWords ++ words) :=
  .rule (.sequence keyword function)

/-- A clause in which nothing was dropped derives from its rule. What was dropped derives from none,
so the faults have to be empty. -/
theorem Forms.derivable {clause : Clause} {words : List Token} {first next : Nat}
    {faults : List (Located Fault)} (forms : Forms clause words first next faults) :
    faults = [] → clause.Derivable words := by
  induction forms with
  | absent => exact fun _ => .absent
  | present reads => exact fun _ => .present (expression_derives reads)
  | bareVariable nameKind semicolonKind =>
      intro _ keyword keywordKind
      exact .rule (.sequence (.sequence (.sequence (.token keywordKind) (.token nameKind)) .absent)
        (.token semicolonKind))
  | variableDecl nameKind equalsKind reads semicolonKind =>
      intro _ keyword keywordKind
      have value := Derives.present (.sequence (.token equalsKind) (expression_derives reads))
      exact .rule (.sequence (.sequence (.sequence (.token keywordKind) (.token nameKind)) value)
        (.token semicolonKind))
  | noInitializer kind => exact fun _ => .right (.token kind)
  | varInitializer kind body induction => exact fun _ => .left (.left (induction rfl _ kind))
  | exprInitializer reads kind =>
      exact fun _ => .left (.right (expression_statement_derives reads kind))
  | expression reads kind =>
      exact fun _ => derives_statement.2 (.inl (expression_statement_derives reads kind))
  | forLoop keywordKind leftKind starts tests semicolonKind steps rightKind repeats built numbered
      starting testing stepping repeating =>
      intro clean
      have opening := Derives.sequence (.sequence (.token keywordKind) (.token leftKind)) (starting rfl)
      have tested := Derives.sequence (.sequence opening (testing rfl)) (.token semicolonKind)
      have stepped := Derives.sequence (.sequence tested (stepping rfl)) (.token rightKind)
      have whole := Derives.sequence stepped (repeating clean)
      refine derives_statement.2 (.inr (.inl (.rule ?_)))
      simpa [Nonterminal.body] using whole
  | ifThen keywordKind leftKind reads rightKind thenForms induction =>
      intro clean
      have taken := Derives.sequence (header_derives keywordKind leftKind reads rightKind)
        (induction clean)
      refine derives_statement.2 (.inr (.inr (.inl (.rule ?_))))
      simpa [Nonterminal.body] using Derives.sequence taken .absent
  | ifElse keywordKind leftKind reads rightKind thenForms otherwiseKind elseForms taking otherwise =>
      intro clean
      obtain ⟨thenClean, elseClean⟩ := List.append_eq_nil_iff.1 clean
      have taken := Derives.sequence (header_derives keywordKind leftKind reads rightKind)
        (taking thenClean)
      have other := Derives.present (.sequence (.token otherwiseKind) (otherwise elseClean))
      refine derives_statement.2 (.inr (.inr (.inl (.rule ?_))))
      simpa [Nonterminal.body] using Derives.sequence taken other
  | whileLoop keywordKind leftKind reads rightKind repeats induction =>
      intro clean
      have whole := Derives.sequence (header_derives keywordKind leftKind reads rightKind)
        (induction clean)
      refine derives_statement.2 (.inr (.inr (.inr (.inr (.inl (.rule ?_))))))
      simpa [Nonterminal.body] using whole
  | returnStmt keywordKind gives semicolonKind induction =>
      intro clean
      have whole := Derives.sequence (.sequence (.token keywordKind) (induction rfl))
        (.token semicolonKind)
      exact derives_statement.2 (.inr (.inr (.inr (.inl (.rule whole)))))
  | block leftKind inside rightKind induction =>
      intro clean
      have whole := Derives.sequence (.sequence (.token leftKind) (induction clean))
        (.token rightKind)
      exact derives_statement.2 (.inr (.inr (.inr (.inr (.inr (.rule whole))))))
  | ofStatement forms induction =>
      intro clean
      exact derives_declaration.2 (.inr (.inr (.inr (induction clean))))
  | varDeclaration kind forms induction =>
      exact fun _ => derives_declaration.2 (.inr (.inr (.inl (induction rfl _ kind))))
  | functionDeclaration kind forms induction =>
      intro clean
      have whole := Derives.sequence (.token kind) (induction clean)
      exact derives_declaration.2 (.inr (.inl (.rule whole)))
  | plainClass keywordKind nameKind leftKind inside rightKind induction =>
      intro clean
      exact class_derives keywordKind nameKind .absent leftKind (induction clean) rightKind
  | derivedClass keywordKind nameKind colonKind baseKind leftKind inside rightKind induction =>
      intro clean
      have base := Derives.present (.sequence (.token colonKind) (.token baseKind))
      exact class_derives keywordKind nameKind base leftKind (induction clean) rightKind
  | function nameKind leftKind listed limit rightKind openKind inside closeKind induction =>
      intro clean
      have body : Derives (.rule .block) _ :=
        .rule (.sequence (.sequence (.token openKind) (induction clean)) (.token closeKind))
      have names := enumerates_derives listed limit
      have header := Derives.sequence (.sequence (.sequence (.token nameKind) (.token leftKind)) names)
        (.token rightKind)
      have whole := Derives.sequence header body
      apply Derives.rule
      simpa [Nonterminal.body] using whole
  | noMethods => exact fun _ => .done
  | method forms others first rest =>
      intro clean
      obtain ⟨firstClean, restClean⟩ := List.append_eq_nil_iff.1 clean
      exact .more (method_derives .absent (first firstClean)) (rest restClean)
  | keywordMethod kind forms others first rest =>
      intro clean
      obtain ⟨firstClean, restClean⟩ := List.append_eq_nil_iff.1 clean
      have keyword := Derives.present (.token kind)
      exact .more (method_derives keyword (first firstClean)) (rest restClean)
  | emptyBody => exact fun _ => .done
  | declared forms others first rest =>
      intro clean
      obtain ⟨firstClean, restClean⟩ := List.append_eq_nil_iff.1 clean
      exact .more (first firstClean) (rest restClean)
  | dropped numbered faulty others induction =>
      intro clean
      exact absurd (List.append_eq_nil_iff.1 clean).1 faulty

/-- All numerals among the tokens stand for numbers. The grammar says nothing about their lexemes,
so this is asked for beside it. -/
def Legible (words : List Token) : Prop :=
  ∀ word ∈ words, word.kind = .number → (Number.read? word.lexeme).isSome

@[simp] theorem legible_nil : Legible [] := by
  simp [Legible]

theorem legible_cons {word : Token} {words : List Token} :
    Legible (word :: words) ↔
      (word.kind = .number → (Number.read? word.lexeme).isSome) ∧ Legible words := by
  simp [Legible]

@[simp] theorem legible_append {words others : List Token} :
    Legible (words ++ others) ↔ Legible words ∧ Legible others := by
  simp [Legible, or_imp, forall_and]

@[simp] theorem legible_word {word : Token} {kind : Kind} {words : List Token}
    (same : word.kind = kind) (other : kind ≠ .number) :
    Legible (word :: words) ↔ Legible words := by
  rw [legible_cons]
  constructor
  · exact And.right
  · intro legible
    exact ⟨fun isNumber => absurd (same.symm.trans isNumber) other, legible⟩

theorem operator_not_number {level : Level} {kind : Kind} (member : kind ∈ level.operators) :
    kind ≠ .number := by
  intro same
  subst same
  cases level <;> simp [Level.operators] at member

theorem Reads.legible {phrase : Phrase} {words : List Token} {first next : Nat}
    (reads : Reads phrase words first next) : Legible words := by
  induction reads with
  | @literal token value _ denotes =>
      rw [legible_cons]
      refine ⟨fun isNumber => ?_, legible_nil⟩
      simp only [literalOf?, isNumber, Option.map_eq_some_iff] at denotes
      rcases denotes with ⟨bits, found, -⟩
      rw [found]
      rfl
  | unary kind body induction =>
      have other : ¬ Kind.number ∈ signs := by decide
      rw [legible_cons]
      exact ⟨fun isNumber => absurd (isNumber ▸ kind) other, induction⟩
  | joined leftBody kind rightBody leftLegible rightLegible =>
      rw [legible_append, legible_cons]
      exact ⟨leftLegible, fun isNumber => absurd isNumber (operator_not_number kind), rightLegible⟩
  | _ => simp_all

theorem enumerates_legible {names words : List Token} (enumerates : Enumerates names words) :
    Legible words := by
  induction enumerates with
  | nobody => exact legible_nil
  | last kind => simp [kind]
  | more kind commaKind present rest induction => simp [kind, commaKind, induction]

theorem Forms.legible {clause : Clause} {words : List Token} {first next : Nat}
    {faults : List (Located Fault)} (forms : Forms clause words first next faults) :
    faults = [] → Legible words := by
  induction forms with
  | absent | noMethods | emptyBody => exact fun _ => legible_nil
  | present reads => exact fun _ => reads.legible
  | dropped numbered faulty others induction =>
      intro clean
      exact absurd (List.append_eq_nil_iff.1 clean).1 faulty
  | variableDecl nameKind equalsKind reads semicolonKind =>
      simp_all [reads.legible]
  | exprInitializer reads kind | expression reads kind =>
      simp_all [reads.legible]
  | ifThen _ _ reads | ifElse _ _ reads | whileLoop _ _ reads =>
      simp_all [reads.legible]
  | function _ _ listed => simp_all [enumerates_legible listed]
  | _ => simp_all

end Quill.Grammar
