import Quill.Proofs.Grammar.Phrase

/-!
The grammar of the language, written as rules, and which tokens derive from a rule. The
rules say nothing about how tokens are read: an operator chain is a repetition, a dangling
`else` may belong to any open `if`, and the target of an assignment is spelled out.
-/

namespace Quill.Grammar

set_option autoImplicit false

inductive Nonterminal where
  | program
  | declaration
  | classDecl
  | method
  | funDecl
  | function
  | parameters
  | varDecl
  | statement
  | exprStmt
  | forStmt
  | ifStmt
  | returnStmt
  | whileStmt
  | block
  | expression
  | assignment
  | logicOr
  | logicAnd
  | equality
  | comparison
  | term
  | factor
  | unary
  | call
  | arguments
  | primary
deriving DecidableEq, Repr

inductive Ebnf where
  | token (kind : Kind)
  | rule (name : Nonterminal)
  | sequence (first second : Ebnf)
  | either (first second : Ebnf)
  | optional (body : Ebnf)
  | many (body : Ebnf)
  | upTo (limit : Nat) (body : Ebnf)
deriving DecidableEq, Repr

namespace Ebnf

instance : Append Ebnf := ⟨sequence⟩

instance : OrOp Ebnf := ⟨either⟩

end Ebnf

open Ebnf in
/-- The rules. A list of parameters or arguments has one item and at most `listLimit - 1`
more. -/
def Nonterminal.body : Nonterminal → Ebnf
  | program => many (rule declaration) ++ token .endOfInput
  | declaration => rule classDecl ||| rule funDecl ||| rule varDecl ||| rule statement
  | classDecl =>
      token .classWord ++ token .identifier ++ optional (token .colon ++ token .identifier) ++
        token .leftBrace ++ many (rule method) ++ token .rightBrace
  | method => optional (token .functionWord) ++ rule function
  | funDecl => token .functionWord ++ rule function
  | function =>
      token .identifier ++ token .leftParen ++ optional (rule parameters) ++ token .rightParen ++
        rule block
  | parameters =>
      token .identifier ++ upTo (listLimit - 1) (token .comma ++ token .identifier)
  | varDecl =>
      token .varWord ++ token .identifier ++ optional (token .equal ++ rule expression) ++
        token .semicolon
  | statement =>
      rule exprStmt ||| rule forStmt ||| rule ifStmt ||| rule returnStmt ||| rule whileStmt |||
        rule block
  | exprStmt => rule expression ++ token .semicolon
  | forStmt =>
      token .forWord ++ token .leftParen ++ (rule varDecl ||| rule exprStmt ||| token .semicolon) ++
        optional (rule expression) ++ token .semicolon ++ optional (rule expression) ++
          token .rightParen ++ rule statement
  | ifStmt =>
      token .ifWord ++ token .leftParen ++ rule expression ++ token .rightParen ++ rule statement ++
        optional (token .elseWord ++ rule statement)
  | returnStmt => token .returnWord ++ optional (rule expression) ++ token .semicolon
  | whileStmt =>
      token .whileWord ++ token .leftParen ++ rule expression ++ token .rightParen ++ rule statement
  | block => token .leftBrace ++ many (rule declaration) ++ token .rightBrace
  | expression => rule assignment
  | assignment =>
      optional (rule call ++ token .dot) ++ token .identifier ++ token .equal ++ rule assignment |||
        rule logicOr
  | logicOr => rule logicAnd ++ many (token .orOr ++ rule logicAnd)
  | logicAnd => rule equality ++ many (token .andAnd ++ rule equality)
  | equality => rule comparison ++ many ((token .bangEqual ||| token .equalEqual) ++ rule comparison)
  | comparison =>
      rule term ++ many ((token .greater ||| token .greaterEqual ||| token .less |||
        token .lessEqual) ++ rule term)
  | term => rule factor ++ many ((token .minus ||| token .plus) ++ rule factor)
  | factor => rule unary ++ many ((token .slash ||| token .star) ++ rule unary)
  | unary => (token .bang ||| token .minus) ++ rule unary ||| rule call
  | call =>
      rule primary ++ many (token .leftParen ++ optional (rule arguments) ++ token .rightParen |||
        token .dot ++ token .identifier)
  | arguments => rule expression ++ upTo (listLimit - 1) (token .comma ++ rule expression)
  | primary =>
      token .number ||| token .string ||| token .trueWord ||| token .falseWord ||| token .nilWord |||
        token .thisWord ||| token .identifier ||| token .baseWord ++ token .dot ++ token .identifier |||
          token .leftParen ++ rule expression ++ token .rightParen

/-- `Derives form words`: the tokens `words` derive from the right side `form`. Only kinds are
looked at, and a sequence may be split anywhere. -/
inductive Derives : Ebnf → List Token → Prop where
  | token {kind : Kind} {word : Token} (same : word.kind = kind) : Derives (.token kind) [word]
  | rule {name : Nonterminal} {words : List Token} (body : Derives name.body words) :
      Derives (.rule name) words
  | sequence {first second : Ebnf} {words others : List Token} (left : Derives first words)
      (right : Derives second others) : Derives (first ++ second) (words ++ others)
  | left {first second : Ebnf} {words : List Token} (body : Derives first words) :
      Derives (first ||| second) words
  | right {first second : Ebnf} {words : List Token} (body : Derives second words) :
      Derives (first ||| second) words
  | absent {body : Ebnf} : Derives (.optional body) []
  | present {form : Ebnf} {words : List Token} (body : Derives form words) :
      Derives (.optional form) words
  | done {form : Ebnf} : Derives (.many form) []
  | more {form : Ebnf} {words others : List Token} (body : Derives form words)
      (rest : Derives (.many form) others) : Derives (.many form) (words ++ others)
  | enough {form : Ebnf} {limit : Nat} : Derives (.upTo limit form) []
  | another {form : Ebnf} {limit : Nat} {words others : List Token} (body : Derives form words)
      (rest : Derives (.upTo limit form) others) :
      Derives (.upTo (limit + 1) form) (words ++ others)

section Inversion

variable {words : List Token}

theorem derives_token {kind : Kind} :
    Derives (.token kind) words ↔ ∃ word, words = [word] ∧ word.kind = kind := by
  constructor
  · intro derives
    cases derives with
    | token same => exact ⟨_, rfl, same⟩
  · intro shape
    rcases shape with ⟨word, rfl, same⟩
    exact .token same

theorem derives_rule {name : Nonterminal} :
    Derives (.rule name) words ↔ Derives name.body words := by
  constructor
  · intro derives
    cases derives with
    | rule body => exact body
  · exact .rule

theorem derives_sequence {first second : Ebnf} :
    Derives (first ++ second) words ↔
      ∃ left right, words = left ++ right ∧ Derives first left ∧ Derives second right := by
  constructor
  · intro derives
    cases derives with
    | sequence left right => exact ⟨_, _, rfl, left, right⟩
  · intro shape
    rcases shape with ⟨left, right, rfl, leftDerives, rightDerives⟩
    exact .sequence leftDerives rightDerives

theorem derives_either {first second : Ebnf} :
    Derives (first ||| second) words ↔ Derives first words ∨ Derives second words := by
  constructor
  · intro derives
    cases derives with
    | left body => exact .inl body
    | right body => exact .inr body
  · intro shape
    rcases shape with body | body
    · exact .left body
    · exact .right body

theorem derives_optional {body : Ebnf} :
    Derives (.optional body) words ↔ words = [] ∨ Derives body words := by
  constructor
  · intro derives
    cases derives with
    | absent => exact .inl rfl
    | present body => exact .inr body
  · intro shape
    rcases shape with rfl | body
    · exact .absent
    · exact .present body

theorem derives_many {body : Ebnf} :
    Derives (.many body) words ↔
      ∃ parts : List (List Token), words = parts.flatten ∧ ∀ part ∈ parts, Derives body part := by
  constructor
  · intro derives
    generalize same : Ebnf.many body = form at derives
    induction derives with
    | done => exact ⟨[], rfl, by simp⟩
    | @more _ part _ derived _ _ induction =>
        cases same
        obtain ⟨parts, rfl, each⟩ := induction rfl
        exact ⟨part :: parts, rfl, by simpa using ⟨derived, each⟩⟩
    | _ => cases same
  · intro shape
    rcases shape with ⟨parts, rfl, each⟩
    induction parts with
    | nil => exact .done
    | cons part parts induction =>
        simp only [List.mem_cons, forall_eq_or_imp] at each
        exact .more each.1 (induction each.2)

theorem derives_up_to {body : Ebnf} {limit : Nat} :
    Derives (.upTo limit body) words ↔
      ∃ parts : List (List Token), words = parts.flatten ∧ parts.length ≤ limit ∧
        ∀ part ∈ parts, Derives body part := by
  constructor
  · intro derives
    generalize same : Ebnf.upTo limit body = form at derives
    induction derives generalizing limit with
    | enough => exact ⟨[], rfl, by simp, by simp⟩
    | @another _ _ part _ derived _ _ induction =>
        cases same
        obtain ⟨parts, rfl, short, each⟩ := induction rfl
        exact ⟨part :: parts, rfl, by simpa using short, by simpa using ⟨derived, each⟩⟩
    | _ => cases same
  · intro shape
    rcases shape with ⟨parts, rfl, short, each⟩
    induction parts generalizing limit with
    | nil => exact .enough
    | cons part parts induction =>
        simp only [List.mem_cons, forall_eq_or_imp] at each
        cases limit with
        | zero => simp at short
        | succ limit => exact .another each.1 (induction (by simpa using short) each.2)

end Inversion

end Quill.Grammar
