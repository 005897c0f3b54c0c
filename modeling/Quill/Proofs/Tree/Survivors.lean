import Quill.Proofs.Tree.Formed

/-!
What survives parsing. Input may be any list of tokens, with faults anywhere: the statements
that are kept are well formed at every depth, and no token in them is made up.
-/

namespace Quill

set_option autoImplicit false

def Expr.ownTokens : Expr → List Token
  | .literal _ _ | .grouping _ _ => []
  | .unary _ operator _ | .binary _ _ operator _ | .logical _ _ operator _ => [operator]
  | .variableRef _ name | .assign _ name _ | .get _ _ name | .set _ _ name _ => [name]
  | .thisRef _ keyword => [keyword]
  | .baseRef _ keyword method => [keyword, method]
  | .call _ _ paren _ => [paren]

def Expr.tokens (expr : Expr) : List Token := expr.subterms.flatMap Expr.ownTokens

def optionTokens : Option Expr → List Token
  | some expr => expr.tokens
  | none => []

mutual

def Stmt.tokens : Stmt → List Token
  | .expression expr => expr.tokens
  | .varDecl name initializer => name :: optionTokens initializer
  | .functionDecl decl => decl.tokens
  | .classDecl name base methods => name :: (optionTokens base ++ methodTokens methods)
  | .block body => bodyTokens body
  | .ifThen condition thenBranch => condition.tokens ++ thenBranch.tokens
  | .ifElse condition thenBranch elseBranch =>
      condition.tokens ++ thenBranch.tokens ++ elseBranch.tokens
  | .whileLoop condition body => condition.tokens ++ body.tokens
  | .returnStmt keyword value => keyword :: optionTokens value

def FunctionDecl.tokens : FunctionDecl → List Token
  | ⟨name, parameters, body⟩ => name :: (parameters ++ bodyTokens body)

def methodTokens : List FunctionDecl → List Token
  | [] => []
  | decl :: rest => decl.tokens ++ methodTokens rest

def bodyTokens : List Stmt → List Token
  | [] => []
  | stmt :: rest => stmt.tokens ++ bodyTokens rest

end

section Held

open Node (AllWellFormed ExprWellFormed all_well_formed_cons all_well_formed_append
  all_well_formed_declarations)

variable {Allowed : Token → Prop}

theorem own_tokens_allowed {expr : Expr} (formed : ExprWellFormed Allowed expr) :
    ∀ token ∈ expr.ownTokens, Allowed token := by
  cases expr with
  | literal | grouping => simp [Expr.ownTokens]
  | call => simpa [Expr.ownTokens] using formed.1
  | baseRef => simpa [Expr.ownTokens] using ⟨formed.1.2, formed.2.2⟩
  | _ => simpa [Expr.ownTokens] using formed.2

theorem expr_tokens_allowed {expr : Expr} (formed : AllWellFormed Allowed expr.nodes) :
    ∀ token ∈ expr.tokens, Allowed token := by
  intro token member
  obtain ⟨part, inside, own⟩ := List.mem_flatMap.1 member
  exact own_tokens_allowed (formed _ (List.mem_map_of_mem inside)) token own

theorem option_tokens_allowed {value : Option Expr}
    (formed : AllWellFormed Allowed (optionNodes value)) :
    ∀ token ∈ optionTokens value, Allowed token := by
  cases value with
  | none => simp [optionTokens]
  | some expr => exact expr_tokens_allowed formed

mutual

/-- If the nodes of a statement have allowed tokens only, so has the statement, since all of its
tokens belong to nodes. -/
theorem stmt_tokens_allowed : (stmt : Stmt) → AllWellFormed Allowed stmt.nodes →
    ∀ token ∈ stmt.tokens, Allowed token
  | .expression expr, formed => by
      simp only [Stmt.nodes, all_well_formed_cons] at formed
      exact expr_tokens_allowed formed.2
  | .varDecl name initializer, formed => by
      simp only [Stmt.nodes, all_well_formed_cons] at formed
      exact List.forall_mem_cons.2 ⟨formed.2.1.2, option_tokens_allowed formed.2.2⟩
  | .functionDecl decl, formed => by
      simp only [Stmt.nodes, all_well_formed_cons] at formed
      exact routine_tokens_allowed decl formed.2.2
  | .classDecl name base methods, formed => by
      simp only [Stmt.nodes, all_well_formed_cons, all_well_formed_append] at formed
      obtain ⟨-, named, baseFormed, methodsFormed⟩ := formed
      exact List.forall_mem_cons.2 ⟨named.2, List.forall_mem_append.2
        ⟨option_tokens_allowed baseFormed, method_tokens_allowed methods methodsFormed⟩⟩
  | .block body, formed => by
      simp only [Stmt.nodes, all_well_formed_cons] at formed
      exact body_tokens_allowed body formed.2
  | .ifThen condition thenBranch, formed => by
      simp only [Stmt.nodes, all_well_formed_cons, all_well_formed_append] at formed
      obtain ⟨-, tested, taken⟩ := formed
      exact List.forall_mem_append.2
        ⟨expr_tokens_allowed tested, stmt_tokens_allowed thenBranch taken⟩
  | .ifElse condition thenBranch elseBranch, formed => by
      simp only [Stmt.nodes, all_well_formed_cons, all_well_formed_append] at formed
      obtain ⟨-, ⟨tested, taken⟩, otherwise⟩ := formed
      exact List.forall_mem_append.2 ⟨List.forall_mem_append.2
        ⟨expr_tokens_allowed tested, stmt_tokens_allowed thenBranch taken⟩,
          stmt_tokens_allowed elseBranch otherwise⟩
  | .whileLoop condition body, formed => by
      simp only [Stmt.nodes, all_well_formed_cons, all_well_formed_append] at formed
      obtain ⟨-, tested, repeated⟩ := formed
      exact List.forall_mem_append.2
        ⟨expr_tokens_allowed tested, stmt_tokens_allowed body repeated⟩
  | .returnStmt keyword value, formed => by
      simp only [Stmt.nodes, all_well_formed_cons] at formed
      exact List.forall_mem_cons.2 ⟨formed.1.2, option_tokens_allowed formed.2⟩

theorem routine_tokens_allowed : (decl : FunctionDecl) → AllWellFormed Allowed decl.nodes →
    ∀ token ∈ decl.tokens, Allowed token
  | ⟨name, parameters, body⟩, formed => by
      simp only [FunctionDecl.nodes, all_well_formed_cons, all_well_formed_append,
        all_well_formed_declarations] at formed
      obtain ⟨routine, named, inside⟩ := formed
      exact List.forall_mem_cons.2 ⟨routine.1.2, List.forall_mem_append.2
        ⟨fun token member => (named token member).2, body_tokens_allowed body inside⟩⟩

theorem method_tokens_allowed : (methods : List FunctionDecl) →
    AllWellFormed Allowed (methodNodes methods) → ∀ token ∈ methodTokens methods, Allowed token
  | [], _ => by simp [methodTokens]
  | decl :: rest, formed => by
      simp only [methodNodes, all_well_formed_append] at formed
      exact List.forall_mem_append.2
        ⟨routine_tokens_allowed decl formed.1, method_tokens_allowed rest formed.2⟩

theorem body_tokens_allowed : (body : List Stmt) → AllWellFormed Allowed (bodyNodes body) →
    ∀ token ∈ bodyTokens body, Allowed token
  | [], _ => by simp [bodyTokens]
  | stmt :: rest, formed => by
      simp only [bodyNodes, all_well_formed_cons, all_well_formed_append] at formed
      exact List.forall_mem_append.2
        ⟨stmt_tokens_allowed stmt formed.2.1, body_tokens_allowed rest formed.2.2⟩

end

end Held

/-- Whatever tokens are read over whatever source, every node of what is kept is well formed,
and every token that it holds is one of those read. -/
theorem survivors_well_formed (source : String) (tokens : List Token) :
    (∀ node ∈ bodyNodes (Grammar.parse tokens (Token.endOf source.toList)).statements,
      node.WellFormed (· ∈ tokens)) ∧
    ∀ token ∈ bodyTokens (Grammar.parse tokens (Token.endOf source.toList)).statements,
      token ∈ tokens := by
  obtain ⟨next, forms⟩ := Grammar.parse_forms tokens (end_of_kind source.toList)
  have formed := forms.well_formed fun token member => List.takeWhile_subset _ member
  exact ⟨formed, body_tokens_allowed _ formed⟩

/-- A call of a literal is kept while the declaration before it, which does not end, is dropped. -/
example : (Grammar.parse [⟨.varWord, ⟨0, 3⟩, "var", 1⟩, ⟨.string, ⟨9, 2⟩, "s", 7⟩,
    ⟨.semicolon, ⟨1, 1⟩, "", 1⟩, ⟨.string, ⟨9, 2⟩, "s", 7⟩, ⟨.leftParen, ⟨0, 0⟩, "", 1⟩,
    ⟨.rightParen, ⟨5, 5⟩, ")", 2⟩, ⟨.semicolon, ⟨1, 1⟩, "", 1⟩] (Token.endOf [])).statements.map
      Stmt.tokens = [[⟨.rightParen, ⟨5, 5⟩, ")", 2⟩]] := by decide +kernel

end Quill
