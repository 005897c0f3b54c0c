import Quill.Proofs.Tree.Formed

/-!
The token that a call keeps for its faults is the parenthesis that closes its arguments.
-/

namespace Quill

set_option autoImplicit false

namespace Node

def Closed : Node → Prop
  | .expr (.call _ _ paren _) => paren.kind = .rightParen
  | _ => True

def AllClosed (nodes : List Node) : Prop := ∀ node ∈ nodes, node.Closed

@[simp] theorem all_closed_nil : AllClosed [] := by
  simp [AllClosed]

@[simp] theorem all_closed_cons (node : Node) (rest : List Node) :
    AllClosed (node :: rest) ↔ node.Closed ∧ AllClosed rest := by
  simp [AllClosed]

@[simp] theorem all_closed_append (left right : List Node) :
    AllClosed (left ++ right) ↔ AllClosed left ∧ AllClosed right := by
  simp [AllClosed, or_imp, forall_and]

@[simp] theorem all_closed_declarations (names : List Token) :
    AllClosed (names.map .declaration) := by
  simp [AllClosed, Closed]

end Node

namespace Grammar

open Node (AllClosed Closed)

theorem Reads.closed {phrase : Phrase} {words : List Token} {first next : Nat}
    (reads : Reads phrase words first next) : AllClosed phrase.nodes := by
  induction reads with
  | joined leftBody kind rightBody leftInduction rightInduction =>
      rcases operators_binary kind with ⟨build, -⟩ | ⟨build, -⟩
      all_goals
        simp only [Phrase.nodes, build, Expr.nodes, Expr.subterms] at leftInduction rightInduction ⊢
        simp_all [Closed]
  | _ => simp_all [Phrase.nodes, Expr.nodes, Expr.subterms, subtermsOf, Closed]

theorem for_loop_closed {initializer : Option Stmt} {condition : Expr} {increment : Option Expr}
    {body : Stmt} (starts : AllClosed (stmtOptionNodes initializer))
    (tests : AllClosed condition.nodes) (steps : AllClosed (optionNodes increment))
    (repeats : AllClosed body.nodes) :
    AllClosed (Stmt.forLoop initializer condition increment body).nodes := by
  cases initializer <;> cases increment <;>
    simp_all [Stmt.forLoop, Stmt.nodes, bodyNodes, optionNodes, stmtOptionNodes, Closed]

theorem Forms.closed {clause : Clause} {words : List Token} {first next : Nat}
    {faults : List (Located Fault)} (forms : Forms clause words first next faults) :
    AllClosed clause.nodes := by
  induction forms with
  | present reads | exprInitializer reads | expression reads | variableDecl _ _ reads =>
      have closed := reads.closed
      simp_all [Clause.nodes, Phrase.nodes, Stmt.nodes, optionNodes, stmtOptionNodes, Closed]
  | @forLoop _ _ _ _ _ condition _ _ _ _ _ _ _ _ _ _ _ _ _ _ _ _ _ _ _ _ _ _ built _
      startInduction testInduction stepInduction bodyInduction =>
      subst built
      refine for_loop_closed startInduction ?_ stepInduction bodyInduction
      cases condition with
      | some condition => exact testInduction
      | none => simp [Expr.nodes, Expr.subterms, Closed]
  | ifThen _ _ reads | ifElse _ _ reads | whileLoop _ _ reads =>
      have closed := reads.closed
      simp_all [Clause.nodes, Phrase.nodes, Stmt.nodes, Closed]
  | _ =>
      simp_all [Clause.nodes, Stmt.nodes, optionNodes, stmtOptionNodes, methodNodes, bodyNodes,
        FunctionDecl.nodes_eq, Expr.nodes, Expr.subterms, Closed]

end Grammar

theorem parse_closed {source : String} {parsed : Grammar.Parse}
    (parses : Program.parse source = .ok parsed) :
    Node.AllClosed (bodyNodes parsed.statements) := by
  obtain ⟨tokens, -, rfl⟩ := parse_scans parses
  obtain ⟨next, forms⟩ := Grammar.parse_forms tokens (end_of_kind source.toList)
  exact forms.closed

end Quill
