import Quill.Proofs.Layout.Lines
import Quill.Proofs.Machine.Agreement
import Quill.Proofs.Machine.Returns
import Quill.Proofs.Tree.Survivors

/-!
Where faults of a running program are charged. A machine fails at a node of its program and names
the line of a token that this node holds: an operator, a name, a keyword, or the parenthesis that
closes the arguments of a call, whatever the call has met. So the line is one of the source.
-/

namespace Quill

set_option autoImplicit false

def Node.lines : Node → List Nat
  | .expr term => term.ownTokens.map Token.line
  | .stmt (.classDecl name (some base) _) => [Machine.baseLine name base]
  | _ => []

namespace Machine

variable {state : State} {stack : List Task} {line : Nat} {fault : Located Fault}

theorem deliver_read_blames {result : Except Heap.AccessFault Value}
    (fails : (deliverRead state line result stack).control = .failing fault) :
    fault.line = line := by
  cases result <;> cases fails
  rfl

theorem call_value_blames {callee : Value} {given : List Value}
    (fails : (callValue state callee given line stack).control = .failing fault) :
    fault.line = line := by
  have outcome := call_value_outcome state given line stack callee
  generalize callValue state callee given line stack = machine at outcome fails
  cases outcome <;> cases fails <;> rfl

theorem evaluate_blames {term : Expr}
    (fails : (evaluate state term stack).control = .failing fault) :
    fault.line ∈ (Node.expr term).lines := by
  cases term with
  | variableRef id name => simp [Node.lines, Expr.ownTokens, deliver_read_blames fails]
  | thisRef id keyword => simp [Node.lines, Expr.ownTokens, deliver_read_blames fails]
  | baseRef id keyword method =>
      have outcome := evaluate_base_outcome state id keyword method stack
      simp only [evaluate] at fails
      generalize evaluateBase state id keyword method stack = machine at outcome fails
      cases outcome <;> cases fails <;> simp [Node.lines, Expr.ownTokens]
  | _ => cases fails

theorem execute_goes_on (state : State) (clause : Stmt) (stack : List Task) :
    (execute state clause stack).control ≠ .failing fault := by
  cases clause with
  | varDecl name initializer => cases initializer <;> simp [execute]
  | classDecl name base methods => cases base <;> simp [execute, defineClass]
  | returnStmt keyword value => cases value <;> simp [execute]
  | _ => simp [execute]

theorem resume_blames {value : Value} {task : Task} {node : Node} (continues : Continues task node)
    (fails : (resume state value task stack).control = .failing fault) :
    fault.line ∈ node.lines := by
  have outcome := resume_outcome state stack value task
  generalize resume state value task stack = machine at outcome fails
  cases outcome with
  | bareCall | lastCall =>
      cases continues
      simp [Node.lines, Expr.ownTokens, call_value_blames fails]
  | unaryFails | rightFails | unassigned | missing | noProperties | noFields =>
      cases continues
      cases fails
      simp [Node.lines, Expr.ownTokens]
  | noClass =>
      cases continues
      cases fails
      simp [Node.lines]
  | _ => cases fails

/-- A step fails because the machine has failed before, or at the node that it is at, on a line that
this node is charged with. -/
theorem next_blames {machine : Machine} {node : Node} (attends : Attends machine node)
    (fails : machine.next.control = .failing fault) :
    machine.control = .failing fault ∨ fault.line ∈ node.lines := by
  rcases machine with ⟨state, control, stack⟩
  cases control with
  | evaluate term =>
      cases attends
      exact .inr (evaluate_blames fails)
  | execute clause => exact absurd fails (execute_goes_on state clause stack)
  | done value =>
      obtain ⟨task, rest, rfl, continues⟩ := attends
      exact .inr (resume_blames continues fails)
  | returning value =>
      obtain ⟨task, rest, rfl, -⟩ := attends
      cases task <;> cases fails
  | failing other =>
      obtain ⟨task, rest, rfl, -⟩ := attends
      exact .inl fails

theorem run_blames {source : String} {program : Program}
    (compiles : Program.compile source = .ok program) {start : State} {steps : Nat}
    (fails : ((program.load start).run steps).control = .failing fault) :
    ∃ node ∈ bodyNodes program.statements, fault.line ∈ node.lines := by
  induction steps with
  | zero => cases fails
  | succ steps induction =>
      rw [run_succ] at fails
      cases running : ((program.load start).run steps).halted with
      | true =>
          rw [next_of_halted _ running] at fails
          exact induction fails
      | false =>
          obtain ⟨node, member, attends⟩ := run_attends compiles start running
          rcases next_blames attends fails with before | here
          · exact induction before
          · exact ⟨node, member, here⟩

theorem base_node {statements : List Stmt} {name : Token} {base : Expr}
    {methods : List FunctionDecl}
    (member : .stmt (.classDecl name (some base) methods) ∈ bodyNodes statements) :
    .expr base ∈ bodyNodes statements := by
  rw [← Scope.positions_nodes] at member ⊢
  obtain ⟨⟨place, node⟩, isPosition, rfl⟩ := List.mem_map.1 member
  refine List.mem_map.2 ⟨(⟨place.layers, .baseClause name⟩, .expr base), ?_, rfl⟩
  apply Scope.below_subset isPosition
  refine List.mem_cons_of_mem _ (List.mem_cons_of_mem _ (List.mem_append_left _ ?_))
  exact expr_mem _ base

theorem node_on_lines {source : String} {statements : List Stmt}
    (formed : Node.AllWellFormed (fun token => OnLine source token.line) (bodyNodes statements))
    {node : Node} (member : node ∈ bodyNodes statements) :
    ∀ line ∈ node.lines, OnLine source line := by
  intro line held
  unfold Node.lines at held
  split at held
  next term =>
    obtain ⟨token, own, rfl⟩ := List.mem_map.1 held
    exact own_tokens_allowed (formed _ member) token own
  next name base methods =>
    obtain ⟨id, baseName, rfl⟩ := formed _ member
    rw [List.mem_singleton.1 held]
    exact (formed _ (base_node member)).2
  next => cases held

/-- A fault of a running program is on a line of its source. It is charged to the node that the
machine is at, and the tokens of that node come from the source. -/
theorem fault_on_line {source : String} {program : Program}
    (compiles : Program.compile source = .ok program) {start : State} {steps : Nat}
    (fails : ((program.load start).run steps).control = .failing fault) :
    OnLine source fault.line := by
  obtain ⟨node, member, held⟩ := run_blames compiles fails
  obtain ⟨parsed, parses, -, same, -⟩ := compile_ok compiles
  have formed := nodes_on_lines parses
  rw [same] at formed
  exact node_on_lines formed member _ held

end Machine

end Quill
