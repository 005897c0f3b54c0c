import Quill.Proofs.Machine.Returns
import Quill.Proofs.Machine.Unborn

/-!
Initializers at work. While an expression in the initializer of a local is evaluated, the task
that will bind the local waits on the stack, and no block or call is in between. So the frame
in use is the one that the local is for, and it does not bind the name yet.
-/

namespace Quill.Machine

set_option autoImplicit false

open Scope (Layer Place Position positions)

/-- The task that will declare the name comes before any that leaves the frame in use. -/
inductive Feeds (name : Token) : List Task → Prop where
  | declares {stack : List Task} : Feeds name (.declareVar name :: stack)
  | inside {task : Task} {stack : List Task} (stays : task.closes = false)
      (rest : Feeds name stack) : Feeds name (task :: stack)

theorem unborn_absent {heap : Heap} {environment : FrameRef} {names : List String}
    {stack : List Task} (unborn : Unborn heap environment names stack) (inner : environment ≠ ⟨0⟩) :
    ∀ name ∈ names, heap.local? environment name = none := by
  induction unborn with
  | nothing => exact List.forall_mem_nil _
  | program => exact absurd rfl inner
  | block distinct absent older rest =>
      exact fun name member => absent name (List.mem_append_left _ member)
  | waiting inside rest induction =>
      exact fun name member => induction inner name (List.mem_append_left _ member)

theorem fits_inner {store : Store} {ref : FrameRef} {layer : Layer} {outer : List Layer}
    (fits : Fits store ref (layer :: outer)) : ref ≠ ⟨0⟩ := by
  cases fits with
  | inside found parent older =>
      rintro rfl
      exact Nat.not_lt_zero _ older

theorem feeds_absent {heap : Heap} {environment : FrameRef} {name : Token} {stack : List Task}
    (feeds : Feeds name stack) {names : List String} (unborn : Unborn heap environment names stack)
    (inner : environment ≠ ⟨0⟩) : heap.local? environment name.lexeme = none := by
  induction feeds generalizing names with
  | declares =>
      have awaited := unborn_rest rfl unborn
      exact unborn_absent awaited inner _ (List.mem_append_right _ (List.mem_singleton_self _))
  | inside stays rest induction => exact induction (unborn_rest stays unborn)

/-- The expressions that a task is to have evaluated, and the assignment that it is left of. -/
def Task.Holds (task : Task) (term : Expr) : Prop :=
  match task with
  | leftOperand _ right => term = right
  | logical _ right => term = right
  | assign id _ => term.id = id
  | callee _ given => term ∈ given
  | argument _ _ _ remaining => term ∈ remaining
  | setObject _ value => term = value
  | _ => False

section Initializers

variable (statements : List Stmt)

def Fed (term : Expr) (stack : List Task) : Prop :=
  ∀ layers name, (⟨layers, .initializer name⟩, .expr term) ∈ positions statements → Feeds name stack

def AllFed : List Task → Prop
  | [] => True
  | task :: stack => (∀ term, task.Holds term → Fed statements term stack) ∧ AllFed stack

/-- Whatever the machine is to evaluate in the initializer of a local will be used for it. -/
structure Feeding (machine : Machine) : Prop where
  control : ∀ term, machine.control = .evaluate term → Fed statements term machine.stack
  stack : AllFed statements machine.stack

variable {statements}

theorem fed_push {term : Expr} {task : Task} {stack : List Task} (fed : Fed statements term stack)
    (stays : task.closes = false) : Fed statements term (task :: stack) :=
  fun layers name member => .inside stays (fed layers name member)

theorem feeding_evaluate {state : State} {term : Expr} {stack : List Task}
    (fed : Fed statements term stack) (all : AllFed statements stack) :
    Feeding statements ⟨state, .evaluate term, stack⟩ := by
  refine ⟨fun other same => ?_, all⟩
  cases same
  exact fed

def Control.evaluates : Control → Bool
  | evaluate _ => true
  | _ => false

theorem feeding_quiet {machine : Machine} (quiet : machine.control.evaluates = false)
    (all : AllFed statements machine.stack) : Feeding statements machine := by
  refine ⟨fun term evaluates => ?_, all⟩
  rw [evaluates] at quiet
  cases quiet

theorem deliver_read_feeding {state : State} {line : Nat}
    {result : Except Heap.AccessFault Value} {stack : List Task} (fed : AllFed statements stack) :
    Feeding statements (deliverRead state line result stack) := by
  cases result <;> exact feeding_quiet rfl fed

theorem call_value_feeding {state : State} {stack : List Task} (fed : AllFed statements stack)
    (callee : Value) (given : List Value) (line : Nat) :
    Feeding statements (callValue state callee given line stack) := by
  rcases call_value_enters state callee given line stack with
    ⟨ended, outcome⟩ | ⟨closure, base, completion, -, -, same⟩
  · refine ⟨fun term evaluates => ?_, by rwa [ended]⟩
    rcases outcome with ⟨value, isDone⟩ | ⟨fault, failed⟩
    · cases isDone.symm.trans evaluates
    · cases failed.symm.trans evaluates
  · rw [same]
    exact feeding_quiet rfl ⟨fun held holds => holds.elim, fun held holds => holds.elim, fed⟩

theorem gather_feeding {state : State} {paren : Token} {remaining : List Expr}
    {stack : List Task} (held : ∀ term ∈ remaining, Fed statements term stack)
    (fed : AllFed statements stack) (callee : Value) (evaluated : List Value) :
    Feeding statements (gather state callee evaluated paren remaining stack) := by
  cases remaining with
  | nil => exact call_value_feeding fed _ _ _
  | cons first others =>
      exact feeding_evaluate (fed_push (held first List.mem_cons_self) rfl)
        ⟨fun term later => held term (List.mem_cons_of_mem _ later), fed⟩

end Initializers

section Steps

variable {program : Program} (accepted : Accepted program) {place : Place} {state : State}
  {stack : List Task}

include accepted

theorem fed_part {outer inner : Expr} (member : (place, .expr outer) ∈ positions program.statements)
    (fed : Fed program.statements outer stack) (part : inner ∈ outer.subterms) :
    Fed program.statements inner stack := by
  intro layers name inside
  obtain ⟨rfl, -⟩ := accepted.unique (part_mem member part) inside rfl
  exact fed layers name member

theorem fed_elsewhere {term : Expr} (member : (place, .expr term) ∈ positions program.statements)
    (elsewhere : ∀ name, place.pending ≠ .initializer name) : Fed program.statements term stack := by
  intro layers name inside
  obtain ⟨rfl, -⟩ := accepted.unique member inside rfl
  exact absurd rfl (elsewhere name)

theorem fed_initializer {layers : List Layer} {name : Token} {term : Expr}
    (member : (⟨layers, .initializer name⟩, .expr term) ∈ positions program.statements) :
    Fed program.statements term (.declareVar name :: stack) := by
  intro other declared inside
  obtain ⟨same, -⟩ := accepted.unique member inside rfl
  cases same
  exact .declares

/-- What an initializer is made of is evaluated for the same local. The tasks that are pushed for a
part do not leave the frame in which the local is to be bound. -/
theorem evaluate_feeding {term : Expr}
    (member : (place, .expr term) ∈ positions program.statements)
    (fed : Fed program.statements term stack) (all : AllFed program.statements stack) :
    Feeding program.statements (evaluate state term stack) := by
  have part {inner : Expr} (among : inner ∈ term.subterms) : Fed program.statements inner stack :=
    fed_part accepted member fed among
  -- The task that is pushed holds terms of the same initializer.
  have first {inner : Expr} {task : Task} (among : inner ∈ term.subterms)
      (stays : task.closes = false)
      (others : ∀ held, task.Holds held → Fed program.statements held stack) :
      Feeding program.statements ⟨state, .evaluate inner, task :: stack⟩ :=
    feeding_evaluate (fed_push (part among) stays) ⟨others, all⟩
  cases term with
  | literal id value => exact feeding_quiet rfl all
  | grouping id inner =>
      exact feeding_evaluate (part (by simp [Expr.subterms, Expr.self_mem_subterms])) all
  | unary id operator right =>
      exact first (by simp [Expr.subterms, Expr.self_mem_subterms]) rfl fun held holds => holds.elim
  | binary id left operator right | logical id left operator right =>
      refine first (by simp [Expr.subterms, Expr.self_mem_subterms]) rfl fun held holds => ?_
      cases holds
      exact part (by simp [Expr.subterms, Expr.self_mem_subterms])
  | variableRef id name => exact deliver_read_feeding all
  | thisRef id keyword => exact deliver_read_feeding all
  | baseRef id keyword method =>
      have outcome := evaluate_base_outcome state id keyword method stack
      simp only [evaluate]
      generalize evaluateBase state id keyword method stack = machine at outcome ⊢
      cases outcome <;> exact feeding_quiet rfl all
  | assign id name value =>
      refine first (by simp [Expr.subterms, Expr.self_mem_subterms]) rfl fun held holds => ?_
      intro layers declared inside
      obtain ⟨rfl, rfl⟩ := accepted.unique member inside holds.symm
      exact fed layers declared member
  | call id callee paren given =>
      refine first (by simp [Expr.subterms, Expr.self_mem_subterms]) rfl fun held holds => ?_
      exact part (by simp [Expr.subterms, subterms_of_mem holds])
  | get id object name =>
      exact first (by simp [Expr.subterms, Expr.self_mem_subterms]) rfl fun held holds => holds.elim
  | set id object name value =>
      refine first (by simp [Expr.subterms, Expr.self_mem_subterms]) rfl fun held holds => ?_
      cases holds
      exact part (by simp [Expr.subterms, Expr.self_mem_subterms])

theorem execute_feeding {layers : List Layer} {clause : Stmt}
    (member : (.plain layers, .stmt clause) ∈ positions program.statements)
    (all : AllFed program.statements stack) :
    Feeding program.statements (execute state clause stack) := by
  have inside := Scope.below_subset member
  simp only [Scope.below, Place.plain] at inside
  have plain {term : Expr} {task : Task}
      (part : (.plain layers, .expr term) ∈ positions program.statements)
      (quiet : ∀ held, ¬ task.Holds held) :
      Feeding program.statements ⟨state, .evaluate term, task :: stack⟩ :=
    feeding_evaluate (fed_elsewhere accepted part fun name same => by cases same)
      ⟨fun held holds => absurd holds (quiet held), all⟩
  cases clause with
  | expression expr =>
      have part := inside (List.mem_cons_of_mem _ (expr_mem _ expr))
      exact feeding_evaluate (fed_elsewhere accepted part fun name same => by cases same) all
  | varDecl name initializer =>
      cases initializer with
      | none => exact feeding_quiet rfl all
      | some initializer =>
          have part := inside (List.mem_cons_of_mem _ (List.mem_cons_of_mem _ (expr_mem _ initializer)))
          exact feeding_evaluate (fed_initializer accepted part)
            ⟨fun held holds => holds.elim, all⟩
  | functionDecl decl => exact feeding_quiet rfl all
  | classDecl name base methods =>
      cases base with
      | none => exact feeding_quiet rfl all
      | some base =>
          have part := inside (List.mem_cons_of_mem _ (List.mem_cons_of_mem _
            (List.mem_append_left _ (expr_mem _ base))))
          exact feeding_evaluate (fed_elsewhere accepted part fun name same => by cases same)
            ⟨fun held holds => holds.elim, all⟩
  | block body => exact feeding_quiet rfl ⟨fun held holds => holds.elim, all⟩
  | ifThen condition thenBranch =>
      have part := inside (List.mem_cons_of_mem _ (List.mem_append_left _ (expr_mem _ condition)))
      exact plain part fun held holds => holds
  | ifElse condition thenBranch elseBranch =>
      have part := inside (List.mem_cons_of_mem _ (List.mem_append_left _
        (List.mem_append_left _ (expr_mem _ condition))))
      exact plain part fun held holds => holds
  | whileLoop condition body =>
      have part := inside (List.mem_cons_of_mem _ (List.mem_append_left _ (expr_mem _ condition)))
      exact plain part fun held holds => holds
  | returnStmt keyword value =>
      cases value with
      | none => exact feeding_quiet rfl all
      | some value =>
          have part := inside (List.mem_cons_of_mem _ (expr_mem _ value))
          exact plain part fun held holds => holds

/-- What a task has evaluated next belongs where the task does. A loop tests its condition again,
which stands in no initializer. -/
theorem resume_feeding {store : Store} {environment : FrameRef} {task : Task}
    (waits : Waits program.statements store environment none (task :: stack))
    (fed : AllFed program.statements (task :: stack)) (value : Value) :
    Feeding program.statements (resume state value task stack) := by
  obtain ⟨held, all⟩ := fed
  have outcome := resume_outcome state stack value task
  generalize resume state value task stack = machine at outcome ⊢
  cases outcome with
  | left => exact feeding_evaluate (fed_push (held _ rfl) rfl) ⟨fun _ holds => holds.elim, all⟩
  | undecided => exact feeding_evaluate (held _ rfl) all
  | bareCall | firstArgument | lastCall | nextArgument => exact gather_feeding held all _ _
  | setObject =>
      exact feeding_evaluate (fed_push (held _ rfl) rfl) ⟨fun _ holds => holds.elim, all⟩
  | turn => exact feeding_quiet rfl ⟨fun _ holds => holds.elim, all⟩
  | @again _ condition body =>
      obtain ⟨place, node, member, continues, -⟩ := waits_top waits
      cases continues
      have part : (.plain place.layers, .expr condition) ∈ positions program.statements :=
        Scope.below_subset member (List.mem_cons_of_mem _ (List.mem_append_left _ (expr_mem _ _)))
      exact feeding_evaluate (fed_elsewhere accepted part fun name same => by cases same)
        ⟨fun _ holds => holds.elim, all⟩
  | blockNext | programNext => exact feeding_quiet rfl ⟨fun _ holds => holds.elim, all⟩
  | _ => exact feeding_quiet rfl all

end Steps

theorem feeding_next {program : Program} (accepted : Accepted program) {tagged : Tagged}
    (inStep : InStep program tagged) (feeding : Feeding program.statements tagged.machine) :
    Feeding program.statements tagged.machine.next := by
  rcases tagged with ⟨⟨state, control, stack⟩, origins⟩
  have runs := inStep.runs
  obtain ⟨fed, all⟩ := feeding
  cases runs with
  | evaluate member fits waits => exact evaluate_feeding accepted member (fed _ rfl) all
  | execute member fits waits => exact execute_feeding accepted member all
  | done waits =>
      cases stack with
      | nil => exact feeding_quiet rfl all
      | cons task rest => exact resume_feeding accepted waits all _
  | returning waits =>
      cases stack with
      | nil => exact feeding_quiet rfl all
      | cons task rest => cases task <;> exact feeding_quiet rfl all.2
  | failing possible waits =>
      cases stack with
      | nil => exact feeding_quiet rfl all
      | cons task rest => exact feeding_quiet rfl all.2

theorem feeding_run {program : Program} (accepted : Accepted program) (state : State)
    (steps : Nat) : Feeding program.statements ((program.load state).run steps) := by
  rw [← reached_machine]
  induction steps with
  | zero => exact feeding_quiet rfl ⟨fun _ holds => holds.elim, trivial⟩
  | succ steps induction =>
      rw [reached, tagged_run_succ]
      exact feeding_next accepted (reached_in_step accepted state steps) induction

end Quill.Machine
