import Quill.Proofs.Machine.Closures
import Quill.Proofs.Scope.Distances

/-!
What waits on the stack. Each task belongs to a node of the program, and the frame in which
it will go on fits the place of that node. A name that the running statement still has to
declare is owed: the statements behind it may count on it, its own parts may not.
-/

namespace Quill.Machine

set_option autoImplicit false

open Scope (Layer Place Position positions routinePositions holding NearestAt lookedUp?)

/-- `Continues task node`: the task is what is left to do of the node. So a stack can be compared
with a program task by task, without the run that has led to it. -/
inductive Continues : Task → Node → Prop where
  | unary {id : Nat} {operator : Token} {right : Expr} :
      Continues (.unary operator) (.expr (.unary id operator right))
  | leftOperand {id : Nat} {operator : Token} {left right : Expr} :
      Continues (.leftOperand operator right) (.expr (.binary id left operator right))
  | rightOperand {id : Nat} {operator : Token} {left right : Expr} {value : Value} :
      Continues (.rightOperand value operator) (.expr (.binary id left operator right))
  | logical {id : Nat} {operator : Token} {left right : Expr} :
      Continues (.logical operator right) (.expr (.logical id left operator right))
  | assign {id : Nat} {name : Token} {value : Expr} :
      Continues (.assign id name) (.expr (.assign id name value))
  | callee {id : Nat} {callee : Expr} {paren : Token} {given : List Expr} :
      Continues (.callee paren given) (.expr (.call id callee paren given))
  | argument {id : Nat} {callee : Expr} {paren : Token} {given remaining : List Expr}
      {called : Value} {evaluated : List Value} (left : remaining <:+ given) :
      Continues (.argument called evaluated paren remaining) (.expr (.call id callee paren given))
  | getProperty {id : Nat} {object : Expr} {name : Token} :
      Continues (.getProperty name) (.expr (.get id object name))
  | setObject {id : Nat} {object value : Expr} {name : Token} :
      Continues (.setObject name value) (.expr (.set id object name value))
  | setField {id : Nat} {object value : Expr} {name : Token} {receiver : InstanceRef} :
      Continues (.setField receiver name) (.expr (.set id object name value))
  | leaveCall {id : Nat} {callee : Expr} {paren : Token} {given : List Expr}
      {completion : Completion} :
      Continues (.leaveCall completion) (.expr (.call id callee paren given))
  | declareVar {name : Token} {initializer : Expr} :
      Continues (.declareVar name) (.stmt (.varDecl name (some initializer)))
  | classBase {name : Token} {base : Expr} {methods : List FunctionDecl} :
      Continues (.classBase name base methods) (.stmt (.classDecl name (some base) methods))
  | ifThen {condition : Expr} {thenBranch : Stmt} :
      Continues (.branch thenBranch none) (.stmt (.ifThen condition thenBranch))
  | ifElse {condition : Expr} {thenBranch elseBranch : Stmt} :
      Continues (.branch thenBranch (some elseBranch))
        (.stmt (.ifElse condition thenBranch elseBranch))
  | loopTest {condition : Expr} {repeated : Stmt} :
      Continues (.loopTest condition repeated) (.stmt (.whileLoop condition repeated))
  | loopBody {condition : Expr} {repeated : Stmt} :
      Continues (.loopBody condition repeated) (.stmt (.whileLoop condition repeated))
  | giveBack {keyword : Token} {value : Expr} :
      Continues .giveBack (.stmt (.returnStmt keyword (some value)))
  | block {remaining : List Stmt} {outer : FrameRef} :
      Continues (.block remaining outer) (.body remaining)
  | program {remaining : List Stmt} : Continues (.program remaining) (.body remaining)

def Task.declares : Task → Option Token
  | declareVar name => some name
  | classBase name _ _ => some name
  | _ => none

/-- The frame that is in use below a task. -/
def Task.outer (task : Task) (environment : FrameRef) : FrameRef :=
  match task with
  | block _ outer => outer
  | _ => environment

def owing (owed : Option Token) (layers : List Layer) : List Layer :=
  match owed with
  | some name => holding name layers
  | none => layers

section Waits

variable (statements : List Stmt) (store : Store)

inductive Waits : FrameRef → Option Token → List Task → Prop where
  | nothing {environment : FrameRef} {owed : Option Token} : Waits environment owed []
  | task {environment : FrameRef} {owed : Option Token} {task : Task} {stack : List Task}
      {place : Place} {node : Node} {layers : List Layer}
      (member : (place, node) ∈ positions statements) (continues : Continues task node)
      (around : place.layers = owing owed layers) (fits : Fits store environment layers)
      (rest : Waits (task.outer environment) task.declares stack) :
      Waits environment owed (task :: stack)

end Waits

variable {statements : List Stmt} {store later : Store} {environment : FrameRef}
  {owed : Option Token} {stack : List Task}

theorem waits_grows (waits : Waits statements store environment owed stack)
    (grows : Grows store later) : Waits statements later environment owed stack := by
  induction waits with
  | nothing => exact .nothing
  | task member continues around fits rest induction =>
      exact .task member continues around (fits_grows fits grows) induction

theorem waits_declared {name : Token}
    (waits : Waits statements store environment (some name) stack) (value : Value) :
    Waits statements (store.define environment name.lexeme value) environment none stack := by
  cases waits with
  | nothing => exact .nothing
  | task member continues around fits rest =>
      exact .task member continues around (fits_define fits name value)
        (waits_grows rest (define_grows _ _ _ _))

/-- A task that may go on, with its node at a place that the frame in use fits. -/
theorem waits_top {task : Task} (waits : Waits statements store environment none (task :: stack)) :
    ∃ place node, (place, node) ∈ positions statements ∧ Continues task node ∧
      Fits store environment place.layers ∧
        Waits statements store (task.outer environment) task.declares stack := by
  cases waits with
  | task member continues around fits rest =>
      refine ⟨_, _, member, continues, ?_, rest⟩
      rw [around]
      exact fits

theorem waits_push {task : Task} {place : Place} {node : Node}
    (member : (place, node) ∈ positions statements) (continues : Continues task node)
    (fits : Fits store environment place.layers)
    (rest : Waits statements store (task.outer environment) task.declares stack) :
    Waits statements store environment none (task :: stack) :=
  .task member continues rfl fits rest

end Quill.Machine
