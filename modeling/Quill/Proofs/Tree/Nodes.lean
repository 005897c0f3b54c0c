import Mathlib.Data.List.Nodup
import Quill.Proofs.Grammar.Whole

/-!
The nodes of a program. What a tree must satisfy is said of one node at a time, and a
program is well formed if all its nodes are; its expressions are numbered if no two nodes
carry the same number. Both hold of whatever the parser returns, faulty input included.
-/

namespace Quill

set_option autoImplicit false

mutual

/-- All expressions in an expression, in the order in which they are complete: the parts of one come
before it. -/
def Expr.subterms : Expr → List Expr
  | .literal id value => [.literal id value]
  | .grouping id inner => inner.subterms ++ [.grouping id inner]
  | .unary id operator right => right.subterms ++ [.unary id operator right]
  | .binary id left operator right =>
      left.subterms ++ right.subterms ++ [.binary id left operator right]
  | .logical id left operator right =>
      left.subterms ++ right.subterms ++ [.logical id left operator right]
  | .variableRef id name => [.variableRef id name]
  | .thisRef id keyword => [.thisRef id keyword]
  | .baseRef id keyword method => [.baseRef id keyword method]
  | .assign id name value => value.subterms ++ [.assign id name value]
  | .call id callee paren given =>
      callee.subterms ++ subtermsOf given ++ [.call id callee paren given]
  | .get id object name => object.subterms ++ [.get id object name]
  | .set id object name value =>
      object.subterms ++ value.subterms ++ [.set id object name value]

def subtermsOf : List Expr → List Expr
  | [] => []
  | expr :: rest => expr.subterms ++ subtermsOf rest

end

theorem Expr.self_mem_subterms (expr : Expr) : expr ∈ expr.subterms := by
  cases expr <;> simp [subterms]

/-- A place in a program where something is evaluated, executed or declared. A `body` is
what is left of a list of statements. -/
inductive Node where
  | expr (expr : Expr)
  | stmt (stmt : Stmt)
  | body (stmts : List Stmt)
  | routine (decl : FunctionDecl)
  | declaration (name : Token)

def Expr.nodes (expr : Expr) : List Node := expr.subterms.map .expr

def optionNodes : Option Expr → List Node
  | some expr => expr.nodes
  | none => []

mutual

/-- A statement and all nodes in it. What is to hold of every node of a program is said for the
members of this list. -/
def Stmt.nodes : Stmt → List Node
  | .expression expr => .stmt (.expression expr) :: expr.nodes
  | .varDecl name initializer =>
      .stmt (.varDecl name initializer) :: .declaration name :: optionNodes initializer
  | .functionDecl decl => .stmt (.functionDecl decl) :: .declaration decl.name :: decl.nodes
  | .classDecl name base methods =>
      .stmt (.classDecl name base methods) :: .declaration name ::
        (optionNodes base ++ methodNodes methods)
  | .block body => .stmt (.block body) :: bodyNodes body
  | .ifThen condition thenBranch =>
      .stmt (.ifThen condition thenBranch) :: (condition.nodes ++ thenBranch.nodes)
  | .ifElse condition thenBranch elseBranch =>
      .stmt (.ifElse condition thenBranch elseBranch) ::
        (condition.nodes ++ thenBranch.nodes ++ elseBranch.nodes)
  | .whileLoop condition body =>
      .stmt (.whileLoop condition body) :: (condition.nodes ++ body.nodes)
  | .returnStmt keyword value => .stmt (.returnStmt keyword value) :: optionNodes value

def FunctionDecl.nodes : FunctionDecl → List Node
  | ⟨name, parameters, body⟩ =>
      .routine ⟨name, parameters, body⟩ :: (parameters.map .declaration ++ bodyNodes body)

def methodNodes : List FunctionDecl → List Node
  | [] => []
  | decl :: rest => decl.nodes ++ methodNodes rest

def bodyNodes : List Stmt → List Node
  | [] => [.body []]
  | stmt :: rest => .body (stmt :: rest) :: (stmt.nodes ++ bodyNodes rest)

end

theorem FunctionDecl.nodes_eq (decl : FunctionDecl) :
    decl.nodes = .routine decl :: (decl.parameters.map .declaration ++ bodyNodes decl.body) := by
  cases decl
  rfl

def Stmt.declared? : Stmt → Option Token
  | .varDecl name _ => some name
  | .functionDecl decl => some decl.name
  | .classDecl name _ _ => some name
  | _ => none

def binaryOperators : List Kind :=
  [.bangEqual, .equalEqual, .greater, .greaterEqual, .less, .lessEqual, .minus, .plus, .star,
    .slash]

def logicalOperators : List Kind := [.orOr, .andAnd]

namespace Node

variable (Allowed : Token → Prop)

def Named (token : Token) : Prop := token.kind = .identifier ∧ Allowed token

def ExprWellFormed : Expr → Prop
  | .literal _ _ => True
  | .grouping _ _ => True
  | .unary _ operator _ => operator.kind ∈ Grammar.signs ∧ Allowed operator
  | .binary _ _ operator _ => operator.kind ∈ binaryOperators ∧ Allowed operator
  | .logical _ _ operator _ => operator.kind ∈ logicalOperators ∧ Allowed operator
  | .variableRef _ name => Named Allowed name
  | .thisRef _ keyword => keyword.kind = .thisWord ∧ Allowed keyword
  | .baseRef _ keyword method =>
      (keyword.kind = .baseWord ∧ Allowed keyword) ∧ Named Allowed method
  | .assign _ name _ => Named Allowed name
  | .call _ _ paren given => Allowed paren ∧ given.length ≤ Grammar.listLimit
  | .get _ _ name => Named Allowed name
  | .set _ _ name _ => Named Allowed name

/-- A branch or a repeated statement declares nothing, and a base class is a variable. The grammar
says so, and the type of trees does not. -/
def StmtWellFormed : Stmt → Prop
  | .classDecl _ (some base) _ => ∃ id name, base = .variableRef id name
  | .ifThen _ thenBranch => thenBranch.declared? = none
  | .ifElse _ thenBranch elseBranch =>
      thenBranch.declared? = none ∧ elseBranch.declared? = none
  | .whileLoop _ repeated => repeated.declared? = none
  | .returnStmt keyword _ => keyword.kind = .returnWord ∧ Allowed keyword
  | _ => True

def WellFormed : Node → Prop
  | .expr term => ExprWellFormed Allowed term
  | .stmt clause => StmtWellFormed Allowed clause
  | .body _ => True
  | .routine decl => Named Allowed decl.name ∧ decl.parameters.length ≤ Grammar.listLimit
  | .declaration name => Named Allowed name

def AllWellFormed (nodes : List Node) : Prop := ∀ node ∈ nodes, node.WellFormed Allowed

variable {Allowed}

@[simp] theorem all_well_formed_nil : AllWellFormed Allowed [] := by
  simp [AllWellFormed]

@[simp] theorem all_well_formed_cons (node : Node) (rest : List Node) :
    AllWellFormed Allowed (node :: rest) ↔
      node.WellFormed Allowed ∧ AllWellFormed Allowed rest := by
  simp [AllWellFormed]

@[simp] theorem all_well_formed_append (left right : List Node) :
    AllWellFormed Allowed (left ++ right) ↔
      AllWellFormed Allowed left ∧ AllWellFormed Allowed right := by
  simp [AllWellFormed, or_imp, forall_and]

@[simp] theorem all_well_formed_declarations (names : List Token) :
    AllWellFormed Allowed (names.map .declaration) ↔ ∀ name ∈ names, Named Allowed name := by
  simp [AllWellFormed, WellFormed]

def id? : Node → Option Nat
  | .expr term => some term.id
  | _ => none

end Node

def nodeIds (nodes : List Node) : List Nat := nodes.filterMap Node.id?

@[simp] theorem node_ids_nil : nodeIds [] = [] := rfl

@[simp] theorem node_ids_append (left right : List Node) :
    nodeIds (left ++ right) = nodeIds left ++ nodeIds right :=
  List.filterMap_append

@[simp] theorem node_ids_expr (expr : Expr) (rest : List Node) :
    nodeIds (.expr expr :: rest) = expr.id :: nodeIds rest := rfl

@[simp] theorem node_ids_stmt (stmt : Stmt) (rest : List Node) :
    nodeIds (.stmt stmt :: rest) = nodeIds rest := rfl

@[simp] theorem node_ids_body (stmts : List Stmt) (rest : List Node) :
    nodeIds (.body stmts :: rest) = nodeIds rest := rfl

@[simp] theorem node_ids_routine (decl : FunctionDecl) (rest : List Node) :
    nodeIds (.routine decl :: rest) = nodeIds rest := rfl

@[simp] theorem node_ids_declaration (name : Token) (rest : List Node) :
    nodeIds (.declaration name :: rest) = nodeIds rest := rfl

@[simp] theorem node_ids_declarations (names : List Token) :
    nodeIds (names.map .declaration) = [] := by
  simp [nodeIds, Node.id?]

theorem for_loop_undeclared (initializer : Option Stmt) (condition : Expr)
    (increment : Option Expr) (body : Stmt) :
    (Stmt.forLoop initializer condition increment body).declared? = none := by
  cases initializer <;> cases increment <;> rfl

def stmtOptionNodes : Option Stmt → List Node
  | some stmt => stmt.nodes
  | none => []

/-- A counting loop has the expressions of its clauses, the increment behind the body. -/
theorem for_loop_ids (initializer : Option Stmt) (condition : Expr) (increment : Option Expr)
    (body : Stmt) :
    nodeIds (Stmt.forLoop initializer condition increment body).nodes =
      nodeIds (stmtOptionNodes initializer) ++ (nodeIds condition.nodes ++
        (nodeIds body.nodes ++ nodeIds (optionNodes increment))) := by
  cases initializer <;> cases increment <;>
    simp [Stmt.forLoop, Stmt.nodes, bodyNodes, optionNodes, stmtOptionNodes]

/-- Distinct numbers from `first` up to `next`. -/
structure Numbered (ids : List Nat) (first next : Nat) : Prop where
  le : first ≤ next
  distinct : ids.Nodup
  range : ∀ id ∈ ids, first ≤ id ∧ id < next

namespace Numbered

theorem nil {first next : Nat} (le : first ≤ next) : Numbered [] first next :=
  ⟨le, List.nodup_nil, by simp⟩

theorem single (first : Nat) : Numbered [first] first (first + 1) :=
  ⟨Nat.le_succ _, by simp, by simp⟩

theorem append {early late : List Nat} {first middle next : Nat}
    (earlyNumbered : Numbered early first middle) (lateNumbered : Numbered late middle next) :
    Numbered (early ++ late) first next := by
  refine ⟨Nat.le_trans earlyNumbered.le lateNumbered.le, ?_, ?_⟩
  · refine List.nodup_append.2 ⟨earlyNumbered.distinct, lateNumbered.distinct, ?_⟩
    intro left leftMember right rightMember same
    have below := (earlyNumbered.range left leftMember).2
    have above := (lateNumbered.range right rightMember).1
    omega
  · intro id member
    rcases List.mem_append.1 member with early | late
    · exact ⟨(earlyNumbered.range id early).1,
        Nat.lt_of_lt_of_le (earlyNumbered.range id early).2 lateNumbered.le⟩
    · exact ⟨Nat.le_trans earlyNumbered.le (lateNumbered.range id late).1,
        (lateNumbered.range id late).2⟩

theorem perm {ids others : List Nat} {first next : Nat} (numbered : Numbered ids first next)
    (same : ids.Perm others) : Numbered others first next :=
  ⟨numbered.le, same.nodup_iff.1 numbered.distinct,
    fun id member => numbered.range id (same.mem_iff.2 member)⟩

theorem widen {ids : List Nat} {lower first next : Nat} (numbered : Numbered ids first next)
    (below : lower ≤ first) : Numbered ids lower next :=
  ⟨Nat.le_trans below numbered.le, numbered.distinct,
    fun id member => ⟨Nat.le_trans below (numbered.range id member).1,
      (numbered.range id member).2⟩⟩

end Numbered

end Quill
