import Quill.Proofs.Scope.Nesting

/-!
What the scopes around a piece of code are made of. Code stands in blocks and routines only:
the scope of a receiver, and that of a base class around it, lie directly around a method,
and every routine around a node has the node in its text.
-/

namespace Quill.Scope

set_option autoImplicit false

def Opener.isCode : Opener → Bool
  | block _ => true
  | routine _ _ => true
  | _ => false

/-- Scopes around code, where a method comes with the scopes of its class. These are the only stacks
of scopes that the grammar allows. -/
inductive Housed : List Layer → Prop where
  | nil : Housed []
  | block {body : List Stmt} {names : List String} {outer : List Layer} (rest : Housed outer) :
      Housed (⟨.block body, names⟩ :: outer)
  | function {decl : FunctionDecl} {names : List String} {outer : List Layer}
      (rest : Housed outer) : Housed (⟨.routine none decl, names⟩ :: outer)
  | method {className : Token} {derived : Bool} {decl : FunctionDecl} {names : List String}
      {outer : List Layer} (rest : Housed outer) :
      Housed (⟨.routine (some className) decl, names⟩ :: classLayers className derived outer)

theorem housed_head {layer : Layer} {outer : List Layer} (housed : Housed (layer :: outer)) :
    layer.opener.isCode = true := by
  cases housed <;> rfl

theorem housed_holding {layers : List Layer} (housed : Housed layers) (name : Token) :
    Housed (holding name layers) := by
  cases housed with
  | nil => exact .nil
  | block rest => exact .block rest
  | function rest => exact .function rest
  | method rest => exact .method rest

def Encloses (layers : List Layer) (nodes : List Node) : Prop :=
  ∀ layer ∈ layers, ∀ className decl, layer.opener = .routine className decl → nodes ⊆ decl.nodes

theorem encloses_cons {layer : Layer} {outer : List Layer} {nodes : List Node}
    (first : ∀ className decl, layer.opener = .routine className decl → nodes ⊆ decl.nodes)
    (encloses : Encloses outer nodes) : Encloses (layer :: outer) nodes :=
  List.forall_mem_cons.2 ⟨first, encloses⟩

theorem encloses_holding {layers : List Layer} {nodes : List Node} (encloses : Encloses layers nodes)
    (name : Token) : Encloses (holding name layers) nodes := by
  cases layers with
  | nil => exact encloses
  | cons layer outer =>
      obtain ⟨first, others⟩ := List.forall_mem_cons.1 encloses
      exact encloses_cons first others

structure Around (layers : List Layer) (nodes : List Node) : Prop where
  housed : Housed layers
  encloses : Encloses layers nodes

theorem Around.part {layers : List Layer} {nodes few : List Node} (around : Around layers nodes)
    (part : few ⊆ nodes) : Around layers few :=
  ⟨around.housed, fun layer member className decl opener =>
    List.Subset.trans part (around.encloses layer member className decl opener)⟩

theorem Around.holding {layers : List Layer} {nodes : List Node} (around : Around layers nodes)
    (name : Token) : Around (holding name layers) nodes :=
  ⟨housed_holding around.housed name, encloses_holding around.encloses name⟩

theorem Around.after {layers : List Layer} {nodes : List Node} (around : Around layers nodes)
    (stmt : Stmt) : Around (after layers stmt) nodes := by
  unfold Scope.after
  cases stmt.declared? with
  | none => exact around
  | some name => exact around.holding name

/-- A node stands in the scopes of its place, unless it is a routine, whose place is that of
its name. -/
def Settled (position : Position) : Prop :=
  (∀ decl, position.2 ≠ .routine decl) → Around position.1.layers [position.2]

def AllSettled (positions : List Position) : Prop := ∀ position ∈ positions, Settled position

theorem settled_node {place : Place} {nodes : List Node} {node : Node}
    (around : Around place.layers nodes) (member : node ∈ nodes) : Settled (place, node) :=
  fun _ => around.part (List.cons_subset.2 ⟨member, List.nil_subset _⟩)

theorem all_settled_cons {place : Place} {nodes : List Node} {node : Node} {rest : List Position}
    (around : Around place.layers nodes) (member : node ∈ nodes) (others : AllSettled rest) :
    AllSettled ((place, node) :: rest) :=
  List.forall_mem_cons.2 ⟨settled_node around member, others⟩

theorem all_settled_append {left right : List Position} (leftSettled : AllSettled left)
    (rightSettled : AllSettled right) : AllSettled (left ++ right) :=
  List.forall_mem_append.2 ⟨leftSettled, rightSettled⟩

theorem expr_settled {place : Place} {expr : Expr} (around : Around place.layers expr.nodes) :
    AllSettled (exprPositions place expr) := by
  intro position member
  obtain ⟨term, inside, rfl⟩ := List.mem_map.1 member
  exact settled_node around (List.mem_map_of_mem inside)

theorem option_settled {place : Place} {value : Option Expr}
    (around : Around place.layers (optionNodes value)) :
    AllSettled (optionPositions place value) := by
  cases value with
  | none => exact List.forall_mem_nil _
  | some expr => exact expr_settled around

theorem parameters_settled {layers : List Layer} {nodes : List Node} {names : List Token}
    (around : Around layers nodes) (members : names.map .declaration ⊆ nodes) :
    AllSettled (parameterPositions layers names) ∧ Around (holdingAll names layers) nodes := by
  induction names generalizing layers with
  | nil => exact ⟨List.forall_mem_nil _, around⟩
  | cons name rest induction =>
      obtain ⟨first, others⟩ := List.cons_subset.1 members
      obtain ⟨positions, final⟩ := induction (around.holding name) others
      exact ⟨all_settled_cons around first positions, final⟩

theorem encloses_class {layers : List Layer} {nodes : List Node} (encloses : Encloses layers nodes)
    (className : Token) (derived : Bool) : Encloses (classLayers className derived layers) nodes := by
  have other : ∀ (opener : Opener) (names : List String) (outer : List Layer),
      opener.routine? = none → Encloses outer nodes → Encloses (⟨opener, names⟩ :: outer) nodes := by
    intro opener names outer noRoutine around
    apply encloses_cons ?_ around
    intro className decl same
    rw [show opener = .routine className decl from same] at noRoutine
    cases noRoutine
  cases derived with
  | false => exact other _ _ _ rfl encloses
  | true => exact other _ _ _ rfl (other _ _ _ rfl encloses)

mutual

/-- The scopes around a statement settle where its parts stand. The induction follows the statement,
and each part gets one scope more where the statement opens one. -/
theorem stmt_settled {layers : List Layer} : (stmt : Stmt) → Around layers stmt.nodes →
    AllSettled (stmtPositions layers stmt)
  | .expression expr, around => by
      have inner : Around layers expr.nodes := around.part (by simp [Stmt.nodes])
      exact all_settled_cons around List.mem_cons_self (expr_settled inner)
  | .varDecl name initializer, around => by
      have inner : Around layers (optionNodes initializer) := around.part (by simp [Stmt.nodes])
      refine all_settled_cons around List.mem_cons_self (all_settled_cons around ?_ ?_)
      · simp [Stmt.nodes]
      · exact option_settled inner
  | .functionDecl decl, around => by
      have inner : Around layers decl.nodes := around.part (by simp [Stmt.nodes])
      refine all_settled_cons around List.mem_cons_self (all_settled_cons around ?_ ?_)
      · simp [Stmt.nodes]
      · exact routine_settled none decl (.function (housed_holding inner.housed _))
          (encloses_holding inner.encloses _)
  | .classDecl name base methods, around => by
      have inner : Around layers (optionNodes base) :=
        around.part (fun node member => by simp [Stmt.nodes, member])
      have body : Around layers (methodNodes methods) :=
        around.part (fun node member => by simp [Stmt.nodes, member])
      refine all_settled_cons around List.mem_cons_self (all_settled_cons around ?_ ?_)
      · simp [Stmt.nodes]
      · exact all_settled_append (option_settled inner)
          (methods_settled name base.isSome methods (body.holding name))
  | .block content, around => by
      have inner : Around layers (bodyNodes content) := around.part (by simp [Stmt.nodes])
      have block : Around (⟨.block content, []⟩ :: layers) (bodyNodes content) := by
        refine ⟨.block inner.housed, encloses_cons ?_ inner.encloses⟩
        intro className decl same
        cases same
      exact all_settled_cons around List.mem_cons_self (body_settled content block)
  | .ifThen condition thenBranch, around => by
      have test : Around layers condition.nodes := around.part (by simp [Stmt.nodes])
      have taken : Around layers thenBranch.nodes := around.part (by simp [Stmt.nodes])
      exact all_settled_cons around List.mem_cons_self
        (all_settled_append (expr_settled test) (stmt_settled thenBranch taken))
  | .ifElse condition thenBranch elseBranch, around => by
      have test : Around layers condition.nodes := around.part (by simp [Stmt.nodes])
      have taken : Around layers thenBranch.nodes :=
        around.part (fun node member => by simp [Stmt.nodes, member])
      have other : Around layers elseBranch.nodes :=
        around.part (fun node member => by simp [Stmt.nodes, member])
      exact all_settled_cons around List.mem_cons_self (all_settled_append
        (all_settled_append (expr_settled test) (stmt_settled thenBranch taken))
        (stmt_settled elseBranch other))
  | .whileLoop condition repeated, around => by
      have test : Around layers condition.nodes := around.part (by simp [Stmt.nodes])
      have body : Around layers repeated.nodes := around.part (by simp [Stmt.nodes])
      exact all_settled_cons around List.mem_cons_self
        (all_settled_append (expr_settled test) (stmt_settled repeated body))
  | .returnStmt keyword value, around => by
      have inner : Around layers (optionNodes value) := around.part (by simp [Stmt.nodes])
      exact all_settled_cons around List.mem_cons_self (option_settled inner)

theorem routine_settled {layers : List Layer} (className : Option Token) : (decl : FunctionDecl) →
    Housed (⟨.routine className decl, []⟩ :: layers) → Encloses layers decl.nodes →
      AllSettled (routinePositions className layers decl)
  | ⟨name, parameters, body⟩, housed, encloses => by
      have opened : Around (⟨.routine className ⟨name, parameters, body⟩, []⟩ :: layers)
          (FunctionDecl.nodes ⟨name, parameters, body⟩) := by
        refine ⟨housed, encloses_cons ?_ encloses⟩
        intro other decl same
        cases same
        exact List.Subset.refl _
      have members : parameters.map .declaration ⊆ FunctionDecl.nodes ⟨name, parameters, body⟩ := by
        simp [FunctionDecl.nodes]
      obtain ⟨declared, held⟩ := parameters_settled opened members
      have inner : Around _ (bodyNodes body) := held.part (by simp [FunctionDecl.nodes])
      refine List.forall_mem_cons.2 ⟨?_, all_settled_append declared (body_settled body inner)⟩
      intro noRoutine
      exact absurd rfl (noRoutine _)

theorem methods_settled {layers : List Layer} (className : Token) (derived : Bool) :
    (decls : List FunctionDecl) → Around layers (methodNodes decls) →
      AllSettled (methodPositions className (classLayers className derived layers) decls)
  | [], _ => List.forall_mem_nil _
  | decl :: rest, around => by
      have first : Around layers decl.nodes := around.part (by simp [methodNodes])
      have others : Around layers (methodNodes rest) := around.part (by simp [methodNodes])
      exact all_settled_append
        (routine_settled (some className) decl (.method first.housed)
          (encloses_class first.encloses className derived))
        (methods_settled className derived rest others)

theorem body_settled {layers : List Layer} : (stmts : List Stmt) → Around layers (bodyNodes stmts) →
    AllSettled (bodyPositions layers stmts)
  | [], around => all_settled_cons around List.mem_cons_self (List.forall_mem_nil _)
  | stmt :: rest, around => by
      have first : Around layers stmt.nodes := around.part (by simp [bodyNodes])
      have others : Around layers (bodyNodes rest) := around.part (by simp [bodyNodes])
      exact all_settled_cons around List.mem_cons_self
        (all_settled_append (stmt_settled stmt first) (body_settled rest (others.after stmt)))

end

theorem positions_settled (statements : List Stmt) : AllSettled (positions statements) :=
  body_settled statements ⟨.nil, fun _ member => absurd member List.not_mem_nil⟩

theorem housed_derived {layers : List Layer} {className : Token} (housed : Housed layers)
    (inside : (Place.plain layers).class? = some (className, true)) :
    ∃ inner decl names outer, layers =
        inner ++ ⟨.routine (some className) decl, names⟩ :: classLayers className true outer ∧
      ∀ layer ∈ inner, layer.opener.isCode = true := by
  induction housed with
  | nil => simp [Place.class?, Place.plain] at inside
  | block rest induction | function rest induction =>
      obtain ⟨inner, decl, names, outer, rfl, code⟩ := induction inside
      exact ⟨_ :: inner, decl, names, outer, rfl, List.forall_mem_cons.2 ⟨rfl, code⟩⟩
  | @method other derived decl names outer rest induction =>
      simp only [Place.class?, Place.plain, classLayers, Opener.class?, List.findSome?_cons,
        Option.some.injEq, Prod.mk.injEq] at inside
      rcases inside with ⟨rfl, rfl⟩
      exact ⟨[], decl, names, outer, rfl, List.forall_mem_nil _⟩

theorem tidy_code {code outer : List Layer} (tidy : Tidy (code ++ outer))
    (isCode : ∀ layer ∈ code, layer.opener.isCode = true) :
    ∀ layer ∈ code, "base" ∉ layer.names := by
  induction code with
  | nil => exact List.forall_mem_nil _
  | cons first rest induction =>
      obtain ⟨firstCode, restCode⟩ := List.forall_mem_cons.1 isCode
      generalize same : first :: rest ++ outer = layers at tidy
      cases tidy with
      | nil => cases same
      | block absent others | routine absent others =>
          cases same
          exact List.forall_mem_cons.2 ⟨absent, induction others restCode⟩
      | plain absent others | derived absent others =>
          rw [(List.cons.inj same).1] at firstCode
          cases firstCode

end Quill.Scope
