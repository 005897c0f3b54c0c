import Quill.Proofs.Scope.Rules

/-!
What the walk sees where. A visit is a node together with the state in which the walk comes
to it and the constructs whose scopes it has open there. Visits are listed from the walk's
own functions, so the state of each is the one the walk is really in.
-/

namespace Quill.Scope

set_option autoImplicit false

structure Visit where
  openers : List Opener
  walk : Walk
  node : Node

mutual

def exprVisits (openers : List Opener) (owner : Owner) : Expr → Walk → List Visit
  | .literal id value, walk => [⟨openers, walk, .expr (.literal id value)⟩]
  | .grouping id inner, walk =>
      ⟨openers, walk, .expr (.grouping id inner)⟩ :: exprVisits openers owner inner walk
  | .unary id operator right, walk =>
      ⟨openers, walk, .expr (.unary id operator right)⟩ :: exprVisits openers owner right walk
  | .binary id left operator right, walk =>
      ⟨openers, walk, .expr (.binary id left operator right)⟩ ::
        (exprVisits openers owner left walk ++
          exprVisits openers owner right (walkExpr owner left walk))
  | .logical id left operator right, walk =>
      ⟨openers, walk, .expr (.logical id left operator right)⟩ ::
        (exprVisits openers owner left walk ++
          exprVisits openers owner right (walkExpr owner left walk))
  | .variableRef id name, walk => [⟨openers, walk, .expr (.variableRef id name)⟩]
  | .thisRef id keyword, walk => [⟨openers, walk, .expr (.thisRef id keyword)⟩]
  | .baseRef id keyword method, walk => [⟨openers, walk, .expr (.baseRef id keyword method)⟩]
  | .assign id name value, walk =>
      ⟨openers, walk, .expr (.assign id name value)⟩ :: exprVisits openers owner value walk
  | .call id callee paren given, walk =>
      ⟨openers, walk, .expr (.call id callee paren given)⟩ ::
        (exprVisits openers owner callee walk ++
          exprsVisits openers owner given (walkExpr owner callee walk))
  | .get id object name, walk =>
      ⟨openers, walk, .expr (.get id object name)⟩ :: exprVisits openers owner object walk
  | .set id object name value, walk =>
      ⟨openers, walk, .expr (.set id object name value)⟩ ::
        (exprVisits openers owner object walk ++
          exprVisits openers owner value (walkExpr owner object walk))

def exprsVisits (openers : List Opener) (owner : Owner) : List Expr → Walk → List Visit
  | [], _ => []
  | expr :: rest, walk =>
      exprVisits openers owner expr walk ++
        exprsVisits openers owner rest (walkExpr owner expr walk)

end

def optionVisits (openers : List Opener) (owner : Owner) (value : Option Expr) (walk : Walk) :
    List Visit :=
  match value with
  | some expr => exprVisits openers owner expr walk
  | none => []

def parameterVisits (openers : List Opener) : List Token → Walk → List Visit
  | [], _ => []
  | name :: rest, walk =>
      ⟨openers, walk, .declaration name⟩ :: parameterVisits openers rest (walk.introduce name)

mutual

/-- The walk of a statement as a list of visits, one for each node that the walk comes to, with what
the walk was like there. It runs beside the walk and changes nothing about it. -/
def stmtVisits (openers : List Opener) (context : Context) : Stmt → Walk → List Visit
  | .expression expr, walk =>
      ⟨openers, walk, .stmt (.expression expr)⟩ :: exprVisits openers context.owner expr walk
  | .varDecl name initializer, walk =>
      ⟨openers, walk, .stmt (.varDecl name initializer)⟩ :: ⟨openers, walk, .declaration name⟩ ::
        optionVisits openers context.owner initializer (walk.declare name)
  | .functionDecl decl, walk =>
      ⟨openers, walk, .stmt (.functionDecl decl)⟩ :: ⟨openers, walk, .declaration decl.name⟩ ::
        routineVisits none openers { context with routine := .function } decl
          (walk.introduce decl.name)
  | .classDecl name none methods, walk =>
      let opened := (walk.introduce name).openScope.hold "this" true
      ⟨openers, walk, .stmt (.classDecl name none methods)⟩ :: ⟨openers, walk, .declaration name⟩ ::
        methodVisits (.receiver name false :: openers) { context with owner := .plain } name
          methods opened
  | .classDecl name (some base) methods, walk =>
      let named := checkBase name base (walk.introduce name)
      let outer := (walkExpr .derived base named).openScope.hold "base" true
      let opened := outer.openScope.hold "this" true
      ⟨openers, walk, .stmt (.classDecl name (some base) methods)⟩ ::
        ⟨openers, walk, .declaration name⟩ ::
          (exprVisits openers .derived base named ++
            methodVisits (.receiver name true :: .base name :: openers)
              { context with owner := .derived } name methods opened)
  | .block body, walk =>
      ⟨openers, walk, .stmt (.block body)⟩ ::
        bodyVisits (.block body :: openers) context body walk.openScope
  | .ifThen condition thenBranch, walk =>
      ⟨openers, walk, .stmt (.ifThen condition thenBranch)⟩ ::
        (exprVisits openers context.owner condition walk ++
          stmtVisits openers context thenBranch (walkExpr context.owner condition walk))
  | .ifElse condition thenBranch elseBranch, walk =>
      let tested := walkExpr context.owner condition walk
      ⟨openers, walk, .stmt (.ifElse condition thenBranch elseBranch)⟩ ::
        (exprVisits openers context.owner condition walk ++
          stmtVisits openers context thenBranch tested ++
            stmtVisits openers context elseBranch (walkStmt context thenBranch tested))
  | .whileLoop condition body, walk =>
      ⟨openers, walk, .stmt (.whileLoop condition body)⟩ ::
        (exprVisits openers context.owner condition walk ++
          stmtVisits openers context body (walkExpr context.owner condition walk))
  | .returnStmt keyword value, walk =>
      let placed := walk.violateIf (context.routine == .topLevel) keyword .topLevelReturn
      let valued := placed.violateIf (value.isSome && context.routine == .constructor) keyword
        .constructorValue
      ⟨openers, walk, .stmt (.returnStmt keyword value)⟩ ::
        optionVisits openers context.owner value valued

def routineVisits (className : Option Token) (openers : List Opener) (context : Context) :
    FunctionDecl → Walk → List Visit
  | ⟨name, parameters, body⟩, walk =>
      let inside := .routine className ⟨name, parameters, body⟩ :: openers
      ⟨openers, walk, .routine ⟨name, parameters, body⟩⟩ ::
        (parameterVisits inside parameters walk.openScope ++
          bodyVisits inside context body (parameters.foldl Walk.introduce walk.openScope))

def methodVisits (openers : List Opener) (context : Context) (className : Token) :
    List FunctionDecl → Walk → List Visit
  | [], _ => []
  | decl :: rest, walk =>
      let inside := { context with routine := methodRoutine className decl.name }
      routineVisits (some className) openers inside decl walk ++
        methodVisits openers context className rest (walkFunction inside decl walk)

def bodyVisits (openers : List Opener) (context : Context) : List Stmt → Walk → List Visit
  | [], walk => [⟨openers, walk, .body []⟩]
  | stmt :: rest, walk =>
      ⟨openers, walk, .body (stmt :: rest)⟩ ::
        (stmtVisits openers context stmt walk ++
          bodyVisits openers context rest (walkStmt context stmt walk))

end

def visits (statements : List Stmt) : List Visit :=
  bodyVisits [] ⟨.topLevel, .outside⟩ statements .start

def Layer.openers (layers : List Layer) : List Opener := layers.map Layer.opener

structure Visit.At (visit : Visit) (position : Position) : Prop where
  node : visit.node = position.2
  openers : visit.openers = Layer.openers position.1.layers
  placed : Placed visit.walk position.1

/-- The walk comes to every position, and to nothing else. Each visit has the scopes of the position
open, as its layers say. -/
structure Seen (visits : List Visit) (positions : List Position) : Prop where
  met : ∀ position ∈ positions, ∃ visit ∈ visits, visit.At position
  positioned : ∀ visit ∈ visits, ∃ position ∈ positions, visit.At position

theorem seen_nil : Seen [] [] := by
  constructor <;> intro _ member <;> cases member

theorem seen_append {left right : List Visit} {early late : List Position}
    (first : Seen left early) (second : Seen right late) : Seen (left ++ right) (early ++ late) := by
  constructor
  · intro position member
    rcases List.mem_append.1 member with inEarly | inLate
    · obtain ⟨visit, seen, isAt⟩ := first.met position inEarly
      exact ⟨visit, List.mem_append_left _ seen, isAt⟩
    · obtain ⟨visit, seen, isAt⟩ := second.met position inLate
      exact ⟨visit, List.mem_append_right _ seen, isAt⟩
  · intro visit member
    rcases List.mem_append.1 member with inLeft | inRight
    · obtain ⟨position, listed, isAt⟩ := first.positioned visit inLeft
      exact ⟨position, List.mem_append_left _ listed, isAt⟩
    · obtain ⟨position, listed, isAt⟩ := second.positioned visit inRight
      exact ⟨position, List.mem_append_right _ listed, isAt⟩

theorem seen_one {walk : Walk} {place : Place} (node : Node) (placed : Placed walk place) :
    Seen [⟨Layer.openers place.layers, walk, node⟩] [(place, node)] := by
  have isAt : Visit.At ⟨Layer.openers place.layers, walk, node⟩ (place, node) := ⟨rfl, rfl, placed⟩
  constructor
  · intro position member
    rw [List.mem_singleton.1 member]
    exact ⟨_, List.mem_singleton_self _, isAt⟩
  · intro visit member
    rw [List.mem_singleton.1 member]
    exact ⟨_, List.mem_singleton_self _, isAt⟩

theorem seen_cons {walk : Walk} {place : Place} {node : Node} {rest : List Visit}
    {others : List Position} (placed : Placed walk place) (seen : Seen rest others) :
    Seen (⟨Layer.openers place.layers, walk, node⟩ :: rest) ((place, node) :: others) :=
  seen_append (seen_one node placed) seen

/-- The walk meets an expression before its parts, which are listed before it. -/
theorem seen_last {walk : Walk} {place : Place} {node : Node} {rest : List Visit}
    {others : List Position} (placed : Placed walk place) (seen : Seen rest others) :
    Seen (⟨Layer.openers place.layers, walk, node⟩ :: rest) (others ++ [(place, node)]) := by
  have inFront := seen_append (seen_one node placed) seen
  constructor
  · intro position member
    apply inFront.met
    exact List.mem_append.2 (List.mem_append.1 member).symm
  · intro visit member
    obtain ⟨position, listed, isAt⟩ := inFront.positioned visit member
    exact ⟨position, List.mem_append.2 (List.mem_append.1 listed).symm, isAt⟩

mutual

theorem expr_seen {place : Place} (owner : Owner) : (expr : Expr) → {walk : Walk} →
    Placed walk place →
      Seen (exprVisits (Layer.openers place.layers) owner expr walk) (exprPositions place expr)
  | .literal _ _, walk, placed => seen_one _ placed
  | .grouping _ inner, walk, placed => by
      simp only [exprPositions, Expr.subterms, List.map_append]
      exact seen_last placed (expr_seen owner inner placed)
  | .unary _ _ right, walk, placed => by
      simp only [exprPositions, Expr.subterms, List.map_append]
      exact seen_last placed (expr_seen owner right placed)
  | .binary _ left _ right, walk, placed
  | .logical _ left _ right, walk, placed => by
      simp only [exprPositions, Expr.subterms, List.map_append]
      have kept := placed.of_scopes (walk_expr_scopes owner left walk)
      exact seen_last placed (seen_append (expr_seen owner left placed) (expr_seen owner right kept))
  | .variableRef _ _, walk, placed => seen_one _ placed
  | .thisRef _ _, walk, placed => seen_one _ placed
  | .baseRef _ _ _, walk, placed => seen_one _ placed
  | .assign _ _ value, walk, placed => by
      simp only [exprPositions, Expr.subterms, List.map_append]
      exact seen_last placed (expr_seen owner value placed)
  | .call _ callee _ given, walk, placed => by
      simp only [exprPositions, Expr.subterms, List.map_append]
      have kept := placed.of_scopes (walk_expr_scopes owner callee walk)
      exact seen_last placed
        (seen_append (expr_seen owner callee placed) (exprs_seen owner given kept))
  | .get _ object _, walk, placed => by
      simp only [exprPositions, Expr.subterms, List.map_append]
      exact seen_last placed (expr_seen owner object placed)
  | .set _ object _ value, walk, placed => by
      simp only [exprPositions, Expr.subterms, List.map_append]
      have kept := placed.of_scopes (walk_expr_scopes owner object walk)
      exact seen_last placed
        (seen_append (expr_seen owner object placed) (expr_seen owner value kept))

theorem exprs_seen {place : Place} (owner : Owner) : (exprs : List Expr) → {walk : Walk} →
    Placed walk place →
      Seen (exprsVisits (Layer.openers place.layers) owner exprs walk)
        ((subtermsOf exprs).map fun term => (place, .expr term))
  | [], _, _ => seen_nil
  | expr :: rest, walk, placed => by
      simp only [subtermsOf, List.map_append]
      have kept := placed.of_scopes (walk_expr_scopes owner expr walk)
      exact seen_append (expr_seen owner expr placed) (exprs_seen owner rest kept)

end

theorem option_seen {place : Place} (owner : Owner) (value : Option Expr) {walk : Walk}
    (placed : Placed walk place) :
    Seen (optionVisits (Layer.openers place.layers) owner value walk)
      (optionPositions place value) := by
  cases value with
  | none => exact seen_nil
  | some expr => exact expr_seen owner expr placed

theorem parameters_seen {layers : List Layer} {walk : Walk} (agrees : Matches walk.scopes layers)
    (names : List Token) :
    Seen (parameterVisits (Layer.openers layers) names walk) (parameterPositions layers names) := by
  induction names generalizing walk layers with
  | nil => exact seen_nil
  | cons name rest induction =>
      have others := induction (introduce_follows agrees name).agrees
      unfold Layer.openers at others
      rw [holding_openers] at others
      exact seen_cons (matches_placed agrees) others

mutual

/-- The visits of a statement are to its positions and to no others. At each of them the walk has
the scopes open that the layers of the position tell. -/
theorem stmt_seen {layers : List Layer} : (stmt : Stmt) → {walk : Walk} →
    Node.AllWellFormed Token.Spelled stmt.nodes → Matches walk.scopes layers →
      Seen (stmtVisits (Layer.openers layers) (contextOf layers) stmt walk)
        (stmtPositions layers stmt)
  | .expression expr, walk, formed, agrees =>
      seen_cons (matches_placed agrees) (expr_seen _ expr (matches_placed agrees))
  | .varDecl name initializer, walk, formed, agrees => by
      have placed := (matches_placed_initializer agrees name).of_scopes (declare_scopes walk name)
      exact seen_cons (matches_placed agrees)
        (seen_cons (matches_placed agrees) (option_seen _ initializer placed))
  | .functionDecl decl, walk, formed, agrees => by
      simp only [Stmt.nodes, Node.all_well_formed_cons] at formed
      have named := introduce_follows agrees decl.name
      have inside := routine_seen none decl formed.2.2 named.agrees
      unfold Layer.openers at inside
      rw [holding_openers, context_of_openers (holding_openers decl.name layers)] at inside
      exact seen_cons (matches_placed agrees) (seen_cons (matches_placed agrees) inside)
  | .classDecl name none methods, walk, formed, agrees => by
      simp only [Stmt.nodes, optionNodes, List.nil_append, Node.all_well_formed_cons] at formed
      have named := introduce_follows agrees name
      have opened : Matches _ (classLayers name false (holding name layers)) :=
        open_hold_agrees named.agrees (.receiver name false) "this"
      have inside := methods_seen name methods formed.2.2 opened
      rw [context_class_layers] at inside
      have openers : Layer.openers (classLayers name false (holding name layers)) =
          .receiver name false :: Layer.openers layers :=
        congrArg (List.cons _) (holding_openers name layers)
      rw [openers] at inside
      exact seen_cons (matches_placed agrees) (seen_cons (matches_placed agrees) inside)
  | .classDecl name (some base) methods, walk, formed, agrees => by
      simp only [Stmt.nodes, optionNodes, Node.all_well_formed_cons,
        Node.all_well_formed_append] at formed
      rcases formed with ⟨isVariable, -, -, methodsFormed⟩
      rcases isVariable with ⟨id, baseName, rfl⟩
      have named := introduce_follows agrees name
      have checked := check_base_agrees name (.variableRef id baseName) named.agrees
      have based := expr_seen .derived (.variableRef id baseName) (matches_placed_base checked)
      have kept := walk_expr_agrees .derived (.variableRef id baseName) checked
      have opened : Matches _ (classLayers name true (holding name layers)) :=
        open_hold_agrees (open_hold_agrees kept (.base name) "base") (.receiver name true) "this"
      have inside := methods_seen name methods methodsFormed opened
      rw [context_class_layers] at inside
      have openers : Layer.openers (classLayers name true (holding name layers)) =
          .receiver name true :: .base name :: Layer.openers layers :=
        congrArg (fun outer => _ :: _ :: outer) (holding_openers name layers)
      rw [openers] at inside
      exact seen_cons (matches_placed agrees)
        (seen_cons (matches_placed agrees) (seen_append based inside))
  | .block body, walk, formed, agrees => by
      simp only [Stmt.nodes, Node.all_well_formed_cons] at formed
      exact seen_cons (matches_placed agrees)
        (body_seen body formed.2 (open_agrees agrees (.block body)))
  | .ifThen condition thenBranch, walk, formed, agrees => by
      simp only [Stmt.nodes, Node.all_well_formed_cons, Node.all_well_formed_append] at formed
      have tested := expr_seen (contextOf layers).owner condition (matches_placed agrees)
      have kept := walk_expr_agrees (contextOf layers).owner condition agrees
      exact seen_cons (matches_placed agrees)
        (seen_append tested (stmt_seen thenBranch formed.2.2 kept))
  | .ifElse condition thenBranch elseBranch, walk, formed, agrees => by
      simp only [Stmt.nodes, Node.all_well_formed_cons, Node.all_well_formed_append] at formed
      rcases formed with ⟨undeclared, ⟨conditionFormed, thenFormed⟩, elseFormed⟩
      have tested := expr_seen (contextOf layers).owner condition (matches_placed agrees)
      have kept := walk_expr_agrees (contextOf layers).owner condition agrees
      have taken := walk_stmt_follows thenBranch thenFormed kept
      rw [after_undeclared undeclared.1] at taken
      exact seen_cons (matches_placed agrees)
        (seen_append (seen_append tested (stmt_seen thenBranch thenFormed kept))
          (stmt_seen elseBranch elseFormed taken.agrees))
  | .whileLoop condition body, walk, formed, agrees => by
      simp only [Stmt.nodes, Node.all_well_formed_cons, Node.all_well_formed_append] at formed
      have tested := expr_seen (contextOf layers).owner condition (matches_placed agrees)
      have kept := walk_expr_agrees (contextOf layers).owner condition agrees
      exact seen_cons (matches_placed agrees)
        (seen_append tested (stmt_seen body formed.2.2 kept))
  | .returnStmt keyword value, walk, formed, agrees => by
      have sameScopes := return_scopes walk ((contextOf layers).routine == .topLevel)
        (value.isSome && (contextOf layers).routine == .constructor) keyword
      exact seen_cons (matches_placed agrees)
        (option_seen _ value ((matches_placed agrees).of_scopes sameScopes))

theorem routine_seen {layers : List Layer} (className : Option Token) :
    (decl : FunctionDecl) → {walk : Walk} →
    Node.AllWellFormed Token.Spelled decl.nodes → Matches walk.scopes layers →
      Seen (routineVisits className (Layer.openers layers)
          ⟨(className.map (methodRoutine · decl.name)).getD .function, (contextOf layers).owner⟩
            decl walk)
        (routinePositions className layers decl)
  | ⟨name, parameters, body⟩, walk, formed, agrees => by
      simp only [FunctionDecl.nodes, Node.all_well_formed_cons, Node.all_well_formed_append] at formed
      have opened := open_agrees agrees (.routine className ⟨name, parameters, body⟩)
      have declared := parameters_follow opened parameters
      have inside := body_seen body formed.2.2 declared.agrees
      unfold Layer.openers at inside
      rw [holding_all_openers, context_of_openers (holding_all_openers parameters _),
        context_routine] at inside
      exact seen_cons (matches_placed agrees)
        (seen_append (parameters_seen opened parameters) inside)

theorem methods_seen {layers : List Layer} (className : Token) :
    (decls : List FunctionDecl) → {walk : Walk} →
    Node.AllWellFormed Token.Spelled (methodNodes decls) → Matches walk.scopes layers →
      Seen (methodVisits (Layer.openers layers) (contextOf layers) className decls walk)
        (methodPositions className layers decls)
  | [], _, _, _ => seen_nil
  | decl :: rest, walk, formed, agrees => by
      simp only [methodNodes, Node.all_well_formed_append] at formed
      have first := walk_routine_follows (some className) decl formed.1 agrees
      exact seen_append (routine_seen (some className) decl formed.1 agrees)
        (methods_seen className rest formed.2 first.agrees)

theorem body_seen {layers : List Layer} : (stmts : List Stmt) → {walk : Walk} →
    Node.AllWellFormed Token.Spelled (bodyNodes stmts) → Matches walk.scopes layers →
      Seen (bodyVisits (Layer.openers layers) (contextOf layers) stmts walk)
        (bodyPositions layers stmts)
  | [], walk, _, agrees => seen_one _ (matches_placed agrees)
  | stmt :: rest, walk, formed, agrees => by
      simp only [bodyNodes, Node.all_well_formed_cons, Node.all_well_formed_append] at formed
      have first := walk_stmt_follows stmt formed.2.1 agrees
      have others := body_seen rest formed.2.2 first.agrees
      unfold Layer.openers at others
      rw [after_openers, context_of_openers (after_openers layers stmt)] at others
      exact seen_cons (matches_placed agrees)
        (seen_append (stmt_seen stmt formed.2.1 agrees) others)

end

theorem positions_seen {statements : List Stmt} (made : WellMade statements) :
    Seen (visits statements) (positions statements) := by
  have agrees : Matches Walk.start.scopes [] := .nil
  exact body_seen statements made.formed agrees

end Quill.Scope
