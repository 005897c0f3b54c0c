import Quill.Proofs.Tree.Nodes
import Quill.Scope.Resolve

/-!
The scoping rules. Every node of a program stands at a place: inside scopes that each hold
some names there, and perhaps inside the expression of a declaration that is not complete.
What a place is depends only on the text around it: a scope holds its parameters and what
was declared in it textually earlier, and a class holds `this` and `base` for its methods.
The rules are stated for one node at its place.
-/

namespace Quill.Scope

set_option autoImplicit false

/-- What opens a scope. A routine that is a method comes with the name of its class. -/
inductive Opener where
  | block (body : List Stmt)
  | routine (className : Option Token) (decl : FunctionDecl)
  | receiver (className : Token) (derived : Bool)
  | base (className : Token)

namespace Opener

def routine? : Opener → Option (Option Token × FunctionDecl)
  | routine className decl => some (className, decl)
  | _ => none

def class? : Opener → Option (Token × Bool)
  | receiver className derived => some (className, derived)
  | _ => none

end Opener

structure Layer where
  opener : Opener
  names : List String

inductive Pending where
  | nothing
  | initializer (name : Token)
  | baseClause (name : Token)

def Pending.name? : Pending → Option Token
  | nothing => none
  | initializer name => some name
  | baseClause name => some name

structure Place where
  layers : List Layer
  pending : Pending

/-- A declaration belongs to the innermost scope. Outside of all scopes it is global, and no scope
is told of it. -/
def holding (name : Token) : List Layer → List Layer
  | [] => []
  | layer :: outer => { layer with names := name.lexeme :: layer.names } :: outer

def holdingAll (names : List Token) (layers : List Layer) : List Layer :=
  names.foldl (fun layers name => holding name layers) layers

def after (layers : List Layer) (stmt : Stmt) : List Layer :=
  match stmt.declared? with
  | some name => holding name layers
  | none => layers

def classLayers (className : Token) (derived : Bool) (layers : List Layer) : List Layer :=
  ⟨.receiver className derived, ["this"]⟩ ::
    if derived then ⟨.base className, ["base"]⟩ :: layers else layers

namespace Place

def plain (layers : List Layer) : Place := ⟨layers, .nothing⟩

/-- The scopes with the name that is being declared. The name is there before it is defined, and
hides outer ones from its own initializer. -/
def held (place : Place) : List Layer :=
  match place.pending.name? with
  | none => place.layers
  | some name => holding name place.layers

def routine? (place : Place) : Option (Option Token × FunctionDecl) :=
  place.layers.findSome? (·.opener.routine?)

def class? (place : Place) : Option (Token × Bool) :=
  place.layers.findSome? (·.opener.class?)

end Place

abbrev Position := Place × Node

def exprPositions (place : Place) (expr : Expr) : List Position :=
  expr.subterms.map fun term => (place, .expr term)

def optionPositions (place : Place) : Option Expr → List Position
  | some expr => exprPositions place expr
  | none => []

def parameterPositions (layers : List Layer) : List Token → List Position
  | [] => []
  | name :: rest => (.plain layers, .declaration name) :: parameterPositions (holding name layers) rest

mutual

/-- Where a statement and its parts stand. A block, a function and a class open layers, and a name
is held by its layer for all that comes behind its declaration. -/
def stmtPositions (layers : List Layer) : Stmt → List Position
  | .expression expr =>
      (.plain layers, .stmt (.expression expr)) :: exprPositions (.plain layers) expr
  | .varDecl name initializer =>
      (.plain layers, .stmt (.varDecl name initializer)) :: (.plain layers, .declaration name) ::
        optionPositions ⟨layers, .initializer name⟩ initializer
  | .functionDecl decl =>
      (.plain layers, .stmt (.functionDecl decl)) :: (.plain layers, .declaration decl.name) ::
        routinePositions none (holding decl.name layers) decl
  | .classDecl name base methods =>
      (.plain layers, .stmt (.classDecl name base methods)) :: (.plain layers, .declaration name) ::
        (optionPositions ⟨layers, .baseClause name⟩ base ++
          methodPositions name (classLayers name base.isSome (holding name layers)) methods)
  | .block body =>
      (.plain layers, .stmt (.block body)) :: bodyPositions (⟨.block body, []⟩ :: layers) body
  | .ifThen condition thenBranch =>
      (.plain layers, .stmt (.ifThen condition thenBranch)) ::
        (exprPositions (.plain layers) condition ++ stmtPositions layers thenBranch)
  | .ifElse condition thenBranch elseBranch =>
      (.plain layers, .stmt (.ifElse condition thenBranch elseBranch)) ::
        (exprPositions (.plain layers) condition ++ stmtPositions layers thenBranch ++
          stmtPositions layers elseBranch)
  | .whileLoop condition body =>
      (.plain layers, .stmt (.whileLoop condition body)) ::
        (exprPositions (.plain layers) condition ++ stmtPositions layers body)
  | .returnStmt keyword value =>
      (.plain layers, .stmt (.returnStmt keyword value)) :: optionPositions (.plain layers) value

def routinePositions (className : Option Token) (layers : List Layer) :
    FunctionDecl → List Position
  | ⟨name, parameters, body⟩ =>
      (.plain layers, .routine ⟨name, parameters, body⟩) ::
        (parameterPositions (⟨.routine className ⟨name, parameters, body⟩, []⟩ :: layers) parameters ++
          bodyPositions
            (holdingAll parameters (⟨.routine className ⟨name, parameters, body⟩, []⟩ :: layers)) body)

def methodPositions (className : Token) (layers : List Layer) : List FunctionDecl → List Position
  | [] => []
  | decl :: rest =>
      routinePositions (some className) layers decl ++ methodPositions className layers rest

def bodyPositions (layers : List Layer) : List Stmt → List Position
  | [] => [(.plain layers, .body [])]
  | stmt :: rest =>
      (.plain layers, .body (stmt :: rest)) ::
        (stmtPositions layers stmt ++ bodyPositions (after layers stmt) rest)

end

def positions (statements : List Stmt) : List Position := bodyPositions [] statements

theorem expr_positions_nodes (place : Place) (expr : Expr) :
    (exprPositions place expr).map Prod.snd = expr.nodes := by
  simp [exprPositions, Expr.nodes]

theorem option_positions_nodes (place : Place) (value : Option Expr) :
    (optionPositions place value).map Prod.snd = optionNodes value := by
  cases value with
  | none => rfl
  | some expr => exact expr_positions_nodes place expr

theorem parameter_positions_nodes (layers : List Layer) (names : List Token) :
    (parameterPositions layers names).map Prod.snd = names.map .declaration := by
  induction names generalizing layers with
  | nil => rfl
  | cons name rest induction => simp [parameterPositions, induction]

mutual

theorem stmt_positions_nodes (layers : List Layer) :
    (stmt : Stmt) → (stmtPositions layers stmt).map Prod.snd = stmt.nodes
  | .expression expr => by
      simp [stmtPositions, Stmt.nodes, expr_positions_nodes]
  | .varDecl name initializer => by
      simp [stmtPositions, Stmt.nodes, option_positions_nodes]
  | .functionDecl decl => by
      simp [stmtPositions, Stmt.nodes, routine_positions_nodes none _ decl]
  | .classDecl name base methods => by
      simp [stmtPositions, Stmt.nodes, option_positions_nodes, method_positions_nodes name _ methods]
  | .block body => by
      simp [stmtPositions, Stmt.nodes, body_positions_nodes _ body]
  | .ifThen condition thenBranch => by
      simp [stmtPositions, Stmt.nodes, expr_positions_nodes, stmt_positions_nodes _ thenBranch]
  | .ifElse condition thenBranch elseBranch => by
      simp [stmtPositions, Stmt.nodes, expr_positions_nodes, stmt_positions_nodes _ thenBranch,
        stmt_positions_nodes _ elseBranch]
  | .whileLoop condition body => by
      simp [stmtPositions, Stmt.nodes, expr_positions_nodes, stmt_positions_nodes _ body]
  | .returnStmt keyword value => by
      simp [stmtPositions, Stmt.nodes, option_positions_nodes]

theorem routine_positions_nodes (className : Option Token) (layers : List Layer) :
    (decl : FunctionDecl) → (routinePositions className layers decl).map Prod.snd = decl.nodes
  | ⟨name, parameters, body⟩ => by
      simp [routinePositions, FunctionDecl.nodes, parameter_positions_nodes,
        body_positions_nodes _ body]

theorem method_positions_nodes (className : Token) (layers : List Layer) :
    (decls : List FunctionDecl) →
      (methodPositions className layers decls).map Prod.snd = methodNodes decls
  | [] => rfl
  | decl :: rest => by
      simp [methodPositions, methodNodes, routine_positions_nodes _ _ decl,
        method_positions_nodes _ _ rest]

theorem body_positions_nodes (layers : List Layer) :
    (stmts : List Stmt) → (bodyPositions layers stmts).map Prod.snd = bodyNodes stmts
  | [] => rfl
  | stmt :: rest => by
      simp [bodyPositions, bodyNodes, stmt_positions_nodes _ stmt, body_positions_nodes _ rest]

end

def Place.inConstructor (place : Place) : Prop :=
  ∃ className decl, place.routine? = some (some className, decl) ∧
    decl.name.lexeme = className.lexeme

/-- `Violates place node`: the node breaks a rule at this place. The rules are told by the scopes
around the place, without the walk that finds them broken. -/
inductive Violates (place : Place) : Node → Prop where
  | strayReturn {keyword : Token} {value : Option Expr} (outside : place.routine? = none) :
      Violates place (.stmt (.returnStmt keyword value))
  | constructorValue {keyword : Token} {value : Expr} (inside : place.inConstructor) :
      Violates place (.stmt (.returnStmt keyword (some value)))
  | strayThis {id : Nat} {keyword : Token} (outside : place.class? = none) :
      Violates place (.expr (.thisRef id keyword))
  | strayBase {id : Nat} {keyword method : Token} (outside : place.class? = none) :
      Violates place (.expr (.baseRef id keyword method))
  | plainBase {id : Nat} {keyword method className : Token}
      (inside : place.class? = some (className, false)) :
      Violates place (.expr (.baseRef id keyword method))
  | selfBase {id : Nat} {name className : Token} (pending : place.pending = .baseClause className)
      (same : name.lexeme = className.lexeme) : Violates place (.expr (.variableRef id name))
  | duplicate {name : Token} {layer : Layer} {outer : List Layer}
      (inside : place.layers = layer :: outer) (earlier : name.lexeme ∈ layer.names) :
      Violates place (.declaration name)
  | ownInitializer {id : Nat} {name declared : Token} (inside : place.layers ≠ [])
      (pending : place.pending = .initializer declared) (same : declared.lexeme = name.lexeme) :
      Violates place (.expr (.variableRef id name))

def lookedUp? : Expr → Option String
  | .variableRef _ name => some name.lexeme
  | .assign _ name _ => some name.lexeme
  | .thisRef _ _ => some "this"
  | .baseRef _ _ _ => some "base"
  | _ => none

def NearestAt (layers : List Layer) (name : String) (distance : Nat) : Prop :=
  ∃ inner layer outer, layers = inner ++ layer :: outer ∧ name ∈ layer.names ∧
    (∀ other ∈ inner, name ∉ other.names) ∧ inner.length = distance

theorem nearest_at_cons (layer : Layer) (outer : List Layer) (name : String) (distance : Nat) :
    NearestAt (layer :: outer) name distance ↔
      name ∈ layer.names ∧ distance = 0 ∨
        name ∉ layer.names ∧ ∃ further, NearestAt outer name further ∧ further + 1 = distance := by
  constructor
  · intro nearest
    rcases nearest with ⟨inner, found, rest, split, member, before, rfl⟩
    cases inner with
    | nil =>
        cases split
        exact .inl ⟨member, rfl⟩
    | cons first inner =>
        cases split
        refine .inr ⟨before _ List.mem_cons_self, inner.length, ?_, rfl⟩
        exact ⟨inner, found, rest, rfl, member,
          fun other inside => before other (List.mem_cons_of_mem _ inside), rfl⟩
  · intro nearest
    rcases nearest with ⟨member, rfl⟩ |
      ⟨absent, further, ⟨inner, found, rest, rfl, member, before, rfl⟩, rfl⟩
    · exact ⟨[], layer, outer, rfl, member, by simp, rfl⟩
    · exact ⟨layer :: inner, found, rest, rfl, member, by simpa using ⟨absent, before⟩, rfl⟩

theorem nearest_holding {name : String} {token : Token} (different : name ≠ token.lexeme)
    (layers : List Layer) (distance : Nat) :
    NearestAt (holding token layers) name distance ↔ NearestAt layers name distance := by
  cases layers with
  | nil => rfl
  | cons layer outer =>
      rw [holding, nearest_at_cons, nearest_at_cons]
      simp [different]

/-- The name in the course of declaration does not matter to the others, since it opens no scope and
hides only itself. -/
theorem nearest_held {place : Place} {name : String}
    (declared : ∀ pending, place.pending.name? = some pending → pending.lexeme ≠ name)
    (distance : Nat) : NearestAt place.held name distance ↔ NearestAt place.layers name distance := by
  unfold Place.held
  cases pending : place.pending.name? with
  | none => rfl
  | some token => exact nearest_holding (declared token pending).symm _ _

end Quill.Scope
