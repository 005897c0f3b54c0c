import Quill.Bindings
import Quill.Diagnostic
import Quill.Scope.Fault
import Quill.Scope.Table
import Quill.Tree.Basic

/-!
Resolution: one walk over a program that keeps the scopes open at each place, records
the distance of every name to the scope that holds it, and reports all violations of
the scoping rules. Names at top level belong to no scope. A class opens a scope for
`this` around its methods and, if it has a base class, one for `base` around that.
-/

namespace Quill.Scope

set_option autoImplicit false

inductive Routine where
  | topLevel
  | function
  | method
  | constructor
deriving DecidableEq, Repr

inductive Owner where
  | outside
  | plain
  | derived
deriving DecidableEq, Repr

structure Context where
  routine : Routine
  owner : Owner
deriving DecidableEq, Repr

/-- Names of one scope. A name is held from its declaration on, and becomes readable
(`true`) when it is defined. -/
abbrev Names := Bindings Bool

structure Walk where
  scopes : List Names
  table : Table
  faults : List (Located Fault)

namespace Walk

def start : Walk := ⟨[], .empty, []⟩

def openScope (walk : Walk) : Walk :=
  { walk with scopes := .empty :: walk.scopes }

def closeScope (walk : Walk) : Walk :=
  { walk with scopes := walk.scopes.tail }

def violate (walk : Walk) (token : Token) (violation : Violation) : Walk :=
  { walk with faults := walk.faults ++ [⟨token.line, ⟨violation, token.lexeme⟩⟩] }

def violateIf (walk : Walk) (condition : Bool) (token : Token) (violation : Violation) : Walk :=
  if condition then walk.violate token violation else walk

def hold (walk : Walk) (name : String) (readable : Bool) : Walk :=
  match walk.scopes with
  | [] => walk
  | scope :: outer => { walk with scopes := scope.insert name readable :: outer }

def holds (walk : Walk) (name : String) : Bool :=
  (walk.scopes.head?.map (·.contains name)).getD false

def pending (walk : Walk) (name : String) : Bool :=
  (walk.scopes.head?.bind (·.get? name)) == some false

def declare (walk : Walk) (name : Token) : Walk :=
  (walk.hold name.lexeme false).violateIf (walk.holds name.lexeme) name .duplicate

def define (walk : Walk) (name : Token) : Walk :=
  walk.hold name.lexeme true

def introduce (walk : Walk) (name : Token) : Walk :=
  (walk.declare name).define name

def distance? (scopes : List Names) (name : String) : Option Nat :=
  scopes.findIdx? (·.contains name)

/-- Records the distance of a name for an expression, unless the name is global. -/
def bind (walk : Walk) (id : Nat) (name : Token) : Walk :=
  match distance? walk.scopes name.lexeme with
  | some distance => { walk with table := walk.table.insert id distance }
  | none => walk

end Walk

mutual

def walkExpr (owner : Owner) : Expr → Walk → Walk
  | .literal _ _, walk => walk
  | .grouping _ inner, walk => walkExpr owner inner walk
  | .unary _ _ right, walk => walkExpr owner right walk
  | .binary _ left _ right, walk => walkExpr owner right (walkExpr owner left walk)
  | .logical _ left _ right, walk => walkExpr owner right (walkExpr owner left walk)
  | .variableRef id name, walk =>
      (walk.violateIf (walk.pending name.lexeme) name .ownInitializer).bind id name
  | .thisRef id keyword, walk =>
      match owner with
      | .outside => walk.violate keyword .thisOutsideClass
      | _ => walk.bind id keyword
  | .baseRef id keyword _, walk =>
      match owner with
      | .outside => walk.violate keyword .baseOutsideClass
      | .plain => walk.violate keyword .baseWithoutParent
      | .derived => walk.bind id keyword
  | .assign id name value, walk => (walkExpr owner value walk).bind id name
  | .call _ callee _ arguments, walk => walkExprs owner arguments (walkExpr owner callee walk)
  | .get _ object _, walk => walkExpr owner object walk
  | .set _ object _ value, walk => walkExpr owner value (walkExpr owner object walk)

def walkExprs (owner : Owner) : List Expr → Walk → Walk
  | [], walk => walk
  | expr :: rest, walk => walkExprs owner rest (walkExpr owner expr walk)

end

def walkOption (owner : Owner) (expr : Option Expr) (walk : Walk) : Walk :=
  match expr with
  | some expr => walkExpr owner expr walk
  | none => walk

def checkBase (name : Token) (base : Expr) (walk : Walk) : Walk :=
  match base with
  | .variableRef _ baseName =>
      walk.violateIf (baseName.lexeme == name.lexeme) baseName .selfInheritance
  | _ => walk

def methodRoutine (className methodName : Token) : Routine :=
  if methodName.lexeme == className.lexeme then .constructor else .method

mutual

/-- The name of a variable is declared before its initializer is walked, and defined behind it.
Functions and classes are defined at once, so that they may use their own names. -/
def walkStmt (context : Context) : Stmt → Walk → Walk
  | .expression expr, walk => walkExpr context.owner expr walk
  | .varDecl name initializer, walk =>
      (walkOption context.owner initializer (walk.declare name)).define name
  | .functionDecl decl, walk =>
      walkFunction { context with routine := .function } decl (walk.introduce decl.name)
  | .classDecl name none methods, walk =>
      let opened := (walk.introduce name).openScope.hold "this" true
      (walkMethods { context with owner := .plain } name methods opened).closeScope
  | .classDecl name (some base) methods, walk =>
      let named := checkBase name base (walk.introduce name)
      let outer := (walkExpr .derived base named).openScope.hold "base" true
      let opened := outer.openScope.hold "this" true
      (walkMethods { context with owner := .derived } name methods opened).closeScope.closeScope
  | .block body, walk => (walkBody context body walk.openScope).closeScope
  | .ifThen condition thenBranch, walk =>
      walkStmt context thenBranch (walkExpr context.owner condition walk)
  | .ifElse condition thenBranch elseBranch, walk =>
      walkStmt context elseBranch
        (walkStmt context thenBranch (walkExpr context.owner condition walk))
  | .whileLoop condition body, walk =>
      walkStmt context body (walkExpr context.owner condition walk)
  | .returnStmt keyword value, walk =>
      let placed := walk.violateIf (context.routine == .topLevel) keyword .topLevelReturn
      let valued := placed.violateIf (value.isSome && context.routine == .constructor) keyword
        .constructorValue
      walkOption context.owner value valued

/-- A function body shares one scope with the parameters. -/
def walkFunction (context : Context) : FunctionDecl → Walk → Walk
  | ⟨_, parameters, body⟩, walk =>
      (walkBody context body (parameters.foldl Walk.introduce walk.openScope)).closeScope

def walkBody (context : Context) : List Stmt → Walk → Walk
  | [], walk => walk
  | stmt :: rest, walk => walkBody context rest (walkStmt context stmt walk)

def walkMethods (context : Context) (className : Token) : List FunctionDecl → Walk → Walk
  | [], walk => walk
  | decl :: rest, walk =>
      walkMethods context className rest
        (walkFunction { context with routine := methodRoutine className decl.name } decl walk)

end

/-- The binding table of a program, or all its violations in the order of the walk. -/
def resolve (statements : List Stmt) : Except (List (Located Fault)) Table :=
  let walk := walkBody ⟨.topLevel, .outside⟩ statements .start
  if walk.faults.isEmpty then .ok walk.table else .error walk.faults

end Quill.Scope
