import Quill.Token.Basic

/-!
Programs as trees. Every expression carries a number, under which a binding table may
say how many scopes lie between the expression and the binding it names. Statements
and function declarations contain each other.
-/

namespace Quill

set_option autoImplicit false

/-- A number is kept as the pattern of its double, which tells apart even those that
compare alike. -/
inductive Literal where
  | nil
  | boolean (truth : Bool)
  | number (bits : UInt64)
  | text (value : String)
deriving Inhabited

/-- A call keeps its closing parenthesis, on whose line its faults are reported. -/
inductive Expr where
  | literal (id : Nat) (value : Literal)
  | grouping (id : Nat) (inner : Expr)
  | unary (id : Nat) (operator : Token) (right : Expr)
  | binary (id : Nat) (left : Expr) (operator : Token) (right : Expr)
  | logical (id : Nat) (left : Expr) (operator : Token) (right : Expr)
  | variableRef (id : Nat) (name : Token)
  | thisRef (id : Nat) (keyword : Token)
  | baseRef (id : Nat) (keyword method : Token)
  | assign (id : Nat) (name : Token) (value : Expr)
  | call (id : Nat) (callee : Expr) (paren : Token) (arguments : List Expr)
  | get (id : Nat) (object : Expr) (name : Token)
  | set (id : Nat) (object : Expr) (name : Token) (value : Expr)
deriving Inhabited

def Expr.id : Expr → Nat
  | literal id _ => id
  | grouping id _ => id
  | unary id _ _ => id
  | binary id _ _ _ => id
  | logical id _ _ _ => id
  | variableRef id _ => id
  | thisRef id _ => id
  | baseRef id _ _ => id
  | assign id _ _ => id
  | call id _ _ _ => id
  | get id _ _ => id
  | set id _ _ _ => id

mutual

/-- There is no statement for counting loops: they are written with blocks and
conditional loops. -/
inductive Stmt where
  | expression (expr : Expr)
  | varDecl (name : Token) (initializer : Option Expr)
  | functionDecl (decl : FunctionDecl)
  | classDecl (name : Token) (base : Option Expr) (methods : List FunctionDecl)
  | block (body : List Stmt)
  | ifThen (condition : Expr) (thenBranch : Stmt)
  | ifElse (condition : Expr) (thenBranch elseBranch : Stmt)
  | whileLoop (condition : Expr) (body : Stmt)
  | returnStmt (keyword : Token) (value : Option Expr)

structure FunctionDecl where
  name : Token
  parameters : List Token
  body : List Stmt

end

/-- A counting loop: the initializer runs once in a scope around the loop, and the
increment after each run of the body, in a scope of its own with the body. -/
def Stmt.forLoop (initializer : Option Stmt) (condition : Expr) (increment : Option Expr)
    (body : Stmt) : Stmt :=
  let body := match increment with
    | some increment => .block [body, .expression increment]
    | none => body
  let loop := .whileLoop condition body
  match initializer with
  | some initializer => .block [initializer, loop]
  | none => loop

instance : Inhabited Stmt := ⟨.block []⟩

instance : Inhabited FunctionDecl := ⟨⟨default, [], []⟩⟩

end Quill
