import Quill.Proofs.Scope.Place
import Quill.Proofs.Tree.Formed

/-!
How the positions of a program lie in one another. Whatever lies below a node that is among
them is among them too; the scopes around a node are nested as the grammar allows, so that
`this` and `base` are held by the scopes of classes only; and an expression is found again
by its number.
-/

namespace Quill

set_option autoImplicit false

mutual

theorem subterms_subset (inner : Expr) : (outer : Expr) → inner ∈ outer.subterms →
    inner.subterms ⊆ outer.subterms
  | .literal id value, member => by simp_all [Expr.subterms]
  | .grouping id content, member => by
      have below := subterms_subset inner content
      grind [Expr.subterms]
  | .unary id operator right, member => by
      have below := subterms_subset inner right
      grind [Expr.subterms]
  | .binary id left operator right, member
  | .logical id left operator right, member => by
      have first := subterms_subset inner left
      have second := subterms_subset inner right
      grind [Expr.subterms]
  | .variableRef id name, member => by simp_all [Expr.subterms]
  | .thisRef id keyword, member => by simp_all [Expr.subterms]
  | .baseRef id keyword method, member => by simp_all [Expr.subterms]
  | .assign id name value, member => by
      have below := subterms_subset inner value
      grind [Expr.subterms]
  | .call id callee paren given, member => by
      have first := subterms_subset inner callee
      have others := subterms_of_subset inner given
      grind [Expr.subterms]
  | .get id object name, member => by
      have below := subterms_subset inner object
      grind [Expr.subterms]
  | .set id object name value, member => by
      have first := subterms_subset inner object
      have second := subterms_subset inner value
      grind [Expr.subterms]

theorem subterms_of_subset (inner : Expr) : (outer : List Expr) → inner ∈ subtermsOf outer →
    inner.subterms ⊆ subtermsOf outer
  | [], member => by simp [subtermsOf] at member
  | expr :: rest, member => by
      have first := subterms_subset inner expr
      have others := subterms_of_subset inner rest
      grind [subtermsOf]

end

theorem subterms_of_mem {expr : Expr} {exprs : List Expr} (member : expr ∈ exprs) :
    expr ∈ subtermsOf exprs := by
  induction exprs with
  | nil => cases member
  | cons first rest induction =>
      rw [subtermsOf]
      rcases List.mem_cons.1 member with rfl | later
      · exact List.mem_append_left _ expr.self_mem_subterms
      · exact List.mem_append_right _ (induction later)

namespace Scope

def below (place : Place) : Node → List Position
  | .expr term => exprPositions place term
  | .stmt clause => stmtPositions place.layers clause
  | .body clauses => bodyPositions place.layers clauses
  | .routine _ => []
  | .declaration _ => []

def Closed (positions : List Position) : Prop :=
  ∀ position ∈ positions, below position.1 position.2 ⊆ positions

theorem closed_append {left right : List Position} (leftClosed : Closed left)
    (rightClosed : Closed right) : Closed (left ++ right) := by
  intro position member
  rcases List.mem_append.1 member with inLeft | inRight
  · exact List.Subset.trans (leftClosed position inLeft) (List.subset_append_left _ _)
  · exact List.Subset.trans (rightClosed position inRight) (List.subset_append_right _ _)

theorem closed_cons {first : Position} {rest : List Position}
    (whole : below first.1 first.2 ⊆ first :: rest) (closed : Closed rest) :
    Closed (first :: rest) := by
  intro position member
  rcases List.mem_cons.1 member with rfl | inRest
  · exact whole
  · exact List.Subset.trans (closed position inRest) (List.subset_cons_self _ _)

theorem expr_closed (place : Place) (expr : Expr) : Closed (exprPositions place expr) := by
  intro position member
  obtain ⟨term, inside, rfl⟩ := List.mem_map.1 member
  exact List.map_subset _ (subterms_subset term expr inside)

theorem option_closed (place : Place) (value : Option Expr) :
    Closed (optionPositions place value) := by
  cases value with
  | none => simp [Closed, optionPositions]
  | some expr => exact expr_closed place expr

theorem declaration_closed {place : Place} {name : Token} {rest : List Position}
    (closed : Closed rest) : Closed ((place, .declaration name) :: rest) :=
  closed_cons (List.nil_subset _) closed

theorem parameters_closed (layers : List Layer) (names : List Token) :
    Closed (parameterPositions layers names) := by
  induction names generalizing layers with
  | nil => simp [Closed, parameterPositions]
  | cons name rest induction => exact declaration_closed (induction _)

mutual

theorem stmt_closed (layers : List Layer) : (stmt : Stmt) → Closed (stmtPositions layers stmt)
  | .expression expr => closed_cons (List.Subset.refl _) (expr_closed _ expr)
  | .varDecl _ initializer =>
      closed_cons (List.Subset.refl _) (declaration_closed (option_closed _ initializer))
  | .functionDecl decl =>
      closed_cons (List.Subset.refl _) (declaration_closed (routine_closed none _ decl))
  | .classDecl name base methods =>
      closed_cons (List.Subset.refl _) (declaration_closed
        (closed_append (option_closed _ base) (methods_closed name _ methods)))
  | .block body => closed_cons (List.Subset.refl _) (body_closed _ body)
  | .ifThen condition thenBranch =>
      closed_cons (List.Subset.refl _)
        (closed_append (expr_closed _ condition) (stmt_closed layers thenBranch))
  | .ifElse condition thenBranch elseBranch =>
      closed_cons (List.Subset.refl _)
        (closed_append (closed_append (expr_closed _ condition) (stmt_closed layers thenBranch))
          (stmt_closed layers elseBranch))
  | .whileLoop condition body =>
      closed_cons (List.Subset.refl _)
        (closed_append (expr_closed _ condition) (stmt_closed layers body))
  | .returnStmt _ value => closed_cons (List.Subset.refl _) (option_closed _ value)

theorem routine_closed (className : Option Token) (layers : List Layer) :
    (decl : FunctionDecl) → Closed (routinePositions className layers decl)
  | ⟨_, parameters, body⟩ =>
      closed_cons (List.nil_subset _)
        (closed_append (parameters_closed _ parameters) (body_closed _ body))

theorem methods_closed (className : Token) (layers : List Layer) :
    (decls : List FunctionDecl) → Closed (methodPositions className layers decls)
  | [] => by simp [Closed, methodPositions]
  | decl :: rest =>
      closed_append (routine_closed _ layers decl) (methods_closed className layers rest)

theorem body_closed (layers : List Layer) : (stmts : List Stmt) → Closed (bodyPositions layers stmts)
  | [] => closed_cons (List.Subset.refl _) (by simp [Closed])
  | stmt :: rest =>
      closed_cons (List.Subset.refl _) (closed_append (stmt_closed layers stmt) (body_closed _ rest))

end

theorem below_subset {statements : List Stmt} {place : Place} {node : Node}
    (member : (place, node) ∈ positions statements) : below place node ⊆ positions statements :=
  body_closed [] statements _ member

theorem body_mem (layers : List Layer) (stmts : List Stmt) :
    (.plain layers, .body stmts) ∈ bodyPositions layers stmts := by
  cases stmts <;> simp [bodyPositions]

theorem method_subset {className : Token} {layers : List Layer} {decl : FunctionDecl}
    {decls : List FunctionDecl} (member : decl ∈ decls) :
    routinePositions (some className) layers decl ⊆ methodPositions className layers decls := by
  induction decls with
  | nil => cases member
  | cons first rest induction =>
      rw [methodPositions]
      rcases List.mem_cons.1 member with rfl | later
      · exact List.subset_append_left _ _
      · exact List.Subset.trans (induction later) (List.subset_append_right _ _)

/-- Scopes nested as the grammar allows: `base` is held by the scope of a base class only,
and directly inside that lies the scope of the class derived from it. -/
inductive Tidy : List Layer → Prop where
  | nil : Tidy []
  | block {body : List Stmt} {names : List String} {outer : List Layer}
      (ordinary : "base" ∉ names) (rest : Tidy outer) : Tidy (⟨.block body, names⟩ :: outer)
  | routine {className : Option Token} {decl : FunctionDecl} {names : List String}
      {outer : List Layer} (ordinary : "base" ∉ names) (rest : Tidy outer) :
      Tidy (⟨.routine className decl, names⟩ :: outer)
  | plain {className : Token} {names : List String} {outer : List Layer}
      (ordinary : "base" ∉ names) (rest : Tidy outer) :
      Tidy (⟨.receiver className false, names⟩ :: outer)
  | derived {className : Token} {names : List String} {outer : List Layer}
      (ordinary : "base" ∉ names) (rest : Tidy outer) :
      Tidy (⟨.receiver className true, names⟩ :: ⟨.base className, ["base"]⟩ :: outer)

theorem tidy_holding {layers : List Layer} {name : Token} (tidy : Tidy layers)
    (ordinary : Token.Ordinary name.lexeme) : Tidy (holding name layers) := by
  have different : "base" ≠ name.lexeme := ordinary.2.symm
  cases tidy with
  | nil => exact .nil
  | block absent rest => exact .block (by simp [different, absent]) rest
  | routine absent rest => exact .routine (by simp [different, absent]) rest
  | plain absent rest => exact .plain (by simp [different, absent]) rest
  | derived absent rest => exact .derived (by simp [different, absent]) rest

theorem tidy_class_layers {layers : List Layer} (tidy : Tidy layers) (className : Token)
    (derived : Bool) : Tidy (classLayers className derived layers) := by
  cases derived with
  | false => exact .plain (by decide) tidy
  | true => exact .derived (by decide) tidy

structure TidyPlace (place : Place) : Prop where
  layers : Tidy place.layers
  pending : ∀ name, place.pending.name? = some name → Token.Ordinary name.lexeme

theorem tidy_plain {layers : List Layer} (tidy : Tidy layers) : TidyPlace (.plain layers) :=
  ⟨tidy, by simp [Place.plain, Pending.name?]⟩

def AllTidy (positions : List Position) : Prop := ∀ position ∈ positions, TidyPlace position.1

theorem all_tidy_cons {layers : List Layer} {node : Node} {rest : List Position}
    (tidy : Tidy layers) (others : AllTidy rest) : AllTidy ((.plain layers, node) :: rest) :=
  List.forall_mem_cons.2 ⟨tidy_plain tidy, others⟩

theorem all_tidy_append {left right : List Position} (leftTidy : AllTidy left)
    (rightTidy : AllTidy right) : AllTidy (left ++ right) :=
  List.forall_mem_append.2 ⟨leftTidy, rightTidy⟩

theorem expr_tidy {place : Place} (tidy : TidyPlace place) (expr : Expr) :
    AllTidy (exprPositions place expr) := by
  intro position member
  obtain ⟨term, -, rfl⟩ := List.mem_map.1 member
  exact tidy

theorem option_tidy {place : Place} (tidy : TidyPlace place) (value : Option Expr) :
    AllTidy (optionPositions place value) := by
  cases value with
  | none => exact List.forall_mem_nil _
  | some expr => exact expr_tidy tidy expr

theorem named_ordinary {name : Token} (named : Node.Named Token.Spelled name) :
    Token.Ordinary name.lexeme :=
  named.2.ordinary named.1

theorem tidy_pending {layers : List Layer} {name : Token} {pending : Pending} (tidy : Tidy layers)
    (named : Node.Named Token.Spelled name) (same : pending.name? = some name) :
    TidyPlace ⟨layers, pending⟩ := by
  refine ⟨tidy, ?_⟩
  intro other found
  cases same.symm.trans found
  exact named_ordinary named

theorem parameters_tidy {layers : List Layer} (tidy : Tidy layers) {names : List Token}
    (named : ∀ name ∈ names, Node.Named Token.Spelled name) :
    AllTidy (parameterPositions layers names) ∧ Tidy (holdingAll names layers) := by
  induction names generalizing layers with
  | nil => exact ⟨List.forall_mem_nil _, tidy⟩
  | cons name rest induction =>
      obtain ⟨first, others⟩ := List.forall_mem_cons.1 named
      obtain ⟨positions, final⟩ := induction (tidy_holding tidy (named_ordinary first)) others
      exact ⟨all_tidy_cons tidy positions, final⟩

theorem declared_mem {stmt : Stmt} {name : Token} (declared : stmt.declared? = some name) :
    .declaration name ∈ stmt.nodes := by
  cases stmt with
  | varDecl => simp_all [Stmt.declared?, Stmt.nodes]
  | functionDecl => simp_all [Stmt.declared?, Stmt.nodes]
  | classDecl => simp_all [Stmt.declared?, Stmt.nodes]
  | _ => simp [Stmt.declared?] at declared

theorem tidy_after {layers : List Layer} {stmt : Stmt} (tidy : Tidy layers)
    (formed : Node.AllWellFormed Token.Spelled stmt.nodes) : Tidy (after layers stmt) := by
  unfold after
  cases declared : stmt.declared? with
  | none => exact tidy
  | some name => exact tidy_holding tidy (named_ordinary (formed _ (declared_mem declared)))

mutual

/-- The scopes inside a statement are tidy if those around it are, since no declared name is `base`.
-/
theorem stmt_tidy {layers : List Layer} : (stmt : Stmt) →
    Node.AllWellFormed Token.Spelled stmt.nodes → Tidy layers →
      AllTidy (stmtPositions layers stmt)
  | .expression expr, _, tidy => all_tidy_cons tidy (expr_tidy (tidy_plain tidy) expr)
  | .varDecl name initializer, formed, tidy => by
      simp only [Stmt.nodes, Node.all_well_formed_cons] at formed
      have place : TidyPlace ⟨layers, .initializer name⟩ := tidy_pending tidy formed.2.1 rfl
      exact all_tidy_cons tidy (all_tidy_cons tidy (option_tidy place initializer))
  | .functionDecl decl, formed, tidy => by
      simp only [Stmt.nodes, Node.all_well_formed_cons] at formed
      have held := tidy_holding tidy (named_ordinary formed.2.1)
      exact all_tidy_cons tidy (all_tidy_cons tidy (routine_tidy none decl formed.2.2 held))
  | .classDecl name base methods, formed, tidy => by
      simp only [Stmt.nodes, Node.all_well_formed_cons, Node.all_well_formed_append] at formed
      have held := tidy_holding tidy (named_ordinary formed.2.1)
      have inside := methods_tidy name methods formed.2.2.2
        (tidy_class_layers held name base.isSome)
      have place : TidyPlace ⟨layers, .baseClause name⟩ := tidy_pending tidy formed.2.1 rfl
      exact all_tidy_cons tidy (all_tidy_cons tidy (all_tidy_append (option_tidy place base) inside))
  | .block body, formed, tidy => by
      simp only [Stmt.nodes, Node.all_well_formed_cons] at formed
      exact all_tidy_cons tidy (body_tidy body formed.2 (.block List.not_mem_nil tidy))
  | .ifThen condition thenBranch, formed, tidy => by
      simp only [Stmt.nodes, Node.all_well_formed_cons, Node.all_well_formed_append] at formed
      exact all_tidy_cons tidy (all_tidy_append (expr_tidy (tidy_plain tidy) condition)
        (stmt_tidy thenBranch formed.2.2 tidy))
  | .ifElse condition thenBranch elseBranch, formed, tidy => by
      simp only [Stmt.nodes, Node.all_well_formed_cons, Node.all_well_formed_append] at formed
      exact all_tidy_cons tidy (all_tidy_append (all_tidy_append (expr_tidy (tidy_plain tidy) condition)
        (stmt_tidy thenBranch formed.2.1.2 tidy)) (stmt_tidy elseBranch formed.2.2 tidy))
  | .whileLoop condition body, formed, tidy => by
      simp only [Stmt.nodes, Node.all_well_formed_cons, Node.all_well_formed_append] at formed
      exact all_tidy_cons tidy (all_tidy_append (expr_tidy (tidy_plain tidy) condition)
        (stmt_tidy body formed.2.2 tidy))
  | .returnStmt _ value, _, tidy => all_tidy_cons tidy (option_tidy (tidy_plain tidy) value)

theorem routine_tidy {layers : List Layer} (className : Option Token) : (decl : FunctionDecl) →
    Node.AllWellFormed Token.Spelled decl.nodes → Tidy layers →
      AllTidy (routinePositions className layers decl)
  | ⟨name, parameters, body⟩, formed, tidy => by
      simp only [FunctionDecl.nodes, Node.all_well_formed_cons, Node.all_well_formed_append,
        Node.all_well_formed_declarations] at formed
      have opened : Tidy (⟨.routine className ⟨name, parameters, body⟩, []⟩ :: layers) :=
        .routine List.not_mem_nil tidy
      obtain ⟨declared, held⟩ := parameters_tidy opened formed.2.1
      exact all_tidy_cons tidy (all_tidy_append declared (body_tidy body formed.2.2 held))

theorem methods_tidy {layers : List Layer} (className : Token) : (decls : List FunctionDecl) →
    Node.AllWellFormed Token.Spelled (methodNodes decls) → Tidy layers →
      AllTidy (methodPositions className layers decls)
  | [], _, _ => List.forall_mem_nil _
  | decl :: rest, formed, tidy => by
      simp only [methodNodes, Node.all_well_formed_append] at formed
      exact all_tidy_append (routine_tidy _ decl formed.1 tidy)
        (methods_tidy className rest formed.2 tidy)

theorem body_tidy {layers : List Layer} : (stmts : List Stmt) →
    Node.AllWellFormed Token.Spelled (bodyNodes stmts) → Tidy layers →
      AllTidy (bodyPositions layers stmts)
  | [], _, tidy => all_tidy_cons tidy (List.forall_mem_nil _)
  | stmt :: rest, formed, tidy => by
      simp only [bodyNodes, Node.all_well_formed_cons, Node.all_well_formed_append] at formed
      exact all_tidy_cons tidy (all_tidy_append (stmt_tidy stmt formed.2.1 tidy)
        (body_tidy rest formed.2.2 (tidy_after tidy formed.2.1)))

end

/-- Where the innermost class has a base class, its scope and that of the base class are the first
that hold `this` and `base`, one directly inside the other. -/
theorem tidy_derived {layers : List Layer} {className : Token} (tidy : Tidy layers)
    (inside : (Place.plain layers).class? = some (className, true)) :
    ∃ inner names outer, layers =
        inner ++ ⟨.receiver className true, names⟩ :: ⟨.base className, ["base"]⟩ :: outer ∧
      (∀ layer ∈ inner, "base" ∉ layer.names) ∧ "base" ∉ names := by
  induction tidy with
  | nil => simp [Place.class?, Place.plain] at inside
  | block ordinary rest induction | routine ordinary rest induction =>
      obtain ⟨inner, names, outer, rfl, absent, receiver⟩ := induction inside
      exact ⟨_ :: inner, names, outer, rfl, List.forall_mem_cons.2 ⟨ordinary, absent⟩, receiver⟩
  | plain ordinary rest induction => simp [Place.class?, Place.plain, Opener.class?] at inside
  | derived ordinary rest induction =>
      simp only [Place.class?, Place.plain, Opener.class?, List.findSome?_cons, Option.some.injEq,
        Prod.mk.injEq, and_true] at inside
      subst inside
      exact ⟨[], _, _, rfl, List.forall_mem_nil _, ordinary⟩

/-- A position is found by what only one node has: an expression by its number, for instance. -/
theorem key_unique {Key : Type} (key : Node → Option Key) {positions : List Position}
    (distinct : ((positions.map Prod.snd).filterMap key).Nodup) {left right : Position} {found : Key}
    (leftMember : left ∈ positions) (rightMember : right ∈ positions)
    (leftKey : key left.2 = some found) (rightKey : key right.2 = some found) : left = right := by
  induction positions with
  | nil => cases leftMember
  | cons first rest induction =>
      have later : ∀ other ∈ rest, ∀ value, key other.2 = some value →
          value ∈ (rest.map Prod.snd).filterMap key := by
        intro other member value isValue
        exact List.mem_filterMap.2 ⟨other.2, List.mem_map_of_mem member, isValue⟩
      rw [List.map_cons, List.filterMap_cons] at distinct
      rcases List.mem_cons.1 leftMember with rfl | inLeft
      · rcases List.mem_cons.1 rightMember with rfl | inRight
        · rfl
        · rw [leftKey, List.nodup_cons] at distinct
          exact absurd (later right inRight found rightKey) distinct.1
      · rcases List.mem_cons.1 rightMember with rfl | inRight
        · rw [rightKey, List.nodup_cons] at distinct
          exact absurd (later left inLeft found leftKey) distinct.1
        · refine induction ?_ inLeft inRight
          cases value : key first.2 with
          | none =>
              rw [value] at distinct
              exact distinct
          | some other =>
              rw [value] at distinct
              exact (List.nodup_cons.1 distinct).2

theorem position_unique {positions : List Position}
    (distinct : (nodeIds (positions.map Prod.snd)).Nodup) {left right : Position} {id : Nat}
    (leftMember : left ∈ positions) (rightMember : right ∈ positions)
    (leftId : left.2.id? = some id) (rightId : right.2.id? = some id) : left = right :=
  key_unique Node.id? distinct leftMember rightMember leftId rightId

end Scope

end Quill
