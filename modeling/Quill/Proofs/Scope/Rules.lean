import Mathlib.Data.List.Forall2
import Quill.Proofs.Scope.Place
import Quill.Proofs.Tree.Formed

/-!
The walk follows the scoping rules. At every node its scopes hold what the place of the node
holds; it charges a violation exactly where a rule is broken, and where none is broken it
records for each name the distance to the nearest scope that holds it.
-/

namespace Quill.Scope

set_option autoImplicit false

def Shows (names : Names) (layer : Layer) : Prop :=
  ∀ name, names.get? name = if name ∈ layer.names then some true else none

abbrev Matches (scopes : List Names) (layers : List Layer) : Prop :=
  List.Forall₂ Shows scopes layers

theorem shows_empty (opener : Opener) : Shows .empty ⟨opener, []⟩ := by
  intro name
  simp

theorem shows_insert {names : Names} {layer : Layer} (shown : Shows names layer)
    (name : String) :
    Shows (names.insert name true) { layer with names := name :: layer.names } := by
  intro sought
  rw [Bindings.get_insert, shown sought]
  by_cases same : sought = name
  · simp [same]
  · simp [same]

theorem shows_insert_twice {names : Names} {layer : Layer} (shown : Shows names layer)
    (name : String) (readable : Bool) :
    Shows ((names.insert name readable).insert name true)
      { layer with names := name :: layer.names } := by
  intro sought
  rw [Bindings.get_insert, Bindings.get_insert, shown sought]
  by_cases same : sought = name
  · simp [same]
  · simp [same]

theorem Shows.contains {names : Names} {layer : Layer} (shown : Shows names layer)
    (name : String) : names.contains name = true ↔ name ∈ layer.names := by
  unfold Bindings.contains
  rw [shown name]
  split <;> simp_all

def Holds (names : Names) (layer : Layer) : Prop :=
  ∀ name, names.contains name = true ↔ name ∈ layer.names

theorem Shows.holds_insert {names : Names} {layer : Layer} (shown : Shows names layer)
    (name : String) (readable : Bool) :
    Holds (names.insert name readable) { layer with names := name :: layer.names } := by
  intro sought
  have before := shown.contains sought
  unfold Bindings.contains at before ⊢
  rw [Bindings.get_insert]
  by_cases same : sought = name
  · simp [same]
  · rw [if_neg same, before]
    simp [same]

/-- The scopes of the walk at a place, where a name that is being declared is held already. -/
structure Placed (walk : Walk) (place : Place) : Prop where
  holds : List.Forall₂ Holds walk.scopes place.held
  pending : ∀ name, walk.pending name = true ↔ place.layers ≠ [] ∧
    ∃ declared, place.pending = .initializer declared ∧ declared.lexeme = name

theorem matches_placed {walk : Walk} {layers : List Layer} (agrees : Matches walk.scopes layers) :
    Placed walk (.plain layers) := by
  rcases walk with ⟨scopes, table, faults⟩
  constructor
  · exact agrees.imp fun _ _ shown => Shows.contains shown
  · intro name
    cases agrees with
    | nil => simp [Walk.pending, Place.plain]
    | cons shown outer =>
        have known := shown name
        simp only [Walk.pending, List.head?_cons, Option.bind_some, known, Place.plain]
        split <;> simp

theorem matches_placed_initializer {walk : Walk} {layers : List Layer}
    (agrees : Matches walk.scopes layers) (name : Token) :
    Placed (walk.hold name.lexeme false) ⟨layers, .initializer name⟩ := by
  rcases walk with ⟨scopes, table, faults⟩
  cases agrees with
  | nil => exact ⟨.nil, by simp [Walk.pending, Walk.hold]⟩
  | cons shown outer =>
      refine ⟨.cons (shown.holds_insert _ _) (outer.imp fun _ _ shown => shown.contains), ?_⟩
      intro sought
      have known := shown sought
      simp only [Walk.pending, Walk.hold, List.head?_cons, Option.bind_some, Bindings.get_insert,
        known]
      by_cases same : sought = name.lexeme
      · simp [same]
      · have different : ¬ name.lexeme = sought := fun other => same other.symm
        simp only [if_neg same]
        split <;> simp [different]

theorem matches_placed_base {walk : Walk} {layers : List Layer} {name : Token}
    (agrees : Matches walk.scopes (holding name layers)) :
    Placed walk ⟨layers, .baseClause name⟩ := by
  have placed := matches_placed agrees
  refine ⟨placed.holds, ?_⟩
  intro sought
  rw [placed.pending sought]
  simp [Place.plain]

theorem matches_define {walk : Walk} {layers : List Layer} (agrees : Matches walk.scopes layers)
    (name : Token) (readable : Bool) :
    Matches ((walk.hold name.lexeme readable).hold name.lexeme true).scopes
      (holding name layers) := by
  rcases walk with ⟨scopes, table, faults⟩
  cases agrees with
  | nil => exact .nil
  | cons shown outer => exact .cons (shows_insert_twice shown _ _) outer

def distanceIn? (layers : List Layer) (name : String) : Option Nat :=
  layers.findIdx? (·.names.contains name)

theorem distance_nearest (layers : List Layer) (name : String) (distance : Nat) :
    distanceIn? layers name = some distance ↔ NearestAt layers name distance := by
  unfold distanceIn?
  induction layers generalizing distance with
  | nil => simp [NearestAt]
  | cons layer outer induction =>
      rw [List.findIdx?_cons, nearest_at_cons]
      by_cases member : name ∈ layer.names
      · simp [member, eq_comm]
      · have absent : layer.names.contains name = false := by simpa using member
        simp only [absent, Bool.false_eq_true, if_false, member, false_and, false_or,
          not_false_eq_true, true_and, Option.map_eq_some_iff, induction]

theorem distance_matches {scopes : List Names} {layers : List Layer}
    (holds : List.Forall₂ Holds scopes layers) (name : String) :
    Walk.distance? scopes name = distanceIn? layers name := by
  unfold Walk.distance? distanceIn?
  induction holds with
  | nil => rfl
  | @cons names layer scopes layers first outer induction =>
      have same : names.contains name = layer.names.contains name := by
        rw [Bool.eq_iff_iff, first name, List.contains_iff_mem]
      rw [List.findIdx?_cons, List.findIdx?_cons, same, induction]

def recorded? (position : Position) : Option (Nat × Nat) :=
  match position.2 with
  | .expr term => do
      let name ← lookedUp? term
      let distance ← distanceIn? position.1.held name
      some (term.id, distance)
  | _ => none

def Lawful (positions : List Position) : Prop :=
  ∀ position ∈ positions, ¬ Violates position.1 position.2

@[simp] theorem lawful_nil : Lawful [] := by
  simp [Lawful]

@[simp] theorem lawful_cons (position : Position) (rest : List Position) :
    Lawful (position :: rest) ↔ ¬ Violates position.1 position.2 ∧ Lawful rest := by
  simp [Lawful]

@[simp] theorem lawful_append (left right : List Position) :
    Lawful (left ++ right) ↔ Lawful left ∧ Lawful right := by
  simp [Lawful, or_imp, forall_and]

def record (table : Table) (entry : Nat × Nat) : Table := table.insert entry.1 entry.2

/-- Between two states the walk has charged the violations at these positions, and, if there
are none, recorded their entries. -/
structure Covers (positions : List Position) (before after : Walk) : Prop where
  faults : ∃ added, after.faults = before.faults ++ added ∧ (added = [] ↔ Lawful positions)
  table : Lawful positions → after.table = (positions.filterMap recorded?).foldl record before.table

theorem violate_if_table (walk : Walk) (condition : Bool) (token : Token)
    (violation : Violation) : (walk.violateIf condition token violation).table = walk.table := by
  unfold Walk.violateIf
  split <;> rfl

theorem charged_faults {position : Position} {condition : Bool} (walk : Walk) (token : Token)
    (violation : Violation) (charged : condition = true ↔ Violates position.1 position.2) :
    ∃ added, (walk.violateIf condition token violation).faults = walk.faults ++ added ∧
      (added = [] ↔ Lawful [position]) := by
  cases condition with
  | false =>
      refine ⟨[], by simp [Walk.violateIf], ?_⟩
      simpa using charged
  | true =>
      refine ⟨[⟨token.line, ⟨violation, token.lexeme⟩⟩], rfl, ?_⟩
      simpa using charged

namespace Covers

theorem nil {before after : Walk} (faults : after.faults = before.faults)
    (table : after.table = before.table) : Covers [] before after :=
  ⟨⟨[], by simp [faults]⟩, by simp [table]⟩

theorem append {left right : List Position} {before middle after : Walk}
    (first : Covers left before middle) (second : Covers right middle after) :
    Covers (left ++ right) before after := by
  rcases first.faults with ⟨added, grown, none⟩
  rcases second.faults with ⟨further, grownFurther, noneFurther⟩
  constructor
  · refine ⟨added ++ further, ?_, ?_⟩
    · rw [grownFurther, grown, List.append_assoc]
    · rw [List.append_eq_nil_iff, none, noneFurther, lawful_append]
  · intro lawful
    obtain ⟨leftLawful, rightLawful⟩ := (lawful_append left right).1 lawful
    rw [second.table rightLawful, first.table leftLawful, List.filterMap_append, List.foldl_append]

theorem cons {position : Position} {rest : List Position} {before middle after : Walk}
    (first : Covers [position] before middle) (others : Covers rest middle after) :
    Covers (position :: rest) before after :=
  first.append others

theorem rescope {positions : List Position} {before after start stop : Walk}
    (covers : Covers positions before after) (startFaults : start.faults = before.faults)
    (startTable : start.table = before.table) (stopFaults : stop.faults = after.faults)
    (stopTable : stop.table = after.table) : Covers positions start stop := by
  constructor
  · rw [stopFaults, startFaults]
    exact covers.faults
  · rw [stopTable, startTable]
    exact covers.table

theorem silent {position : Position} (walk : Walk) (lawful : ¬ Violates position.1 position.2)
    (nothing : recorded? position = none) : Covers [position] walk walk :=
  ⟨⟨[], by simp [lawful]⟩, by simp [nothing]⟩

theorem violate_if {position : Position} {condition : Bool} (walk : Walk) (token : Token)
    (violation : Violation) (charged : condition = true ↔ Violates position.1 position.2)
    (nothing : recorded? position = none) :
    Covers [position] walk (walk.violateIf condition token violation) := by
  constructor
  · exact charged_faults walk token violation charged
  · intro _
    simp [nothing, violate_if_table]

end Covers

theorem hold_faults (walk : Walk) (name : String) (readable : Bool) :
    (walk.hold name readable).faults = walk.faults := by
  unfold Walk.hold
  split <;> rfl

theorem hold_table (walk : Walk) (name : String) (readable : Bool) :
    (walk.hold name readable).table = walk.table := by
  unfold Walk.hold
  split <;> rfl

theorem violate_if_scopes (walk : Walk) (condition : Bool) (token : Token)
    (violation : Violation) : (walk.violateIf condition token violation).scopes = walk.scopes := by
  unfold Walk.violateIf
  split <;> rfl

theorem bind_scopes (walk : Walk) (id : Nat) (name : Token) :
    (walk.bind id name).scopes = walk.scopes := by
  unfold Walk.bind
  split <;> rfl

theorem bind_faults (walk : Walk) (id : Nat) (name : Token) :
    (walk.bind id name).faults = walk.faults := by
  unfold Walk.bind
  split <;> rfl

mutual

/-- An expression opens no scope and declares nothing. So what the walk finds in it depends on the
place alone. -/
theorem walk_expr_scopes (owner : Owner) :
    (expr : Expr) → (walk : Walk) → (walkExpr owner expr walk).scopes = walk.scopes
  | .literal _ _, walk => rfl
  | .grouping _ inner, walk => walk_expr_scopes owner inner walk
  | .unary _ _ right, walk => walk_expr_scopes owner right walk
  | .binary _ left _ right, walk =>
      (walk_expr_scopes owner right _).trans (walk_expr_scopes owner left walk)
  | .logical _ left _ right, walk =>
      (walk_expr_scopes owner right _).trans (walk_expr_scopes owner left walk)
  | .variableRef id name, walk => (bind_scopes _ _ _).trans (violate_if_scopes _ _ _ _)
  | .thisRef id keyword, walk => by
      cases owner with
      | outside => rfl
      | plain => exact bind_scopes _ _ _
      | derived => exact bind_scopes _ _ _
  | .baseRef id keyword _, walk => by
      cases owner with
      | outside => rfl
      | plain => rfl
      | derived => exact bind_scopes _ _ _
  | .assign id name value, walk => (bind_scopes _ _ _).trans (walk_expr_scopes owner value walk)
  | .call _ callee _ given, walk =>
      (walk_exprs_scopes owner given _).trans (walk_expr_scopes owner callee walk)
  | .get _ object _, walk => walk_expr_scopes owner object walk
  | .set _ object _ value, walk =>
      (walk_expr_scopes owner value _).trans (walk_expr_scopes owner object walk)

theorem walk_exprs_scopes (owner : Owner) :
    (exprs : List Expr) → (walk : Walk) → (walkExprs owner exprs walk).scopes = walk.scopes
  | [], _ => rfl
  | expr :: rest, walk => (walk_exprs_scopes owner rest _).trans (walk_expr_scopes owner expr walk)

end

def Place.owner (place : Place) : Owner :=
  match place.class? with
  | none => .outside
  | some (_, false) => .plain
  | some (_, true) => .derived

def Place.routine (place : Place) : Routine :=
  match place.routine? with
  | none => .topLevel
  | some (none, _) => .function
  | some (some className, decl) => methodRoutine className decl.name

def contextOf (layers : List Layer) : Context :=
  ⟨(Place.plain layers).routine, (Place.plain layers).owner⟩

theorem Placed.of_scopes {before after : Walk} {place : Place} (placed : Placed before place)
    (same : after.scopes = before.scopes) : Placed after place := by
  constructor
  · rw [same]
    exact placed.holds
  · intro name
    have known := placed.pending name
    unfold Walk.pending at known ⊢
    rw [same]
    exact known

theorem bind_table {walk : Walk} {place : Place} (placed : Placed walk place) {term : Expr}
    {name : Token} (looked : lookedUp? term = some name.lexeme) :
    (walk.bind term.id name).table =
      ([(place, Node.expr term)].filterMap recorded?).foldl record walk.table := by
  have distance := distance_matches placed.holds name.lexeme
  unfold Walk.bind
  rw [distance]
  cases found : distanceIn? place.held name.lexeme with
  | none => simp [recorded?, looked, found]
  | some distance => simp [recorded?, looked, found, record]

theorem bind_covers {walk : Walk} {place : Place} (placed : Placed walk place) {term : Expr}
    {name : Token} (looked : lookedUp? term = some name.lexeme)
    (lawful : ¬ Violates place (.expr term)) :
    Covers [(place, .expr term)] walk (walk.bind term.id name) := by
  constructor
  · exact ⟨[], by simp [bind_faults, lawful]⟩
  · intro _
    exact bind_table placed looked

/-- Outside of base clauses a variable is only checked against its own initializer, that is, against
the name in the course of declaration. -/
theorem variable_covers {walk : Walk} {place : Place} (placed : Placed walk place)
    (elsewhere : ∀ className, place.pending ≠ .baseClause className) (id : Nat) (name : Token) :
    Covers [(place, .expr (.variableRef id name))] walk
      ((walk.violateIf (walk.pending name.lexeme) name .ownInitializer).bind id name) := by
  have charged : walk.pending name.lexeme = true ↔ Violates place (.expr (.variableRef id name)) := by
    rw [placed.pending]
    constructor
    · intro violates
      rcases violates with ⟨inside, declared, pending, same⟩
      exact .ownInitializer inside pending same
    · intro violates
      rcases violates with _ | _ | _ | _ | _ | ⟨pending, -⟩ | _ | ⟨inside, pending, same⟩
      · exact absurd pending (elsewhere _)
      · exact ⟨inside, _, pending, same⟩
  have looked : lookedUp? (.variableRef id name) = some name.lexeme := rfl
  have checked := placed.of_scopes
    (violate_if_scopes walk (walk.pending name.lexeme) name .ownInitializer)
  constructor
  · rw [bind_faults]
    exact charged_faults walk name .ownInitializer charged
  · intro _
    have found := bind_table checked looked
    rw [violate_if_table] at found
    exact found

theorem silent_expr {place : Place} {term : Expr} (walk : Walk)
    (nothing : lookedUp? term = none) : Covers [(place, .expr term)] walk walk := by
  refine .silent walk ?_ ?_
  · intro broken
    cases broken <;> cases nothing
  · simp [recorded?, nothing]

theorem violate_covers {position : Position} (walk : Walk) (token : Token) (violation : Violation)
    (broken : Violates position.1 position.2) :
    Covers [position] walk (walk.violate token violation) := by
  refine ⟨⟨_, rfl, ?_⟩, ?_⟩
  · simp [broken]
  · intro lawful
    exact absurd broken (lawful _ List.mem_cons_self)

theorem this_covers {walk : Walk} {place : Place} (placed : Placed walk place) (id : Nat)
    (keyword : Token) (spelled : keyword.lexeme = "this") :
    Covers [(place, .expr (.thisRef id keyword))] walk
      (walkExpr place.owner (.thisRef id keyword) walk) := by
  have looked : lookedUp? (.thisRef id keyword) = some keyword.lexeme := by simp [lookedUp?, spelled]
  unfold walkExpr Place.owner
  cases inside : place.class? with
  | none => exact violate_covers walk _ _ (.strayThis inside)
  | some found =>
      rcases found with ⟨className, derived⟩
      have lawful : ¬ Violates place (.expr (.thisRef id keyword)) := by
        intro violates
        rcases violates with _ | _ | outside
        simp [inside] at outside
      cases derived <;> exact bind_covers placed looked lawful

theorem base_covers {walk : Walk} {place : Place} (placed : Placed walk place) (id : Nat)
    (keyword method : Token) (spelled : keyword.lexeme = "base") :
    Covers [(place, .expr (.baseRef id keyword method))] walk
      (walkExpr place.owner (.baseRef id keyword method) walk) := by
  have looked : lookedUp? (.baseRef id keyword method) = some keyword.lexeme := by
    simp [lookedUp?, spelled]
  unfold walkExpr Place.owner
  cases inside : place.class? with
  | none => exact violate_covers walk _ _ (.strayBase inside)
  | some found =>
      rcases found with ⟨className, derived⟩
      cases derived with
      | false => exact violate_covers walk _ _ (.plainBase inside)
      | true =>
          refine bind_covers placed looked ?_
          intro violates
          rcases violates with _ | _ | _ | outside | plain
          · simp [inside] at outside
          · simp [inside] at plain

mutual

/-- The walk of an expression charges what its names violate, part by part and in the order of the
parts. Its scopes stay as they are, so the parts have all the same place. -/
theorem walk_expr_covers {place : Place}
    (elsewhere : ∀ className, place.pending ≠ .baseClause className) :
    (expr : Expr) → {walk : Walk} → Node.AllWellFormed Token.Spelled expr.nodes → Placed walk place →
      Covers (exprPositions place expr) walk (walkExpr place.owner expr walk)
  | .literal _ _, walk, formed, placed => silent_expr walk rfl
  | .grouping id inner, walk, formed, placed => by
      simp only [Expr.nodes, Expr.subterms, exprPositions, List.map_append] at formed ⊢
      have below := walk_expr_covers elsewhere inner (by simp_all [Expr.nodes]) placed
      exact below.append (silent_expr _ rfl)
  | .unary id operator right, walk, formed, placed => by
      simp only [Expr.nodes, Expr.subterms, exprPositions, List.map_append] at formed ⊢
      have below := walk_expr_covers elsewhere right (by simp_all [Expr.nodes]) placed
      exact below.append (silent_expr _ rfl)
  | .binary id left operator right, walk, formed, placed
  | .logical id left operator right, walk, formed, placed => by
      simp only [Expr.nodes, Expr.subterms, exprPositions, List.map_append] at formed ⊢
      have first := walk_expr_covers elsewhere left (by simp_all [Expr.nodes]) placed
      have second := walk_expr_covers elsewhere right (by simp_all [Expr.nodes])
        (placed.of_scopes (walk_expr_scopes place.owner left walk))
      exact (first.append second).append (silent_expr _ rfl)
  | .variableRef id name, walk, formed, placed => variable_covers placed elsewhere id name
  | .thisRef id keyword, walk, formed, placed => by
      have spelled : keyword.lexeme = "this" := by
        simp_all [Expr.nodes, Expr.subterms, Node.WellFormed, Node.ExprWellFormed,
          Token.Spelled.this_lexeme]
      exact this_covers placed id keyword spelled
  | .baseRef id keyword method, walk, formed, placed => by
      have spelled : keyword.lexeme = "base" := by
        simp_all [Expr.nodes, Expr.subterms, Node.WellFormed, Node.ExprWellFormed,
          Token.Spelled.base_lexeme]
      exact base_covers placed id keyword method spelled
  | .assign id name value, walk, formed, placed => by
      simp only [Expr.nodes, Expr.subterms, exprPositions, List.map_append] at formed ⊢
      have below := walk_expr_covers elsewhere value (by simp_all [Expr.nodes]) placed
      have kept := placed.of_scopes (walk_expr_scopes place.owner value walk)
      have looked : lookedUp? (.assign id name value) = some name.lexeme := rfl
      exact below.append (bind_covers kept looked nofun)
  | .call id callee paren given, walk, formed, placed => by
      simp only [Expr.nodes, Expr.subterms, exprPositions, List.map_append] at formed ⊢
      have first := walk_expr_covers elsewhere callee (by simp_all [Expr.nodes]) placed
      have others := walk_exprs_covers elsewhere given (by simp_all)
        (placed.of_scopes (walk_expr_scopes place.owner callee walk))
      exact (first.append others).append (silent_expr _ rfl)
  | .get id object name, walk, formed, placed => by
      simp only [Expr.nodes, Expr.subterms, exprPositions, List.map_append] at formed ⊢
      have below := walk_expr_covers elsewhere object (by simp_all [Expr.nodes]) placed
      exact below.append (silent_expr _ rfl)
  | .set id object name value, walk, formed, placed => by
      simp only [Expr.nodes, Expr.subterms, exprPositions, List.map_append] at formed ⊢
      have first := walk_expr_covers elsewhere object (by simp_all [Expr.nodes]) placed
      have second := walk_expr_covers elsewhere value (by simp_all [Expr.nodes])
        (placed.of_scopes (walk_expr_scopes place.owner object walk))
      exact (first.append second).append (silent_expr _ rfl)

theorem walk_exprs_covers {place : Place}
    (elsewhere : ∀ className, place.pending ≠ .baseClause className) :
    (exprs : List Expr) → {walk : Walk} →
    Node.AllWellFormed Token.Spelled ((subtermsOf exprs).map .expr) → Placed walk place →
      Covers ((subtermsOf exprs).map fun term => (place, .expr term)) walk
        (walkExprs place.owner exprs walk)
  | [], walk, formed, placed => .nil rfl rfl
  | expr :: rest, walk, formed, placed => by
      simp only [subtermsOf, List.map_append] at formed ⊢
      have first := walk_expr_covers elsewhere expr (by simp_all [Expr.nodes]) placed
      have others := walk_exprs_covers elsewhere rest (by simp_all)
        (placed.of_scopes (walk_expr_scopes place.owner expr walk))
      exact first.append others

end

theorem walk_option_scopes (owner : Owner) (value : Option Expr) (walk : Walk) :
    (walkOption owner value walk).scopes = walk.scopes := by
  cases value with
  | none => rfl
  | some expr => exact walk_expr_scopes owner expr walk

theorem walk_option_covers {place : Place} {value : Option Expr} {walk : Walk}
    (elsewhere : ∀ className, place.pending ≠ .baseClause className)
    (formed : Node.AllWellFormed Token.Spelled (optionNodes value)) (placed : Placed walk place) :
    Covers (optionPositions place value) walk (walkOption place.owner value walk) := by
  cases value with
  | none => exact .nil rfl rfl
  | some expr => exact walk_expr_covers elsewhere expr formed placed

theorem hold_scopes {left right : Walk} (same : left.scopes = right.scopes) (name : String)
    (readable : Bool) : (left.hold name readable).scopes = (right.hold name readable).scopes := by
  unfold Walk.hold
  rw [same]
  split <;> simp_all

theorem declare_scopes (walk : Walk) (name : Token) :
    (walk.declare name).scopes = (walk.hold name.lexeme false).scopes :=
  violate_if_scopes _ _ _ _

/-- A declaration violates a rule if the innermost scope holds the name. At top level there is no
scope, and every declaration is lawful. -/
theorem declare_covers {walk : Walk} {layers : List Layer} (agrees : Matches walk.scopes layers)
    (name : Token) :
    Covers [(.plain layers, .declaration name)] walk (walk.declare name) := by
  have charged : walk.holds name.lexeme = true ↔
      Violates (.plain layers) (.declaration name) := by
    rcases walk with ⟨scopes, table, faults⟩
    cases agrees with
    | nil =>
        simp only [Walk.holds, List.head?_nil, Option.map_none, Option.getD_none,
          Bool.false_eq_true, false_iff]
        intro violates
        rcases violates with _ | _ | _ | _ | _ | _ | ⟨inside, earlier⟩
        simp [Place.plain] at inside
    | cons shown outer =>
        simp only [Walk.holds, List.head?_cons, Option.map_some, Option.getD_some,
          shown.contains]
        constructor
        · exact fun earlier => .duplicate rfl earlier
        · intro violates
          rcases violates with _ | _ | _ | _ | _ | _ | ⟨inside, earlier⟩
          cases inside
          exact earlier
  have covers : Covers [(.plain layers, .declaration name)] (walk.hold name.lexeme false) _ :=
    .violate_if (walk.hold name.lexeme false) name .duplicate charged rfl
  exact covers.rescope (hold_faults _ _ _).symm (hold_table _ _ _).symm rfl rfl

/-- `Follows positions layers before after`: the walk has passed these positions and stands
where the scopes are `layers`. -/
structure Follows (positions : List Position) (layers : List Layer) (before after : Walk) : Prop where
  covers : Covers positions before after
  agrees : Matches after.scopes layers

theorem introduce_follows {walk : Walk} {layers : List Layer}
    (agrees : Matches walk.scopes layers) (name : Token) :
    Follows [(.plain layers, .declaration name)] (holding name layers) walk
      (walk.introduce name) := by
  constructor
  · exact (declare_covers agrees name).rescope rfl rfl (hold_faults _ _ _) (hold_table _ _ _)
  · have defined := matches_define agrees name false
    rw [hold_scopes (declare_scopes walk name).symm] at defined
    exact defined

theorem parameters_follow {walk : Walk} {layers : List Layer}
    (agrees : Matches walk.scopes layers) (names : List Token) :
    Follows (parameterPositions layers names) (holdingAll names layers) walk
      (names.foldl Walk.introduce walk) := by
  induction names generalizing walk layers with
  | nil => exact ⟨.nil rfl rfl, agrees⟩
  | cons name rest induction =>
      have first := introduce_follows agrees name
      have others := induction first.agrees
      exact ⟨first.covers.append others.covers, others.agrees⟩

def behind (layers : List Layer) (stmts : List Stmt) : List Layer := stmts.foldl after layers

theorem holding_openers (name : Token) (layers : List Layer) :
    (holding name layers).map Layer.opener = layers.map Layer.opener := by
  cases layers <;> rfl

theorem holding_tail (name : Token) (layers : List Layer) :
    (holding name layers).tail = layers.tail := by
  cases layers <;> rfl

theorem holding_all_openers (names : List Token) (layers : List Layer) :
    (holdingAll names layers).map Layer.opener = layers.map Layer.opener := by
  unfold holdingAll
  induction names generalizing layers with
  | nil => rfl
  | cons name rest induction => rw [List.foldl_cons, induction, holding_openers]

theorem holding_all_tail (names : List Token) (layers : List Layer) :
    (holdingAll names layers).tail = layers.tail := by
  unfold holdingAll
  induction names generalizing layers with
  | nil => rfl
  | cons name rest induction => rw [List.foldl_cons, induction, holding_tail]

theorem after_openers (layers : List Layer) (stmt : Stmt) :
    (after layers stmt).map Layer.opener = layers.map Layer.opener := by
  unfold after
  split
  · exact holding_openers _ _
  · rfl

theorem after_tail (layers : List Layer) (stmt : Stmt) : (after layers stmt).tail = layers.tail := by
  unfold after
  split
  · exact holding_tail _ _
  · rfl

theorem behind_tail (layers : List Layer) (stmts : List Stmt) :
    (behind layers stmts).tail = layers.tail := by
  unfold behind
  induction stmts generalizing layers with
  | nil => rfl
  | cons stmt rest induction => rw [List.foldl_cons, induction, after_tail]

/-- What the walk knows of its surroundings are the openers of the scopes. The names in them are not
looked at for it. -/
theorem context_of_openers {left right : List Layer}
    (same : left.map Layer.opener = right.map Layer.opener) : contextOf left = contextOf right := by
  have routine : (Place.plain left).routine? = (Place.plain right).routine? := by
    have found := congrArg (List.findSome? Opener.routine?) same
    simpa [Place.routine?, Place.plain, List.findSome?_map, Function.comp_def] using found
  have owner : (Place.plain left).class? = (Place.plain right).class? := by
    have found := congrArg (List.findSome? Opener.class?) same
    simpa [Place.class?, Place.plain, List.findSome?_map, Function.comp_def] using found
  unfold contextOf Place.routine Place.owner
  rw [routine, owner]

theorem close_follows {positions : List Position} {layers : List Layer} {before after : Walk}
    (follows : Follows positions layers before after) :
    Follows positions layers.tail before after.closeScope := by
  refine ⟨follows.covers.rescope rfl rfl rfl rfl, ?_⟩
  rcases after with ⟨scopes, table, faults⟩
  have agrees := follows.agrees
  cases agrees with
  | nil => exact .nil
  | cons shown outer => exact outer

theorem open_hold_agrees {walk : Walk} {layers : List Layer} (agrees : Matches walk.scopes layers)
    (opener : Opener) (name : String) :
    Matches (walk.openScope.hold name true).scopes (⟨opener, [name]⟩ :: layers) :=
  .cons (shows_insert (shows_empty opener) name) agrees

theorem walk_expr_agrees {walk : Walk} {layers : List Layer} (owner : Owner) (expr : Expr)
    (agrees : Matches walk.scopes layers) : Matches (walkExpr owner expr walk).scopes layers := by
  rw [walk_expr_scopes]
  exact agrees

theorem check_base_agrees {walk : Walk} {layers : List Layer} (name : Token) (base : Expr)
    (agrees : Matches walk.scopes layers) : Matches (checkBase name base walk).scopes layers := by
  unfold checkBase
  split
  · rw [violate_if_scopes]
    exact agrees
  · exact agrees

theorem open_agrees {walk : Walk} {layers : List Layer} (agrees : Matches walk.scopes layers)
    (opener : Opener) : Matches walk.openScope.scopes (⟨opener, []⟩ :: layers) :=
  .cons (shows_empty opener) agrees

theorem context_class_layers (className : Token) (derived : Bool) (layers : List Layer) :
    contextOf (classLayers className derived (holding className layers)) =
      ⟨(contextOf layers).routine, if derived then .derived else .plain⟩ := by
  rw [← context_of_openers (holding_openers className layers)]
  cases derived <;> rfl

theorem context_routine (className : Option Token) (decl : FunctionDecl) (names : List String)
    (layers : List Layer) :
    contextOf (⟨.routine className decl, names⟩ :: layers) =
      ⟨(className.map (methodRoutine · decl.name)).getD .function, (contextOf layers).owner⟩ := by
  cases className <;> rfl

theorem routine_top_level (place : Place) : place.routine = .topLevel ↔ place.routine? = none := by
  unfold Place.routine methodRoutine
  cases place.routine? with
  | none => simp
  | some found =>
      rcases found with ⟨className, decl⟩
      cases className with
      | none => simp
      | some className =>
          simp only [reduceCtorEq, iff_false]
          split <;> simp

theorem routine_constructor (place : Place) :
    place.routine = .constructor ↔ place.inConstructor := by
  unfold Place.inConstructor Place.routine methodRoutine
  cases place.routine? with
  | none => simp
  | some found =>
      rcases found with ⟨className, decl⟩
      cases className with
      | none => simp
      | some className => simp

/-- The two rules on returns need nothing but the routine around the statement. -/
theorem return_covers (layers : List Layer) (walk : Walk) (keyword : Token)
    (value : Option Expr) :
    Covers [(.plain layers, .stmt (.returnStmt keyword value))] walk
      ((walk.violateIf ((contextOf layers).routine == .topLevel) keyword
        .topLevelReturn).violateIf (value.isSome && (contextOf layers).routine == .constructor)
          keyword .constructorValue) := by
  by_cases outside : (Place.plain layers).routine? = none
  · have topLevel : (contextOf layers).routine = .topLevel := (routine_top_level _).2 outside
    rw [topLevel]
    have second : (value.isSome && Routine.topLevel == .constructor) = false := by
      cases value <;> rfl
    rw [second]
    exact violate_covers walk _ _ (.strayReturn outside)
  · have inside : (contextOf layers).routine ≠ .topLevel := by
      intro topLevel
      exact outside ((routine_top_level _).1 topLevel)
    rw [beq_false_of_ne inside]
    refine .violate_if walk _ _ ?_ rfl
    rw [Bool.and_eq_true, beq_iff_eq]
    constructor
    · intro violates
      rcases violates with ⟨given, isConstructor⟩
      obtain ⟨value, rfl⟩ := Option.isSome_iff_exists.1 given
      exact .constructorValue ((routine_constructor _).1 isConstructor)
    · intro violates
      rcases violates with stray | inConstructor
      · exact absurd stray outside
      · exact ⟨rfl, (routine_constructor _).2 inConstructor⟩

theorem return_scopes (walk : Walk) (stray valued : Bool) (keyword : Token) :
    ((walk.violateIf stray keyword .topLevelReturn).violateIf valued keyword
      .constructorValue).scopes = walk.scopes := by
  rw [violate_if_scopes, violate_if_scopes]

theorem plain_elsewhere (layers : List Layer) (className : Token) :
    (Place.plain layers).pending ≠ .baseClause className := nofun

theorem initializer_elsewhere {layers : List Layer} (name className : Token) :
    (Place.mk layers (.initializer name)).pending ≠ .baseClause className := nofun

theorem silent_stmt {layers : List Layer} (walk : Walk) {stmt : Stmt}
    (other : ∀ keyword value, stmt ≠ .returnStmt keyword value) :
    Covers [(.plain layers, .stmt stmt)] walk walk := by
  have lawful : ¬ Violates (.plain layers) (.stmt stmt) := by
    intro violates
    cases violates with
    | strayReturn => exact other _ _ rfl
    | constructorValue => exact other _ _ rfl
  exact .silent walk lawful rfl

theorem silent_body {layers : List Layer} (walk : Walk) (stmts : List Stmt) :
    Covers [(.plain layers, .body stmts)] walk walk := by
  apply Covers.silent walk _ rfl
  intro violates
  cases violates

theorem silent_routine {layers : List Layer} (walk : Walk) (decl : FunctionDecl) :
    Covers [(.plain layers, .routine decl)] walk walk := by
  apply Covers.silent walk _ rfl
  intro violates
  cases violates

theorem after_undeclared {layers : List Layer} {stmt : Stmt} (undeclared : stmt.declared? = none) :
    after layers stmt = layers := by
  simp [after, undeclared]

/-- In a base clause a variable is only checked against the name of the class. -/
theorem base_clause_covers {walk : Walk} {layers : List Layer} {className : Token}
    (placed : Placed walk ⟨layers, .baseClause className⟩) (id : Nat) (name : Token) :
    Covers [(⟨layers, .baseClause className⟩, .expr (.variableRef id name))] walk
      (walkExpr .derived (.variableRef id name) (checkBase className (.variableRef id name) walk)) := by
  have charged : (name.lexeme == className.lexeme) = true ↔
      Violates ⟨layers, .baseClause className⟩ (.expr (.variableRef id name)) := by
    rw [beq_iff_eq]
    constructor
    · exact .selfBase rfl
    · intro violates
      rcases violates with _ | _ | _ | _ | _ | ⟨pending, same⟩ | _ | ⟨-, pending, -⟩
      · cases pending
        exact same
      · cases pending
  have kept := violate_if_scopes walk (name.lexeme == className.lexeme) name .selfInheritance
  have checked := placed.of_scopes kept
  have readable : (checkBase className (.variableRef id name) walk).pending name.lexeme = false := by
    rw [← Bool.not_eq_true, checkBase, checked.pending]
    intro violates
    rcases violates with ⟨-, declared, pending, -⟩
    cases pending
  rw [walkExpr, readable]
  have looked : lookedUp? (.variableRef id name) = some name.lexeme := rfl
  constructor
  · rw [bind_faults]
    exact charged_faults walk name .selfInheritance charged
  · intro _
    have found := bind_table checked looked
    rw [violate_if_table] at found
    exact found

mutual

/-- A walk that stands in the scopes of a place stands, after a statement, in the scopes behind it,
and has charged what is violated in between. This carries the walk through a whole program. -/
theorem walk_stmt_follows {layers : List Layer} : (stmt : Stmt) → {walk : Walk} →
    Node.AllWellFormed Token.Spelled stmt.nodes → Matches walk.scopes layers →
      Follows (stmtPositions layers stmt) (after layers stmt) walk
        (walkStmt (contextOf layers) stmt walk)
  | .expression expr, walk, formed, agrees => by
      simp only [Stmt.nodes, Node.all_well_formed_cons] at formed
      have value := walk_expr_covers (plain_elsewhere layers) expr formed.2 (matches_placed agrees)
      refine ⟨(silent_stmt walk (by simp)).cons value, ?_⟩
      rw [walkStmt, walk_expr_scopes]
      exact agrees
  | .varDecl name initializer, walk, formed, agrees => by
      simp only [Stmt.nodes, Node.all_well_formed_cons] at formed
      have declared := declare_covers agrees name
      have placed := (matches_placed_initializer agrees name).of_scopes (declare_scopes walk name)
      have value := walk_option_covers (initializer_elsewhere name) formed.2.2 placed
      constructor
      · refine (silent_stmt walk (by simp)).cons (declared.cons ?_)
        exact value.rescope rfl rfl (hold_faults _ _ _) (hold_table _ _ _)
      · have defined := matches_define agrees name false
        have kept : (walkOption (contextOf layers).owner initializer (walk.declare name)).scopes =
            (walk.hold name.lexeme false).scopes :=
          (walk_option_scopes _ _ _).trans (declare_scopes walk name)
        rw [← hold_scopes kept] at defined
        exact defined
  | .functionDecl decl, walk, formed, agrees => by
      simp only [Stmt.nodes, Node.all_well_formed_cons] at formed
      have named := introduce_follows agrees decl.name
      have body := walk_routine_follows none decl formed.2.2 named.agrees
      rw [context_of_openers (holding_openers decl.name layers)] at body
      exact ⟨(silent_stmt walk (by simp)).cons (named.covers.cons body.covers), body.agrees⟩
  | .classDecl name none methods, walk, formed, agrees => by
      simp only [Stmt.nodes, optionNodes, List.nil_append, Node.all_well_formed_cons] at formed
      have named := introduce_follows agrees name
      have opened : Matches _ (classLayers name false (holding name layers)) :=
        open_hold_agrees named.agrees (.receiver name false) "this"
      have closed := close_follows (walk_methods_follows name methods formed.2.2 opened)
      rw [context_class_layers] at closed
      refine ⟨(silent_stmt walk (by simp)).cons (named.covers.cons ?_), closed.agrees⟩
      exact closed.covers.rescope rfl rfl rfl rfl
  | .classDecl name (some base) methods, walk, formed, agrees => by
      simp only [Stmt.nodes, optionNodes, Node.all_well_formed_cons,
        Node.all_well_formed_append] at formed
      rcases formed with ⟨isVariable, -, -, methodsFormed⟩
      rcases isVariable with ⟨id, baseName, rfl⟩
      have named := introduce_follows agrees name
      have based := base_clause_covers (matches_placed_base named.agrees) id baseName
      have kept := walk_expr_agrees .derived (.variableRef id baseName)
        (check_base_agrees name (.variableRef id baseName) named.agrees)
      have opened : Matches _ (classLayers name true (holding name layers)) :=
        open_hold_agrees (open_hold_agrees kept (.base name) "base") (.receiver name true) "this"
      have closed := close_follows (close_follows (walk_methods_follows name methods methodsFormed
        opened))
      rw [context_class_layers] at closed
      refine ⟨(silent_stmt walk (by simp)).cons (named.covers.cons (based.append ?_)),
        closed.agrees⟩
      exact closed.covers.rescope rfl rfl rfl rfl
  | .block body, walk, formed, agrees => by
      simp only [Stmt.nodes, Node.all_well_formed_cons] at formed
      have inside := walk_body_follows body formed.2 (open_agrees agrees (.block body))
      have closed := close_follows inside
      rw [behind_tail] at closed
      refine ⟨(silent_stmt walk (by simp)).cons ?_, closed.agrees⟩
      exact closed.covers.rescope rfl rfl rfl rfl
  | .ifThen condition thenBranch, walk, formed, agrees => by
      simp only [Stmt.nodes, Node.all_well_formed_cons, Node.all_well_formed_append] at formed
      rcases formed with ⟨undeclared, conditionFormed, thenFormed⟩
      have tested := walk_expr_covers (plain_elsewhere layers) condition conditionFormed
        (matches_placed agrees)
      have taken := walk_stmt_follows thenBranch thenFormed
        (walk_expr_agrees (contextOf layers).owner condition agrees)
      rw [after_undeclared undeclared] at taken
      exact ⟨(silent_stmt walk (by simp)).cons (tested.append taken.covers), taken.agrees⟩
  | .ifElse condition thenBranch elseBranch, walk, formed, agrees => by
      simp only [Stmt.nodes, Node.all_well_formed_cons, Node.all_well_formed_append] at formed
      rcases formed with ⟨undeclared, ⟨conditionFormed, thenFormed⟩, elseFormed⟩
      have tested := walk_expr_covers (plain_elsewhere layers) condition conditionFormed
        (matches_placed agrees)
      have taken := walk_stmt_follows thenBranch thenFormed
        (walk_expr_agrees (contextOf layers).owner condition agrees)
      rw [after_undeclared undeclared.1] at taken
      have other := walk_stmt_follows elseBranch elseFormed taken.agrees
      rw [after_undeclared undeclared.2] at other
      refine ⟨(silent_stmt walk (by simp)).cons ?_, other.agrees⟩
      exact (tested.append taken.covers).append other.covers
  | .whileLoop condition body, walk, formed, agrees => by
      simp only [Stmt.nodes, Node.all_well_formed_cons, Node.all_well_formed_append] at formed
      rcases formed with ⟨undeclared, conditionFormed, bodyFormed⟩
      have tested := walk_expr_covers (plain_elsewhere layers) condition conditionFormed
        (matches_placed agrees)
      have repeated := walk_stmt_follows body bodyFormed
        (walk_expr_agrees (contextOf layers).owner condition agrees)
      rw [after_undeclared undeclared] at repeated
      exact ⟨(silent_stmt walk (by simp)).cons (tested.append repeated.covers),
        repeated.agrees⟩
  | .returnStmt keyword value, walk, formed, agrees => by
      simp only [Stmt.nodes, Node.all_well_formed_cons] at formed
      have checked := return_covers layers walk keyword value
      have sameScopes := return_scopes walk ((contextOf layers).routine == .topLevel)
        (value.isSome && (contextOf layers).routine == .constructor) keyword
      have given := walk_option_covers (plain_elsewhere layers) formed.2
        ((matches_placed agrees).of_scopes sameScopes)
      refine ⟨checked.cons given, ?_⟩
      rw [walkStmt, walk_option_scopes, sameScopes]
      exact agrees

theorem walk_routine_follows {layers : List Layer} (className : Option Token) :
    (decl : FunctionDecl) → {walk : Walk} →
    Node.AllWellFormed Token.Spelled decl.nodes → Matches walk.scopes layers →
      Follows (routinePositions className layers decl) layers walk
        (walkFunction ⟨(className.map (methodRoutine · decl.name)).getD .function,
          (contextOf layers).owner⟩ decl walk)
  | ⟨name, parameters, body⟩, walk, formed, agrees => by
      simp only [FunctionDecl.nodes, Node.all_well_formed_cons, Node.all_well_formed_append] at formed
      have opened := open_agrees agrees (.routine className ⟨name, parameters, body⟩)
      have declared := parameters_follow opened parameters
      have inside := walk_body_follows body formed.2.2 declared.agrees
      rw [context_of_openers (holding_all_openers parameters _), context_routine] at inside
      have closed := close_follows inside
      rw [behind_tail, holding_all_tail] at closed
      refine ⟨(silent_routine walk _).cons ?_, closed.agrees⟩
      exact (declared.covers.append closed.covers).rescope rfl rfl rfl rfl

theorem walk_methods_follows {layers : List Layer} (className : Token) :
    (decls : List FunctionDecl) → {walk : Walk} →
    Node.AllWellFormed Token.Spelled (methodNodes decls) → Matches walk.scopes layers →
      Follows (methodPositions className layers decls) layers walk
        (walkMethods (contextOf layers) className decls walk)
  | [], _, formed, agrees => ⟨.nil rfl rfl, agrees⟩
  | decl :: rest, walk, formed, agrees => by
      simp only [methodNodes, Node.all_well_formed_append] at formed
      have first := walk_routine_follows (some className) decl formed.1 agrees
      have others := walk_methods_follows className rest formed.2 first.agrees
      exact ⟨first.covers.append others.covers, others.agrees⟩

theorem walk_body_follows {layers : List Layer} : (stmts : List Stmt) → {walk : Walk} →
    Node.AllWellFormed Token.Spelled (bodyNodes stmts) → Matches walk.scopes layers →
      Follows (bodyPositions layers stmts) (behind layers stmts) walk
        (walkBody (contextOf layers) stmts walk)
  | [], walk, formed, agrees => ⟨silent_body walk [], agrees⟩
  | stmt :: rest, walk, formed, agrees => by
      simp only [bodyNodes, Node.all_well_formed_cons, Node.all_well_formed_append] at formed
      have first := walk_stmt_follows stmt formed.2.1 agrees
      have others := walk_body_follows rest formed.2.2 first.agrees
      rw [context_of_openers (after_openers layers stmt)] at others
      refine ⟨(silent_body walk _).cons ?_, others.agrees⟩
      exact first.covers.append others.covers

end

end Quill.Scope
