import Quill.Proofs.Scope.Rules

/-!
The result of resolution. A program resolves if and only if no node breaks a rule at its
place, and the table then has, for each expression that looks up a name which some scope
around it holds, the distance to the nearest such scope, and nothing else. Since no two
expressions have the same number, no entry replaces another.
-/

namespace Quill.Scope

set_option autoImplicit false

theorem record_get (entries : List (Nat × Nat)) (table : Table)
    (distinct : (entries.map Prod.fst).Nodup) (id distance : Nat) :
    (entries.foldl record table).get? id = some distance ↔
      (id, distance) ∈ entries ∨ id ∉ entries.map Prod.fst ∧ table.get? id = some distance := by
  induction entries generalizing table with
  | nil => simp
  | cons entry rest induction =>
      rcases entry with ⟨key, held⟩
      rw [List.map_cons, List.nodup_cons] at distinct
      rcases distinct with ⟨fresh, restDistinct⟩
      rw [List.foldl_cons, induction (record table (key, held)) restDistinct, record, Table.get_insert]
      by_cases same : id = key
      · subst same
        have absent : (id, distance) ∉ rest := by
          intro member
          exact fresh (List.mem_map.2 ⟨_, member, rfl⟩)
        simp [fresh, absent, eq_comm]
      · simp [same]

theorem recorded_id {position : Position} {entry : Nat × Nat} (found : recorded? position = some entry) :
    position.2.id? = some entry.1 := by
  rcases position with ⟨place, node⟩
  cases node with
  | expr term =>
      simp only [recorded?, Option.bind_eq_bind, Option.bind_eq_some_iff, Option.some.injEq] at found
      rcases found with ⟨name, looked, distance, held, rfl⟩
      rfl
  | _ => simp [recorded?] at found

theorem recorded_ids_sublist (positions : List Position) :
    ((positions.filterMap recorded?).map Prod.fst).Sublist (nodeIds (positions.map Prod.snd)) := by
  induction positions with
  | nil => exact .slnil
  | cons position rest induction =>
      unfold nodeIds at induction ⊢
      rw [List.map_cons, List.filterMap_cons, List.filterMap_cons]
      cases found : recorded? position with
      | none =>
          cases position.2.id? with
          | none => exact induction
          | some id => exact induction.cons _
      | some entry =>
          rw [recorded_id found]
          exact induction.cons_cons _

theorem positions_nodes (statements : List Stmt) :
    (positions statements).map Prod.snd = bodyNodes statements :=
  body_positions_nodes [] statements

theorem walk_covers {statements : List Stmt} (made : WellMade statements) :
    Covers (positions statements) .start (walkBody ⟨.topLevel, .outside⟩ statements .start) := by
  have agrees : Matches Walk.start.scopes [] := .nil
  exact (walk_body_follows statements made.formed agrees).covers

theorem resolve_ok_iff_lawful {statements : List Stmt} (made : WellMade statements) :
    (∃ table, resolve statements = .ok table) ↔ Lawful (positions statements) := by
  obtain ⟨added, grown, none⟩ := (walk_covers made).faults
  have charged : (walkBody ⟨.topLevel, .outside⟩ statements .start).faults = added := grown
  unfold resolve
  simp only [← none, charged]
  cases added with
  | nil => simp
  | cons fault rest => simp

theorem mem_recorded (positions : List Position) (id distance : Nat) :
    (id, distance) ∈ positions.filterMap recorded? ↔
      ∃ place term name, (place, .expr term) ∈ positions ∧ term.id = id ∧
        lookedUp? term = some name ∧ NearestAt place.held name distance := by
  rw [List.mem_filterMap]
  constructor
  · intro entry
    rcases entry with ⟨⟨place, node⟩, member, found⟩
    cases node with
    | expr term =>
        simp only [recorded?, Option.bind_eq_bind, Option.bind_eq_some_iff, Option.some.injEq,
          Prod.mk.injEq] at found
        rcases found with ⟨name, looked, further, nearest, rfl, rfl⟩
        exact ⟨place, term, name, member, rfl, looked, (distance_nearest _ _ _).1 nearest⟩
    | _ => simp [recorded?] at found
  · intro entry
    rcases entry with ⟨place, term, name, member, rfl, looked, nearest⟩
    refine ⟨(place, .expr term), member, ?_⟩
    simp [recorded?, looked, (distance_nearest _ _ _).2 nearest]

theorem resolve_get {statements : List Stmt} {table : Table} (made : WellMade statements)
    (resolved : resolve statements = .ok table) (id distance : Nat) :
    table.get? id = some distance ↔
      ∃ place term name, (place, .expr term) ∈ positions statements ∧ term.id = id ∧
        lookedUp? term = some name ∧ NearestAt place.held name distance := by
  have lawful := (resolve_ok_iff_lawful made).1 ⟨table, resolved⟩
  have found := (walk_covers made).table lawful
  have result : table = (walkBody ⟨.topLevel, .outside⟩ statements .start).table := by
    unfold resolve at resolved
    simp only at resolved
    split at resolved
    · exact (Except.ok.inj resolved).symm
    · cases resolved
  have distinct : (((positions statements).filterMap recorded?).map Prod.fst).Nodup := by
    have sublist := recorded_ids_sublist (positions statements)
    rw [positions_nodes] at sublist
    exact made.distinct.sublist sublist
  rw [result, found, record_get _ _ distinct, mem_recorded]
  simp [Walk.start]

/-- A program resolves if and only if it breaks no scoping rule, and its table then leads
every name to the nearest scope that holds it. -/
theorem resolve_exact {source : String} {parsed : Grammar.Parse}
    (parses : Program.parse source = .ok parsed) :
    ((∃ table, resolve parsed.statements = .ok table) ↔
      ∀ place node, (place, node) ∈ positions parsed.statements → ¬ Violates place node) ∧
    ∀ table, resolve parsed.statements = .ok table → ∀ id distance,
      table.get? id = some distance ↔
        ∃ place term name, (place, .expr term) ∈ positions parsed.statements ∧ term.id = id ∧
          lookedUp? term = some name ∧ NearestAt place.held name distance := by
  have made := parse_well_made parses
  constructor
  · rw [resolve_ok_iff_lawful made]
    constructor
    · intro lawful place node member
      exact lawful (place, node) member
    · intro lawful position member
      exact lawful position.1 position.2 member
  · intro table resolved id distance
    exact resolve_get made resolved id distance

/-- Classes and functions inside a block, where a constructor hides names and uses `base`. -/
theorem resolve_exact_nested :
    ∃ parsed, Program.parse
        ("\x7b var x = 1; class A \x7b A(x) \x7b this.x = x; \x7d \x7d class B : A " ++
          "\x7b B(y) \x7b var f = base.A; f(y + x); return; \x7d \x7d \x7d") = .ok parsed ∧
      (∀ place node, (place, node) ∈ positions parsed.statements → ¬ Violates place node) ∧
      ∃ place term name, (place, .expr term) ∈ positions parsed.statements ∧ term.id = 9 ∧
        lookedUp? term = some name ∧ NearestAt place.held name 3 := by
  have checked : (Program.compile
      ("\x7b var x = 1; class A \x7b A(x) \x7b this.x = x; \x7d \x7d class B : A " ++
        "\x7b B(y) \x7b var f = base.A; f(y + x); return; \x7d \x7d \x7d")).toOption.bind
        (·.locals.get? 9) = some 3 := by decide +kernel
  obtain ⟨program, compiled, found⟩ := Option.bind_eq_some_iff.1 checked
  obtain ⟨parsed, parses, -, -, resolved⟩ := compile_ok (compiles_of_option compiled)
  obtain ⟨accepted, entries⟩ := resolve_exact parses
  exact ⟨parsed, parses, accepted.1 ⟨_, resolved⟩, (entries _ resolved _ _).1 found⟩

end Quill.Scope
