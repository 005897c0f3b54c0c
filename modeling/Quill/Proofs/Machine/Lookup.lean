import Quill.Proofs.Machine.Waiting

/-!
Lookups at run time. In a frame that fits the place of an expression, the distance that the
table gives for its name leads to a frame that exists; a name that is read is bound there;
and where `base` may be used, the frames at its distance and one nearer hold the base class
and the receiver.
-/

namespace Quill.Machine

set_option autoImplicit false

open Scope (Layer Place Position positions NearestAt lookedUp? Violates Lawful)

structure Accepted (program : Program) : Prop where
  made : WellMade program.statements
  resolved : Scope.resolve program.statements = .ok program.locals

theorem compile_accepted {source : String} {program : Program}
    (compiles : Program.compile source = .ok program) : Accepted program := by
  obtain ⟨parsed, parses, -, same, resolved⟩ := compile_ok compiles
  rw [same] at resolved
  exact ⟨same ▸ parse_well_made parses, resolved⟩

namespace Accepted

variable {program : Program} (accepted : Accepted program)

include accepted

theorem lawful : Lawful (positions program.statements) :=
  (Scope.resolve_ok_iff_lawful accepted.made).1 ⟨_, accepted.resolved⟩

theorem tidy : Scope.AllTidy (positions program.statements) :=
  Scope.body_tidy program.statements accepted.made.formed .nil

theorem formed {place : Place} {node : Node}
    (member : (place, node) ∈ positions program.statements) : node.WellFormed Token.Spelled := by
  apply accepted.made.formed
  rw [← Scope.positions_nodes]
  exact List.mem_map_of_mem member

theorem unique {place other : Place} {term same : Expr}
    (member : (place, .expr term) ∈ positions program.statements)
    (otherMember : (other, .expr same) ∈ positions program.statements)
    (id : term.id = same.id) : place = other ∧ term = same := by
  have distinct := accepted.made.distinct
  rw [← Scope.positions_nodes] at distinct
  have found := Scope.position_unique distinct member otherMember (congrArg some id) rfl
  cases found
  exact ⟨rfl, rfl⟩

/-- The table has the distance of a name exactly where a scope holds it, and then that of the
nearest one. Names that no scope holds have no entry and are global. -/
theorem entry_iff {place : Place} {term : Expr} {name : String}
    (member : (place, .expr term) ∈ positions program.statements)
    (looked : lookedUp? term = some name) (distance : Nat) :
    program.locals.get? term.id = some distance ↔ NearestAt place.held name distance := by
  rw [Scope.resolve_get accepted.made accepted.resolved]
  constructor
  · intro entry
    rcases entry with ⟨other, same, sought, otherMember, id, otherLooked, nearest⟩
    obtain ⟨rfl, rfl⟩ := accepted.unique member otherMember id.symm
    cases looked.symm.trans otherLooked
    exact nearest
  · intro nearest
    exact ⟨place, term, name, member, rfl, looked, nearest⟩

/-- A name that is read is not the one in the course of declaration, for the resolver would have
rejected it as a use in its own initializer. -/
theorem read_declared {place : Place} {term : Expr} {name : String}
    (member : (place, .expr term) ∈ positions program.statements)
    (looked : lookedUp? term = some name) (reads : ∀ id target value, term ≠ .assign id target value)
    (inside : place.layers ≠ []) :
    ∀ pending, place.pending.name? = some pending → pending.lexeme ≠ name := by
  intro declared found same
  have lawful := accepted.lawful _ member
  have ordinary := (accepted.tidy _ member).pending declared found
  rw [same] at ordinary
  cases term with
  | variableRef id token =>
      cases looked
      apply lawful
      cases pending : place.pending with
      | nothing => simp [pending, Scope.Pending.name?] at found
      | initializer initialized =>
          rw [pending] at found
          cases found
          exact .ownInitializer inside pending same
      | baseClause className =>
          rw [pending] at found
          cases found
          exact .selfBase pending same.symm
  | thisRef id keyword =>
      cases looked
      exact ordinary.1 rfl
  | baseRef id keyword method =>
      cases looked
      exact ordinary.2 rfl
  | assign id target value => exact reads id target value rfl
  | _ => cases looked

theorem read_bound {store : Store} {environment : FrameRef} {place : Place} {term : Expr}
    {name : String} {distance : Nat} (member : (place, .expr term) ∈ positions program.statements)
    (looked : lookedUp? term = some name) (reads : ∀ id target value, term ≠ .assign id target value)
    (fits : Fits store environment place.layers)
    (found : program.locals.get? term.id = some distance) :
    ∃ holder value, store.heap.ancestor? environment distance = some holder ∧
      store.heap.local? holder name = some value := by
  have nearest := (accepted.entry_iff member looked distance).1 found
  have inside : place.layers ≠ [] := by
    intro outermost
    have bound := nearest_lt nearest
    rw [held_length, outermost] at bound
    exact Nat.not_lt_zero _ bound
  exact fits_read fits nearest (accepted.read_declared member looked reads inside)

theorem entry_reaches {store : Store} {environment : FrameRef} {place : Place} {term : Expr}
    {name : String} {distance : Nat} (member : (place, .expr term) ∈ positions program.statements)
    (looked : lookedUp? term = some name) (fits : Fits store environment place.layers)
    (found : program.locals.get? term.id = some distance) :
    ∃ holder, store.heap.ancestor? environment distance = some holder := by
  have bound := nearest_lt ((accepted.entry_iff member looked distance).1 found)
  rw [held_length] at bound
  exact fits_reaches fits bound

theorem base_class {place : Place} {id : Nat} {keyword method : Token}
    (member : (place, .expr (.baseRef id keyword method)) ∈ positions program.statements) :
    ∃ className, place.class? = some (className, true) := by
  have lawful := accepted.lawful _ member
  cases inside : place.class? with
  | none => exact absurd (.strayBase inside) lawful
  | some found =>
      rcases found with ⟨className, isDerived⟩
      cases isDerived with
      | false => exact absurd (.plainBase inside) lawful
      | true => exact ⟨className, rfl⟩

/-- Where `base` may be used, the first scope that holds it belongs to the innermost class. -/
theorem base_layers {place : Place} {id : Nat} {keyword method : Token}
    (member : (place, .expr (.baseRef id keyword method)) ∈ positions program.statements) :
    ∃ className inner names outer, place.layers =
        inner ++ ⟨.receiver className true, names⟩ :: ⟨.base className, ["base"]⟩ :: outer ∧
      NearestAt place.held "base" (inner.length + 1) := by
  have tidy := accepted.tidy _ member
  obtain ⟨className, inside⟩ := accepted.base_class member
  obtain ⟨inner, names, outer, around, absent, receiver⟩ := Scope.tidy_derived tidy.layers inside
  refine ⟨className, inner, names, outer, around, ?_⟩
  have declared : ∀ pending, place.pending.name? = some pending → pending.lexeme ≠ "base" := by
    intro pending found
    exact (tidy.pending pending found).2
  rw [Scope.nearest_held declared]
  refine ⟨inner ++ [⟨.receiver className true, names⟩], ⟨.base className, ["base"]⟩, outer, ?_, ?_,
    ?_, ?_⟩
  · rw [List.append_assoc]
    exact around
  · exact List.mem_singleton_self _
  · simpa [or_imp, forall_and, receiver] using absent
  · simp

end Accepted

end Quill.Machine
