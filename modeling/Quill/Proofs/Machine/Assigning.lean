import Quill.Proofs.Machine.Initializing

/-!
Assignments to locals. Where the table has a distance for an assigned name, the frame at that
distance binds the name by the time the assigned value is known, however long ago and in
whatever call the frame was made. The resolver lets one assignment pass for which this does
not hold: in the initializer of the very local it assigns to, the scope holds the name
already, but the frame does not, and the assignment fails.
-/

namespace Quill

set_option autoImplicit false

namespace Scope

def BaseVariables (positions : List Position) : Prop :=
  ∀ position ∈ positions, ∀ className, position.1.pending = .baseClause className →
    ∃ id name, position.2 = .expr (.variableRef id name)

theorem base_variables_cons {layers : List Layer} {node : Node} {rest : List Position}
    (others : BaseVariables rest) : BaseVariables ((.plain layers, node) :: rest) :=
  List.forall_mem_cons.2
    ⟨fun className pending => absurd pending (plain_elsewhere layers className), others⟩

theorem base_variables_append {left right : List Position} (leftVariables : BaseVariables left)
    (rightVariables : BaseVariables right) : BaseVariables (left ++ right) :=
  List.forall_mem_append.2 ⟨leftVariables, rightVariables⟩

theorem expr_base_variables {place : Place}
    (elsewhere : ∀ className, place.pending ≠ .baseClause className) (expr : Expr) :
    BaseVariables (exprPositions place expr) := by
  intro position member className pending
  obtain ⟨term, -, rfl⟩ := List.mem_map.1 member
  exact absurd pending (elsewhere className)

theorem plain_base_variables (layers : List Layer) (expr : Expr) :
    BaseVariables (exprPositions (.plain layers) expr) :=
  expr_base_variables (plain_elsewhere layers) expr

theorem option_base_variables {place : Place}
    (elsewhere : ∀ className, place.pending ≠ .baseClause className) (value : Option Expr) :
    BaseVariables (optionPositions place value) := by
  cases value with
  | none => exact List.forall_mem_nil _
  | some expr => exact expr_base_variables elsewhere expr

theorem parameters_base_variables (layers : List Layer) (names : List Token) :
    BaseVariables (parameterPositions layers names) := by
  induction names generalizing layers with
  | nil => exact List.forall_mem_nil _
  | cons name rest induction => exact base_variables_cons (induction _)

mutual

theorem stmt_base_variables {layers : List Layer} : (stmt : Stmt) →
    Node.AllWellFormed Token.Spelled stmt.nodes → BaseVariables (stmtPositions layers stmt)
  | .expression expr, _ => base_variables_cons (plain_base_variables layers expr)
  | .varDecl name initializer, _ =>
      base_variables_cons (base_variables_cons
        (option_base_variables (initializer_elsewhere name) initializer))
  | .functionDecl decl, formed => by
      simp only [Stmt.nodes, Node.all_well_formed_cons] at formed
      exact base_variables_cons (base_variables_cons (routine_base_variables none decl formed.2.2))
  | .classDecl name base methods, formed => by
      simp only [Stmt.nodes, Node.all_well_formed_cons, Node.all_well_formed_append] at formed
      refine base_variables_cons (base_variables_cons (base_variables_append ?_
        (methods_base_variables name methods formed.2.2.2)))
      cases base with
      | none => exact List.forall_mem_nil _
      | some base =>
          obtain ⟨id, baseName, rfl⟩ := formed.1
          exact List.forall_mem_singleton.2 fun _ _ => ⟨id, baseName, rfl⟩
  | .block body, formed => by
      simp only [Stmt.nodes, Node.all_well_formed_cons] at formed
      exact base_variables_cons (body_base_variables body formed.2)
  | .ifThen condition thenBranch, formed => by
      simp only [Stmt.nodes, Node.all_well_formed_cons, Node.all_well_formed_append] at formed
      exact base_variables_cons (base_variables_append (plain_base_variables layers condition)
        (stmt_base_variables thenBranch formed.2.2))
  | .ifElse condition thenBranch elseBranch, formed => by
      simp only [Stmt.nodes, Node.all_well_formed_cons, Node.all_well_formed_append] at formed
      exact base_variables_cons (base_variables_append (base_variables_append
        (plain_base_variables layers condition) (stmt_base_variables thenBranch formed.2.1.2))
        (stmt_base_variables elseBranch formed.2.2))
  | .whileLoop condition body, formed => by
      simp only [Stmt.nodes, Node.all_well_formed_cons, Node.all_well_formed_append] at formed
      exact base_variables_cons (base_variables_append (plain_base_variables layers condition)
        (stmt_base_variables body formed.2.2))
  | .returnStmt _ value, _ =>
      base_variables_cons (option_base_variables (plain_elsewhere layers) value)

theorem routine_base_variables {layers : List Layer} (className : Option Token) :
    (decl : FunctionDecl) → Node.AllWellFormed Token.Spelled decl.nodes →
      BaseVariables (routinePositions className layers decl)
  | ⟨name, parameters, body⟩, formed => by
      simp only [FunctionDecl.nodes, Node.all_well_formed_cons, Node.all_well_formed_append] at formed
      exact base_variables_cons (base_variables_append (parameters_base_variables _ parameters)
        (body_base_variables body formed.2.2))

theorem methods_base_variables {layers : List Layer} (className : Token) :
    (decls : List FunctionDecl) → Node.AllWellFormed Token.Spelled (methodNodes decls) →
      BaseVariables (methodPositions className layers decls)
  | [], _ => List.forall_mem_nil _
  | decl :: rest, formed => by
      simp only [methodNodes, Node.all_well_formed_append] at formed
      exact base_variables_append (routine_base_variables _ decl formed.1)
        (methods_base_variables className rest formed.2)

theorem body_base_variables {layers : List Layer} : (stmts : List Stmt) →
    Node.AllWellFormed Token.Spelled (bodyNodes stmts) → BaseVariables (bodyPositions layers stmts)
  | [], _ => base_variables_cons (List.forall_mem_nil _)
  | stmt :: rest, formed => by
      simp only [bodyNodes, Node.all_well_formed_cons, Node.all_well_formed_append] at formed
      exact base_variables_cons (base_variables_append (stmt_base_variables stmt formed.2.1)
        (body_base_variables rest formed.2.2))

end

end Scope

namespace Machine

open Scope (Layer Place Position positions NearestAt)

/-- The assignment with this number stands in the initializer of the local that it assigns to. -/
def AssignsOwnInitializer (statements : List Stmt) (id : Nat) : Prop :=
  ∃ layers declared name value,
    (⟨layers, .initializer declared⟩, .expr (.assign id name value)) ∈ positions statements ∧
      layers ≠ [] ∧ declared.lexeme = name.lexeme

def assignsPending (id : Nat) : Position → Bool
  | (⟨_ :: _, .initializer declared⟩, .expr (.assign other name _)) =>
      other == id && declared.lexeme == name.lexeme
  | _ => false

theorem assigns_own_initializer_iff (statements : List Stmt) (id : Nat) :
    AssignsOwnInitializer statements id ↔ (positions statements).any (assignsPending id) = true := by
  rw [List.any_eq_true]
  constructor
  · rintro ⟨layers, declared, name, value, member, inside, same⟩
    obtain ⟨layer, outer, rfl⟩ := List.exists_cons_of_ne_nil inside
    exact ⟨_, member, by simp [assignsPending, same]⟩
  · rintro ⟨position, member, pending⟩
    unfold assignsPending at pending
    split at pending
    · simp only [Bool.and_eq_true, beq_iff_eq] at pending
      obtain ⟨rfl, same⟩ := pending
      exact ⟨_, _, _, _, member, List.cons_ne_nil _ _, same⟩
    · cases pending

instance (statements : List Stmt) (id : Nat) : Decidable (AssignsOwnInitializer statements id) :=
  decidable_of_iff _ (assigns_own_initializer_iff statements id).symm

namespace Accepted

variable {program : Program} (accepted : Accepted program)

include accepted

theorem base_variables : Scope.BaseVariables (positions program.statements) :=
  Scope.body_base_variables program.statements accepted.made.formed

theorem assigned_declared {place : Place} {id : Nat} {name : Token} {value : Expr}
    (member : (place, .expr (.assign id name value)) ∈ positions program.statements)
    (inside : place.layers ≠ []) (elsewhere : ¬ AssignsOwnInitializer program.statements id) :
    ∀ pending, place.pending.name? = some pending → pending.lexeme ≠ name.lexeme := by
  intro declared found same
  rcases place with ⟨layers, pending⟩
  cases pending with
  | nothing => cases found
  | initializer initialized =>
      cases found
      exact elsewhere ⟨layers, declared, name, value, member, inside, same⟩
  | baseClause className =>
      obtain ⟨other, baseName, isVariable⟩ := accepted.base_variables _ member className rfl
      cases isVariable

theorem assigned_bound {store : Store} {environment : FrameRef} {place : Place} {id : Nat}
    {name : Token} {value : Expr} {distance : Nat}
    (member : (place, .expr (.assign id name value)) ∈ positions program.statements)
    (elsewhere : ¬ AssignsOwnInitializer program.statements id)
    (fits : Fits store environment place.layers)
    (found : program.locals.get? id = some distance) :
    ∃ holder old, store.heap.ancestor? environment distance = some holder ∧
      store.heap.local? holder name.lexeme = some old := by
  have nearest := (accepted.entry_iff member rfl distance).1 found
  have inside : place.layers ≠ [] := by
    intro outermost
    have bound := nearest_lt nearest
    rw [held_length, outermost] at bound
    exact Nat.not_lt_zero _ bound
  exact fits_read fits nearest (accepted.assigned_declared member inside elsewhere)

end Accepted

theorem local_slot {program : Program} (accepted : Accepted program) {reached : State}
    {value : Value} {id : Nat} {name : Token} {stack : List Task} {origins : List Origin}
    (inStep : InStep program ⟨⟨reached, .done value, .assign id name :: stack⟩, origins⟩)
    {distance : Nat} (entry : program.locals.get? id = some distance)
    (elsewhere : ¬ AssignsOwnInitializer program.statements id) :
    ∃ holder old, reached.heap.ancestor? reached.environment distance = some holder ∧
      reached.heap.local? holder name.lexeme = some old ∧
        reached.slot id name.lexeme = .ok holder := by
  cases inStep.runs with
  | done waits =>
      obtain ⟨place, node, member, continues, fits, -⟩ := waits_top waits
      cases continues
      obtain ⟨holder, old, found, bound⟩ := accepted.assigned_bound member elsewhere fits entry
      change reached.heap.ancestor? reached.environment distance = some holder at found
      change reached.heap.local? holder name.lexeme = some old at bound
      have locals : reached.locals = program.locals := inStep.state.locals
      refine ⟨holder, old, found, bound, ?_⟩
      simp only [State.slot, Heap.slotAt, locals, entry, found, bound]

/-- In the initializer of the local that it assigns to, an assignment finds nothing to
overwrite. -/
theorem own_local_unbound {program : Program} (accepted : Accepted program) {reached : State}
    {value : Value} {id : Nat} {name : Token} {stack : List Task} {origins : List Origin}
    (inStep : InStep program ⟨⟨reached, .done value, .assign id name :: stack⟩, origins⟩)
    (expects : Expects ⟨reached, .done value, .assign id name :: stack⟩)
    (feeding : Feeding program.statements ⟨reached, .done value, .assign id name :: stack⟩)
    (own : AssignsOwnInitializer program.statements id) :
    reached.slot id name.lexeme = .error (.undefinedVariable name.lexeme) := by
  obtain ⟨layers, declared, target, assigned, ownMember, inside, same⟩ := own
  cases inStep.runs with
  | done waits =>
      obtain ⟨place, node, member, continues, fits, -⟩ := waits_top waits
      cases continues
      obtain ⟨rfl, sameTerm⟩ := accepted.unique ownMember member rfl
      cases sameTerm
      obtain ⟨layer, outer, rfl⟩ := List.exists_cons_of_ne_nil inside
      have entry : program.locals.get? id = some 0 := by
        refine (accepted.entry_iff member rfl 0).2 ((Scope.nearest_at_cons _ _ _ _).2 (.inl ⟨?_, rfl⟩))
        exact same ▸ List.mem_cons_self
      have feeds : Feeds declared (.assign id name :: stack) :=
        .inside rfl (feeding.stack.1 (.assign id name assigned) rfl _ _ member)
      have absent := feeds_absent feeds expects.unborn (fits_inner fits)
      change reached.heap.local? reached.environment declared.lexeme = none at absent
      rw [same] at absent
      have locals : reached.locals = program.locals := inStep.state.locals
      simp only [State.slot, Heap.slotAt, Heap.ancestor?, locals, entry, absent]

/-- What an assignment to a local comes to once its value is known. In the frame at its distance
it overwrites what the name was bound to, and it never fails, except in the initializer of the
local that it assigns to, where it always does. -/
theorem local_assignment_outcome {source : String} {program : Program}
    (compiles : Program.compile source = .ok program) (state : State) (steps : Nat)
    {reached : State} {value : Value} {id : Nat} {name : Token} {stack : List Task} {distance : Nat}
    (known : (program.load state).run steps = ⟨reached, .done value, .assign id name :: stack⟩)
    (entry : program.locals.get? id = some distance) :
    (¬ AssignsOwnInitializer program.statements id →
      ∃ holder old, reached.heap.ancestor? reached.environment distance = some holder ∧
        reached.heap.local? holder name.lexeme = some old ∧
          (program.load state).run (steps + 1) =
            ⟨reached.define holder name.lexeme value, .done value, stack⟩) ∧
      (AssignsOwnInitializer program.statements id →
        (program.load state).run (steps + 1) =
          fail reached name.line (.access (.undefinedVariable name.lexeme)) stack) := by
  have accepted := compile_accepted compiles
  have inStep := reached_in_step accepted state steps
  have same := reached_machine program state steps
  have expects := expects_run accepted state steps
  have feeding := feeding_run accepted state steps
  rw [known] at same expects feeding
  rcases shape : Machine.reached program state steps with ⟨machine, origins⟩
  rw [shape] at inStep same
  cases same
  constructor
  · intro elsewhere
    obtain ⟨holder, old, found, bound, slot⟩ := local_slot accepted inStep entry elsewhere
    refine ⟨holder, old, found, bound, ?_⟩
    rw [run_succ, known]
    simp only [next, resume, slot]
  · intro own
    have slot := own_local_unbound accepted inStep expects feeding own
    rw [run_succ, known]
    simp only [next, resume, slot]

def assigning? (machine : Machine) : Option (Nat × Token) :=
  match machine with
  | ⟨_, .done _, .assign id name :: _⟩ => some (id, name)
  | _ => none

theorem assigning_shape {machine : Machine} {id : Nat} {name : Token}
    (assigning : machine.assigning? = some (id, name)) :
    ∃ state value stack, machine = ⟨state, .done value, .assign id name :: stack⟩ := by
  unfold assigning? at assigning
  split at assigning
  · cases assigning
    exact ⟨_, _, _, rfl⟩
  · cases assigning

def captured : String := "\x7b var n = 1; function f() \x7b n = n + 1; \x7d f(); \x7d"

theorem local_assignment_outcome_captured :
    ∃ program reached value id name stack, Program.compile captured = .ok program ∧
      (program.load (.fresh ⟨9, fun _ => 0⟩ .unlimited)).run 21 =
        ⟨reached, .done value, .assign id name :: stack⟩ ∧
      program.locals.get? id = some 1 ∧ ¬ AssignsOwnInitializer program.statements id ∧
      ∃ holder old, reached.heap.ancestor? reached.environment 1 = some holder ∧
        reached.heap.local? holder name.lexeme = some old ∧
          (program.load (.fresh ⟨9, fun _ => 0⟩ .unlimited)).run 22 =
            ⟨reached.define holder name.lexeme value, .done value, stack⟩ := by
  have checked : (Program.compile captured).toOption.bind (fun program =>
      ((program.load (.fresh ⟨9, fun _ => 0⟩ .unlimited)).run 21).assigning?.bind fun assigning =>
        (program.locals.get? assigning.1).map fun distance =>
          (distance, decide (AssignsOwnInitializer program.statements assigning.1))) =
        some (1, false) := by decide +kernel
  simp only [Option.bind_eq_some_iff, Option.map_eq_some_iff, Prod.mk.injEq,
    decide_eq_false_iff_not] at checked
  obtain ⟨program, compiled, ⟨id, name⟩, assigning, distance, entry, rfl, elsewhere⟩ := checked
  obtain ⟨reached, value, stack, known⟩ := assigning_shape assigning
  have compiles := compiles_of_option compiled
  exact ⟨program, reached, value, id, name, stack, compiles, known, entry, elsewhere,
    (local_assignment_outcome compiles _ 21 known entry).1 elsewhere⟩

def Control.fault? : Control → Option (Located Fault)
  | .failing fault => some fault
  | _ => none

def premature : String := "\x7b var x = (x = 1); print(x); \x7d"

/-- The resolver accepts an assignment to a local in its own initializer, and has a distance for it,
but the frame at that distance does not bind the name yet. -/
theorem own_initializer_undefined :
    ∃ program id name, Program.compile premature = .ok program ∧
      ((program.load (.fresh ⟨9, fun _ => 0⟩ .unlimited)).run 7).assigning? = some (id, name) ∧
      program.locals.get? id = some 0 ∧ AssignsOwnInitializer program.statements id ∧
      ((program.load (.fresh ⟨9, fun _ => 0⟩ .unlimited)).run 8).control.fault? =
        some ⟨1, .access (.undefinedVariable "x")⟩ := by
  have checked : (Program.compile premature).toOption.bind (fun program =>
      ((program.load (.fresh ⟨9, fun _ => 0⟩ .unlimited)).run 7).assigning?.bind fun assigning =>
        (program.locals.get? assigning.1).bind fun distance =>
          ((program.load (.fresh ⟨9, fun _ => 0⟩ .unlimited)).run 8).control.fault?.map fun fault =>
            (distance, decide (AssignsOwnInitializer program.statements assigning.1), fault)) =
        some (0, true, ⟨1, .access (.undefinedVariable "x")⟩) := by decide +kernel
  simp only [Option.bind_eq_some_iff, Option.map_eq_some_iff, Prod.mk.injEq,
    decide_eq_true_eq] at checked
  obtain ⟨program, compiled, ⟨id, name⟩, assigning, distance, entry, fault, fails, rfl, inside,
    rfl⟩ := checked
  exact ⟨program, id, name, compiles_of_option compiled, assigning, entry, inside, fails⟩

end Machine

end Quill
