import Quill.Proofs.Machine.Lockstep

/-!
The frames of a run against the scopes of the resolver. At every point of a run the tags
from the frame in use outwards are the openers of the scopes that the resolver had open at
the node the machine attends to. So a distance of the table leads to the frame that it was
counted for, and the faults that would show a disagreement are never met.
-/

namespace Quill.Machine

set_option autoImplicit false

open Scope (Layer Place Position Visit positions visits lookedUp?)

/-- The node that the machine is at: what it is about to evaluate or execute, or what the topmost
task is a part of. It is at one until it halts. -/
def Attends (machine : Machine) (node : Node) : Prop :=
  match machine.control with
  | .evaluate term => node = .expr term
  | .execute clause => node = .stmt clause
  | _ => ∃ task stack, machine.stack = task :: stack ∧ Continues task node

/-- The messages of a machine that has lost the scopes of its program: a frame that is not there, a
`base` that leads nowhere, and operators that the parser never lets through. -/
def Forbidden (message : String) : Prop :=
  (∃ rest, message = "No environment at distance " ++ rest) ∨
    message = "Can't use 'base' here." ∨
      (∃ rest, message = "Unknown unary operator " ++ rest) ∨
        ∃ rest, message = "Unknown binary operator " ++ rest

def opening (message : String) : List Char := message.toList.take 4

theorem opening_append (front rest : String) (long : 4 ≤ front.toList.length) :
    opening (front ++ rest) = opening front := by
  unfold opening
  rw [String.toList_append, List.take_append_of_le_length long]

theorem forbidden_opening {message : String} (forbidden : Forbidden message) :
    opening message ∈ ["No e", "Can'", "Unkn"].map String.toList := by
  rcases forbidden with ⟨rest, rfl⟩ | rfl | ⟨rest, rfl⟩ | ⟨rest, rfl⟩
  · rw [opening_append _ _ (by decide)]
    decide
  · decide
  · rw [opening_append _ _ (by decide)]
    decide
  · rw [opening_append _ _ (by decide)]
    decide

theorem opening_quoted (front middle rest : String) (long : 4 ≤ front.toList.length) :
    opening (front ++ middle ++ rest) = opening front := by
  rw [String.append_assoc]
  exact opening_append front _ long

def Fault.opening : Fault → String
  | operandNotNumber | operandsNotNumbers | operandsNotAddable => "Oper"
  | unknownUnary _ | unknownBinary _ => "Unkn"
  | access (.undefinedVariable _) | undefinedProperty _ => "Unde"
  | access (.noFrameAt _) => "No e"
  | notCallable _ => "Can "
  | wrongArity _ _ => "Expe"
  | stackOverflow => "Stac"
  | noProperties | noFields => "Only"
  | misplacedBase => "Can'"
  | baseNotClass => "Base"
  | printFailed _ => "Prin"

theorem message_opening (fault : Fault) :
    Machine.opening fault.message = fault.opening.toList := by
  have starts (front letters rest : String) (long : 4 ≤ front.toList.length)
      (first : Machine.opening front = letters.toList) :
      Machine.opening (front ++ rest) = letters.toList := (opening_append front rest long).trans first
  have quoted (front letters middle rest : String) (long : 4 ≤ front.toList.length)
      (first : Machine.opening front = letters.toList) :
      Machine.opening (front ++ middle ++ rest) = letters.toList :=
    (opening_quoted front middle rest long).trans first
  cases fault with
  | operandNotNumber | operandsNotNumbers | operandsNotAddable | stackOverflow | noProperties
  | noFields | misplacedBase | baseNotClass => decide
  | unknownUnary kind =>
      exact quoted "Unknown unary operator " "Unkn" kind.name "." (by decide) (by decide)
  | unknownBinary kind =>
      exact quoted "Unknown binary operator " "Unkn" kind.name "." (by decide) (by decide)
  | access fault =>
      cases fault with
      | undefinedVariable name =>
          exact quoted "Undefined variable '" "Unde" name "'." (by decide) (by decide)
      | noFrameAt distance =>
          exact quoted "No environment at distance " "No e" (toString distance) "." (by decide)
            (by decide)
  | notCallable typeName =>
      exact quoted "Can only call functions and classes, not " "Can " typeName "." (by decide)
        (by decide)
  | wrongArity expected given =>
      change Machine.opening ("Expected " ++ toString expected ++ " arguments but got " ++
        toString given ++ ".") = _
      rw [String.append_assoc, String.append_assoc]
      exact quoted "Expected " "Expe" (toString expected) _ (by decide) (by decide)
  | undefinedProperty name =>
      exact quoted "Undefined property '" "Unde" name "'." (by decide) (by decide)
  | printFailed reason => exact starts "Print error: " "Prin" reason (by decide) (by decide)

theorem possible_opening {fault : Fault} (possible : ¬ Excluded fault) :
    opening fault.message ∈
      ["Oper", "Unde", "Can ", "Expe", "Stac", "Only", "Base", "Prin"].map String.toList := by
  rw [message_opening]
  refine List.mem_map_of_mem ?_
  cases fault with
  | unknownUnary kind | unknownBinary kind | misplacedBase => exact absurd True.intro possible
  | access fault =>
      cases fault with
      | undefinedVariable name => simp [Fault.opening]
      | noFrameAt distance => exact absurd True.intro possible
  | _ => simp [Fault.opening]

theorem possible_message {fault : Fault} (possible : ¬ Excluded fault) :
    ¬ Forbidden fault.message := by
  intro forbidden
  have apart : ∀ letters ∈ ["No e", "Can'", "Unkn"].map String.toList, letters ∉
      ["Oper", "Unde", "Can ", "Expe", "Stac", "Only", "Base", "Prin"].map String.toList := by
    decide
  exact apart _ (forbidden_opening forbidden) (possible_opening possible)

variable {program : Program} {tagged : Tagged}

/-- The frame in use has the tags of the scopes that it fits. -/
theorem around_openers (inStep : InStep program tagged) {layers : List Layer}
    (fits : Fits tagged.store tagged.machine.state.environment layers) :
    tagged.around = (Layer.openers layers).map originOf := by
  rcases inStep.state.store.outermost with ⟨outermost, found, parentless⟩
  have top : tagged.store.heap.parent? ⟨0⟩ = none := by
    rw [Heap.parent?, show tagged.store.heap.frame? ⟨0⟩ = some outermost from found,
      Option.bind_some, parentless]
  have tags := fits_origins fits top (fits_lt inStep.state.store fits)
  rw [Layer.openers, List.map_map]
  exact tags

theorem owing_openers (owed : Option Token) (layers : List Layer) :
    Layer.openers (owing owed layers) = Layer.openers layers := by
  cases owed with
  | none => rfl
  | some name => exact Scope.holding_openers name layers

theorem waits_around (inStep : InStep program tagged) {owed : Option Token}
    (waits : Waits program.statements tagged.store tagged.machine.state.environment owed
      tagged.machine.stack) (waiting : tagged.machine.stack.isEmpty = false) :
    ∃ place node, (place, node) ∈ positions program.statements ∧
      (∃ task stack, tagged.machine.stack = task :: stack ∧ Continues task node) ∧
        tagged.around = (Layer.openers place.layers).map originOf := by
  cases top : tagged.machine.stack with
  | nil => simp [top] at waiting
  | cons task stack =>
      rw [top] at waits
      cases waits with
      | task member continues around fits rest =>
          refine ⟨_, _, member, ⟨task, stack, rfl, continues⟩, ?_⟩
          rw [around, owing_openers]
          exact around_openers inStep fits

theorem in_step_attends (inStep : InStep program tagged)
    (running : tagged.machine.halted = false) :
    ∃ place node, (place, node) ∈ positions program.statements ∧ Attends tagged.machine node ∧
      tagged.around = (Layer.openers place.layers).map originOf := by
  have runs := inStep.runs
  rcases tagged with ⟨⟨state, control, stack⟩, origins⟩
  cases runs with
  | evaluate member fits waits => exact ⟨_, _, member, rfl, around_openers inStep fits⟩
  | execute member fits waits => exact ⟨_, _, member, rfl, around_openers inStep fits⟩
  | done waits => exact waits_around inStep waits running
  | returning waits => exact waits_around inStep waits running
  | failing possible waits => exact waits_around inStep waits running

theorem in_step_evaluates (inStep : InStep program tagged) {term : Expr}
    (control : tagged.machine.control = .evaluate term) :
    ∃ place, (place, .expr term) ∈ positions program.statements ∧
      Fits tagged.store tagged.machine.state.environment place.layers := by
  have runs := inStep.runs
  rw [control] at runs
  cases runs with
  | evaluate member fits waits => exact ⟨_, member, fits⟩

/-- A read of a name that the table knows never fails for want of the name: the frame at the
distance exists, and it holds the name. -/
theorem read_accessible (accepted : Accepted program) (inStep : InStep program tagged)
    {term : Expr} {name : String} {distance : Nat}
    (control : tagged.machine.control = .evaluate term) (looked : lookedUp? term = some name)
    (reads : ∀ id target value, term ≠ .assign id target value)
    (entry : program.locals.get? term.id = some distance) {fault : Located Fault}
    (fails : tagged.machine.next.control = .failing fault) (access : Heap.AccessFault) :
    fault.cause ≠ .access access := by
  obtain ⟨place, member, fits⟩ := in_step_evaluates inStep control
  obtain ⟨holder, value, reached, bound⟩ := accepted.read_bound member looked reads fits entry
  have sound := inStep.state
  rcases tagged with ⟨⟨state, current, stack⟩, origins⟩
  cases control
  have known : state.read term.id name = .ok value := by
    change state.heap.ancestor? state.environment distance = some holder at reached
    change state.heap.local? holder name = some value at bound
    unfold State.read
    rw [sound.locals, entry]
    simp only [Heap.readAt, reached, bound]
  cases term with
  | variableRef id token =>
      cases looked
      change (deliverRead state token.line (state.read id token.lexeme) stack).control = _ at fails
      rw [show state.read id token.lexeme = .ok value from known] at fails
      cases fails
  | thisRef id keyword =>
      cases looked
      have formed := accepted.formed member
      have spelled : keyword.lexeme = "this" := formed.2.this_lexeme formed.1
      change (deliverRead state keyword.line (state.read id keyword.lexeme) stack).control = _ at fails
      rw [spelled, show state.read id "this" = .ok value from known] at fails
      cases fails
  | baseRef id keyword method =>
      obtain ⟨parent, receiver, operands⟩ := base_operands_found accepted sound member fits
      change (evaluateBase state id keyword method stack).control = _ at fails
      unfold evaluateBase at fails
      rw [operands] at fails
      simp only at fails
      split at fails
      · cases fails
      · split at fails
        · cases fails
        · cases fails
          intro same
          cases same
  | assign id target value => exact absurd rfl (reads id target value)
  | _ => cases looked

/-- What holds at a point of a run whose frames are tagged with what made them. The resolver has
visited the node that the machine is at, with just these scopes open, and reads find what it has
seen. -/
structure Agrees (program : Program) (tagged : Tagged) : Prop where
  tags : tagged.origins.length = tagged.machine.state.heap.frames.size
  scopes : tagged.machine.halted = false →
    ∃ visit ∈ visits program.statements, Attends tagged.machine visit.node ∧
      visit.openers.length = visit.walk.scopes.length ∧ tagged.around = visit.openers.map originOf
  everyVisit : ∀ term, tagged.machine.control = .evaluate term →
    ∀ visit ∈ visits program.statements, visit.node = .expr term →
      tagged.around = visit.openers.map originOf
  reads : ∀ term name distance, tagged.machine.control = .evaluate term →
    lookedUp? term = some name → (∀ id target value, term ≠ .assign id target value) →
      program.locals.get? term.id = some distance →
        (∃ holder value,
          tagged.machine.state.heap.ancestor? tagged.machine.state.environment distance =
              some holder ∧ tagged.machine.state.heap.local? holder name = some value) ∧
          ∀ fault, tagged.machine.next.control = .failing fault →
            ∀ access, fault.cause ≠ .access access
  faults : ∀ fault, tagged.machine.control = .failing fault → ¬ Forbidden fault.cause.message

theorem at_scopes {visit : Visit} {place : Place} {node : Node} (isAt : visit.At (place, node)) :
    visit.openers.length = visit.walk.scopes.length := by
  rw [isAt.openers, isAt.placed.holds.length_eq, held_length, Layer.openers, List.length_map]

/-- What holds of a machine in step with the resolver, said by visits of the walk: each position
that the machine is at has been visited, with the scopes that the frames are tagged with. -/
theorem in_step_agrees (accepted : Accepted program) (inStep : InStep program tagged) :
    Agrees program tagged := by
  have seen := Scope.positions_seen accepted.made
  constructor
  · exact inStep.state.store.sized
  · intro running
    obtain ⟨place, node, member, attends, around⟩ := in_step_attends inStep running
    obtain ⟨visit, visited, isAt⟩ := seen.met _ member
    refine ⟨visit, visited, ?_, at_scopes isAt, ?_⟩
    · rw [isAt.node]
      exact attends
    · rw [isAt.openers]
      exact around
  · intro term control visit visited sameNode
    obtain ⟨place, member, fits⟩ := in_step_evaluates inStep control
    obtain ⟨⟨other, node⟩, otherMember, isAt⟩ := seen.positioned visit visited
    have same : node = .expr term := isAt.node.symm.trans sameNode
    rw [same] at otherMember
    rw [isAt.openers, (accepted.unique otherMember member rfl).1]
    exact around_openers inStep fits
  · intro term name distance control looked reads entry
    obtain ⟨place, member, fits⟩ := in_step_evaluates inStep control
    refine ⟨accepted.read_bound member looked reads fits entry, ?_⟩
    intro fault fails access
    exact read_accessible accepted inStep control looked reads entry fails access
  · intro fault control
    have runs := inStep.runs
    rw [control] at runs
    cases runs with
    | failing possible waits => exact possible_message possible

theorem table_visited (accepted : Accepted program) {visit : Visit} {term : Expr} {name : String}
    (visited : visit ∈ visits program.statements) (isTerm : visit.node = .expr term)
    (looked : lookedUp? term = some name) :
    program.locals.get? term.id = Scope.Walk.distance? visit.walk.scopes name := by
  obtain ⟨⟨place, node⟩, member, isAt⟩ := (Scope.positions_seen accepted.made).positioned _ visited
  have same : node = .expr term := isAt.node.symm.trans isTerm
  rw [same] at member
  rw [Scope.distance_matches isAt.placed.holds]
  apply Option.ext
  intro distance
  rw [accepted.entry_iff member looked, Scope.distance_nearest]

/-- The resolver and the machine agree on scopes. The table has the distances that the
resolver counted in the scopes it had open at each name, and at every point of a run the
frames are those of the scopes it had open at the node which the machine is at. -/
theorem scopes_agree {source : String} {program : Program}
    (compiles : Program.compile source = .ok program) (state : State) (steps : Nat) :
    (∀ visit ∈ visits program.statements, ∀ term name, visit.node = .expr term →
      lookedUp? term = some name →
        program.locals.get? term.id = Scope.Walk.distance? visit.walk.scopes name) ∧
      ((Tagged.start program state).run steps).machine = (program.load state).run steps ∧
        Agrees program ((Tagged.start program state).run steps) := by
  have accepted := compile_accepted compiles
  refine ⟨?_, tagged_run_machine steps _, ?_⟩
  · intro visit visited term name isTerm looked
    exact table_visited accepted visited isTerm looked
  · exact in_step_agrees accepted (in_step_run accepted steps (in_step_start program state))

theorem run_attends {source : String} {program : Program}
    (compiles : Program.compile source = .ok program) (state : State) {steps : Nat}
    (running : ((program.load state).run steps).halted = false) :
    ∃ node ∈ bodyNodes program.statements, Attends ((program.load state).run steps) node := by
  have accepted := compile_accepted compiles
  have inStep := in_step_run accepted steps (in_step_start program state)
  have same := tagged_run_machine steps (Tagged.start program state)
  rw [← show _ = (program.load state).run steps from same] at running ⊢
  obtain ⟨place, node, member, attends, -⟩ := in_step_attends inStep running
  refine ⟨node, ?_, attends⟩
  rw [← Scope.positions_nodes]
  exact List.mem_map_of_mem member

def Control.term? : Control → Option Expr
  | .evaluate term => some term
  | _ => none

def overriding : String :=
  "\x7b class A \x7b m() \x7b return this; \x7d \x7d " ++
    "class B : A \x7b m() \x7b \x7b return base.m(); \x7d \x7d \x7d var b = B(); b.m(); \x7d"

theorem scopes_agree_overriding :
    ∃ program term, Program.compile overriding = .ok program ∧
      ((program.load (.fresh ⟨9, fun _ => 0⟩ .unlimited)).run 26).control = .evaluate term ∧
        lookedUp? term = some "base" ∧ program.locals.get? term.id = some 3 ∧
          ((Tagged.start program (.fresh ⟨9, fun _ => 0⟩ .unlimited)).run 26).around.length = 5 ∧
            Agrees program ((Tagged.start program (.fresh ⟨9, fun _ => 0⟩ .unlimited)).run 26) := by
  have checked : (Program.compile overriding).toOption.bind (fun program =>
      let tagged := (Tagged.start program (.fresh ⟨9, fun _ => 0⟩ .unlimited)).run 26
      tagged.machine.control.term?.bind fun term =>
        (lookedUp? term).bind fun name =>
          (program.locals.get? term.id).map fun distance =>
            (name, distance, tagged.around.length)) = some ("base", 3, 5) := by decide +kernel
  simp only [Option.bind_eq_some_iff, Option.map_eq_some_iff, Prod.mk.injEq] at checked
  rcases checked with
    ⟨program, compiled, term, control, name, looked, distance, entry, rfl, rfl, length⟩
  have compiles := compiles_of_option compiled
  obtain ⟨-, machine, agrees⟩ := scopes_agree compiles (.fresh ⟨9, fun _ => 0⟩ .unlimited) 26
  refine ⟨program, term, compiles, ?_, looked, entry, length, agrees⟩
  rw [← machine]
  revert control
  cases ((Tagged.start program (.fresh ⟨9, fun _ => 0⟩ .unlimited)).run 26).machine.control with
  | evaluate current =>
      intro found
      rw [Control.term?, Option.some.injEq] at found
      rw [found]
  | _ => intro found; cases found

end Quill.Machine
