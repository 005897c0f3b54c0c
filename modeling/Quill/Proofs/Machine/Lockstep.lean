import Quill.Proofs.Machine.Lookup
import Quill.Proofs.Machine.Outcomes
import Quill.Proofs.Scope.Visits

/-!
The machine and the resolver in step. Frames are tagged as the machine makes them, and at
every point of a run the frame in use fits the place of the node that the machine attends
to. One step keeps this whatever it does; a run is a number of steps.
-/

namespace Quill.Machine

set_option autoImplicit false

open Scope (Layer Place Position positions below holding holdingAll routinePositions)

/-- Faults that no program meets which compiles. The resolver has seen to the places of `base` and
to the distances, and the parser lets no other operators through. -/
def Excluded : Fault → Prop
  | .unknownUnary _ => True
  | .unknownBinary _ => True
  | .misplacedBase => True
  | .access (.noFrameAt _) => True
  | _ => False

def callOrigins (heap : Heap) : Value → List Origin
  | .functionRef ref => ((heap.function? ref).map fun closure => [.call closure.decl]).getD []
  | .classRef ref => ((heap.constructor? ref).map fun method => [.receiver, .call method.decl]).getD []
  | _ => []

def stepOrigins (machine : Machine) : List Origin :=
  match machine.control, machine.stack with
  | .evaluate (.baseRef _ _ _), _ => [.receiver]
  | .execute (.block body), _ => [.block body]
  | .done _, .getProperty _ :: _ => [.receiver]
  | .done _, .classBase _ _ _ :: _ => [.base]
  | .done callee, .callee _ [] :: _ => callOrigins machine.state.heap callee
  | .done _, .argument callee _ _ [] :: _ => callOrigins machine.state.heap callee
  | _, _ => []

structure Tagged where
  machine : Machine
  origins : List Origin

namespace Tagged

def store (tagged : Tagged) : Store := ⟨tagged.machine.state.heap, tagged.origins⟩

def next (tagged : Tagged) : Tagged where
  machine := tagged.machine.next
  origins := tagged.origins ++ (stepOrigins tagged.machine).take
    (tagged.machine.next.state.heap.frames.size - tagged.machine.state.heap.frames.size)

def run : Nat → Tagged → Tagged
  | 0, tagged => tagged
  | count + 1, tagged => run count tagged.next

def around (tagged : Tagged) : List Origin :=
  originsFrom tagged.store tagged.machine.state.heap.frames.size tagged.machine.state.environment

end Tagged

structure StateSound (program : Program) (state : State) (origins : List Origin) : Prop where
  globals : state.globals = ⟨0⟩
  locals : state.locals = program.locals
  store : StoreSound program.statements ⟨state.heap, origins⟩

/-- What the machine attends to has its place, and so has all that waits for it. -/
inductive Runs (statements : List Stmt) (store : Store) (environment : FrameRef) :
    Control → List Task → Prop where
  | evaluate {place : Place} {term : Expr} {stack : List Task}
      (member : (place, .expr term) ∈ positions statements)
      (fits : Fits store environment place.layers)
      (waits : Waits statements store environment none stack) :
      Runs statements store environment (.evaluate term) stack
  | execute {layers : List Layer} {clause : Stmt} {stack : List Task}
      (member : (.plain layers, .stmt clause) ∈ positions statements)
      (fits : Fits store environment layers)
      (waits : Waits statements store environment clause.declared? stack) :
      Runs statements store environment (.execute clause) stack
  | done {value : Value} {stack : List Task}
      (waits : Waits statements store environment none stack) :
      Runs statements store environment (.done value) stack
  | returning {value : Value} {owed : Option Token} {stack : List Task}
      (waits : Waits statements store environment owed stack) :
      Runs statements store environment (.returning value) stack
  | failing {fault : Located Fault} {owed : Option Token} {stack : List Task}
      (possible : ¬ Excluded fault.cause)
      (waits : Waits statements store environment owed stack) :
      Runs statements store environment (.failing fault) stack

structure InStep (program : Program) (tagged : Tagged) : Prop where
  state : StateSound program tagged.machine.state tagged.origins
  runs : Runs program.statements tagged.store tagged.machine.state.environment
    tagged.machine.control tagged.machine.stack

/-- The machine is in step after new frames have got the tags that were announced. Every part of a
step is shown to lead on in this sense, with the tags that it announces. -/
def Leads (program : Program) (state : State) (origins created : List Origin) (machine : Machine) :
    Prop :=
  InStep program ⟨machine, origins ++ created.take
    (machine.state.heap.frames.size - state.heap.frames.size)⟩

variable {program : Program} {state : State} {origins created : List Origin} {machine : Machine}
  {stack : List Task} {owed : Option Token}

theorem leads_same (same : machine.state.heap.frames.size = state.heap.frames.size)
    (inStep : InStep program ⟨machine, origins⟩) : Leads program state origins created machine := by
  unfold Leads
  rw [same, Nat.sub_self, List.take_zero, List.append_nil]
  exact inStep

theorem leads_new (grown : machine.state.heap.frames.size = state.heap.frames.size + created.length)
    (inStep : InStep program ⟨machine, origins ++ created⟩) :
    Leads program state origins created machine := by
  unfold Leads
  rw [grown, Nat.add_sub_cancel_left, List.take_length]
  exact inStep

theorem done_leads (sound : StateSound program state origins) (value : Value)
    (waits : Waits program.statements ⟨state.heap, origins⟩ state.environment none stack) :
    Leads program state origins created ⟨state, .done value, stack⟩ :=
  leads_same rfl ⟨sound, .done waits⟩

theorem fail_leads (sound : StateSound program state origins) (line : Nat) {fault : Fault}
    (possible : ¬ Excluded fault)
    (waits : Waits program.statements ⟨state.heap, origins⟩ state.environment owed stack) :
    Leads program state origins created (fail state line fault stack) :=
  leads_same rfl ⟨sound, .failing possible waits⟩

theorem evaluate_next_leads (sound : StateSound program state origins) {place : Place} {term : Expr}
    (member : (place, .expr term) ∈ positions program.statements)
    (fits : Fits ⟨state.heap, origins⟩ state.environment place.layers)
    (waits : Waits program.statements ⟨state.heap, origins⟩ state.environment none stack) :
    Leads program state origins created ⟨state, .evaluate term, stack⟩ :=
  leads_same rfl ⟨sound, .evaluate member fits waits⟩

theorem part_mem {place : Place} {outer inner : Expr}
    (member : (place, .expr outer) ∈ positions program.statements)
    (part : inner ∈ outer.subterms) : (place, .expr inner) ∈ positions program.statements :=
  Scope.below_subset member (List.mem_map.2 ⟨inner, part, rfl⟩)

theorem read_leads (accepted : Accepted program) (sound : StateSound program state origins)
    {place : Place} {term : Expr} {name : String} (line : Nat)
    (member : (place, .expr term) ∈ positions program.statements)
    (looked : Scope.lookedUp? term = some name)
    (reads : ∀ id target value, term ≠ .assign id target value)
    (fits : Fits ⟨state.heap, origins⟩ state.environment place.layers)
    (waits : Waits program.statements ⟨state.heap, origins⟩ state.environment none stack) :
    Leads program state origins created (deliverRead state line (state.read term.id name) stack) := by
  unfold State.read
  rw [sound.locals]
  cases entry : program.locals.get? term.id with
  | none =>
      unfold Heap.read
      simp only
      split
      · exact done_leads sound _ waits
      · exact fail_leads sound line (fun excluded => excluded) waits
  | some distance =>
      obtain ⟨holder, value, reached, bound⟩ :=
        accepted.read_bound member looked reads fits entry
      simp only [Heap.readAt, reached, bound]
      exact done_leads sound value waits

theorem base_operands_found (accepted : Accepted program) (sound : StateSound program state origins)
    {place : Place} {id : Nat} {keyword method : Token}
    (member : (place, .expr (.baseRef id keyword method)) ∈ positions program.statements)
    (fits : Fits ⟨state.heap, origins⟩ state.environment place.layers) :
    ∃ parent receiver, baseOperands state id = .ok (parent, receiver) := by
  obtain ⟨className, inner, names, outer, around, nearest⟩ := accepted.base_layers member
  have entry : program.locals.get? id = some (inner.length + 1) :=
    (accepted.entry_iff member rfl _).2 nearest
  rw [around] at fits
  obtain ⟨receiverRef, receiverFrame, receiverReached, receiverFound, receiverTag, -⟩ :=
    fits_ancestor fits
  obtain ⟨object, thisHeld⟩ := sound.store.receivers _ _ receiverFound receiverTag
  have split : inner ++ ⟨.receiver className true, names⟩ :: ⟨.base className, ["base"]⟩ :: outer =
      (inner ++ [⟨.receiver className true, names⟩]) ++ ⟨.base className, ["base"]⟩ :: outer := by
    simp
  rw [split] at fits
  obtain ⟨baseRef, baseFrame, baseReached, baseFound, baseTag, -⟩ := fits_ancestor fits
  obtain ⟨cls, baseHeld⟩ := sound.store.bases _ _ baseFound baseTag
  refine ⟨cls, object, ?_⟩
  rw [List.length_append, List.length_singleton] at baseReached
  unfold baseOperands
  rw [sound.locals, entry]
  simp only [Heap.readAt, baseReached, Heap.local?, baseFound, Option.bind_some, baseHeld,
    Nat.add_sub_cancel, receiverReached, receiverFound, thisHeld]

theorem bound_leads (sound : StateSound program state origins) {method : Closure}
    (isMethod : MethodSound program.statements ⟨state.heap, origins⟩ method) (receiver : InstanceRef)
    (waits : Waits program.statements ⟨state.heap, origins⟩ state.environment none stack) :
    Leads program state origins [.receiver] (deliverBound state method receiver stack) := by
  obtain ⟨framed, closure⟩ := bound_sound sound.store isMethod receiver
  refine leads_new ?_ ⟨⟨sound.globals, sound.locals, store_sound_add_function framed closure⟩, ?_⟩
  · simp [deliverBound, State.addBound, Heap.addBound, Heap.addFunction, Heap.addFrame]
  · have kept := waits_grows waits
      (add_frame_grows ⟨state.heap, origins⟩ (Heap.receiverFrame method receiver) .receiver)
    exact .done (waits_grows kept (same_frames_grows rfl rfl))

theorem evaluate_base_leads (accepted : Accepted program) (sound : StateSound program state origins)
    {place : Place} {id : Nat} {keyword method : Token}
    (member : (place, .expr (.baseRef id keyword method)) ∈ positions program.statements)
    (fits : Fits ⟨state.heap, origins⟩ state.environment place.layers)
    (waits : Waits program.statements ⟨state.heap, origins⟩ state.environment none stack) :
    Leads program state origins [.receiver] (evaluateBase state id keyword method stack) := by
  have outcome := evaluate_base_outcome state id keyword method stack
  generalize evaluateBase state id keyword method stack = machine at outcome ⊢
  cases outcome with
  | misplaced failed =>
      obtain ⟨parent, receiver, operands⟩ := base_operands_found accepted sound member fits
      rw [operands] at failed
      cases failed
  | bound operands found =>
      exact bound_leads sound (method_within_sound sound.store found) _ waits
  | field => exact done_leads sound _ waits
  | missing => exact fail_leads sound _ (fun excluded => excluded) waits

/-- An expression leads on to its parts, whose places are below its own, or to a value. A name is
read where the resolver saw it, so that reading it fails for no excluded reason. -/
theorem evaluate_leads (accepted : Accepted program) (sound : StateSound program state origins)
    {place : Place} {term : Expr} (member : (place, .expr term) ∈ positions program.statements)
    (fits : Fits ⟨state.heap, origins⟩ state.environment place.layers)
    (waits : Waits program.statements ⟨state.heap, origins⟩ state.environment none stack) :
    Leads program state origins (stepOrigins ⟨state, .evaluate term, stack⟩)
      (evaluate state term stack) := by
  cases term with
  | literal id value => exact done_leads sound _ waits
  | grouping id inner =>
      exact evaluate_next_leads sound
        (part_mem member (by simp [Expr.subterms, Expr.self_mem_subterms])) fits waits
  | unary id operator right =>
      exact evaluate_next_leads sound
        (part_mem member (by simp [Expr.subterms, Expr.self_mem_subterms])) fits
        (waits_push member .unary fits waits)
  | binary id left operator right =>
      exact evaluate_next_leads sound
        (part_mem member (by simp [Expr.subterms, Expr.self_mem_subterms])) fits
        (waits_push member .leftOperand fits waits)
  | logical id left operator right =>
      exact evaluate_next_leads sound
        (part_mem member (by simp [Expr.subterms, Expr.self_mem_subterms])) fits
        (waits_push member .logical fits waits)
  | variableRef id name =>
      exact read_leads accepted sound name.line member rfl (by simp) fits waits
  | thisRef id keyword =>
      have spelled : keyword.lexeme = "this" := by
        have formed := accepted.formed member
        exact formed.2.this_lexeme formed.1
      rw [evaluate, spelled]
      exact read_leads accepted sound keyword.line member rfl (by simp) fits waits
  | baseRef id keyword method => exact evaluate_base_leads accepted sound member fits waits
  | assign id name value =>
      exact evaluate_next_leads sound
        (part_mem member (by simp [Expr.subterms, Expr.self_mem_subterms])) fits
        (waits_push member .assign fits waits)
  | call id callee paren given =>
      exact evaluate_next_leads sound
        (part_mem member (by simp [Expr.subterms, Expr.self_mem_subterms])) fits
        (waits_push member .callee fits waits)
  | get id object name =>
      exact evaluate_next_leads sound
        (part_mem member (by simp [Expr.subterms, Expr.self_mem_subterms])) fits
        (waits_push member .getProperty fits waits)
  | set id object name value =>
      exact evaluate_next_leads sound
        (part_mem member (by simp [Expr.subterms, Expr.self_mem_subterms])) fits
        (waits_push member .setObject fits waits)

theorem define_size (heap : Heap) (ref : FrameRef) (name : String) (value : Value) :
    (heap.define ref name value).frames.size = heap.frames.size := by
  simp [Heap.define]

theorem declare_leads (sound : StateSound program state origins) {name : Token}
    (ordinary : Token.Ordinary name.lexeme) (value : Value)
    (waits : Waits program.statements ⟨state.heap, origins⟩ state.environment (some name) stack) :
    Leads program state origins created ⟨state.declare name.lexeme value, .done .nil, stack⟩ := by
  apply leads_same (define_size _ _ _ _)
  have defined := store_sound_define sound.store state.environment ordinary value
  exact ⟨⟨sound.globals, sound.locals, defined⟩, .done (waits_declared waits value)⟩

theorem function_leads (sound : StateSound program state origins) {layers : List Layer}
    {decl : FunctionDecl} (ordinary : Token.Ordinary decl.name.lexeme)
    (inside : routinePositions none (holding decl.name layers) decl ⊆ positions program.statements)
    (fits : Fits ⟨state.heap, origins⟩ state.environment layers)
    (waits : Waits program.statements ⟨state.heap, origins⟩ state.environment (some decl.name) stack) :
    Leads program state origins created (execute state (.functionDecl decl) stack) := by
  apply leads_same (define_size _ _ _ _)
  have defined := store_sound_define sound.store state.environment ordinary
    (.functionRef state.heap.nextFunction)
  have closure : ClosureSound program.statements _ ⟨decl, state.environment, false⟩ :=
    ⟨none, _, inside, fits_define fits decl.name (.functionRef state.heap.nextFunction)⟩
  refine ⟨⟨sound.globals, sound.locals, store_sound_add_function defined closure⟩, .done ?_⟩
  exact waits_grows (waits_declared waits (.functionRef state.heap.nextFunction))
    (same_frames_grows rfl rfl)

/-- The scope inside a frame may have been completed since the frame was made. -/
theorem fits_completed {store later : Store} {ref outer : FrameRef} {layer : Layer}
    {layers completed : List Layer} (fits : Fits store ref (layer :: layers))
    (parent : store.heap.parent? ref = some outer) (grows : Grows store later)
    (rest : Fits later outer completed) : Fits later ref (layer :: completed) := by
  cases fits with
  | inside found isParent older origin names _ =>
      rw [Heap.parent?, found, Option.bind_some, isParent] at parent
      cases parent
      obtain ⟨grown, kept, same, more⟩ := grows.frames _ _ found
      refine .inside kept (same.trans isParent) older (grows.origins _ _ origin) ?_ rest
      intro name held
      exact more name (names name held)

theorem class_leads (sound : StateSound program state origins) {layers : List Layer} {name : Token}
    {methods : List FunctionDecl} (ordinary : Token.Ordinary name.lexeme)
    (inside : Scope.methodPositions name (Scope.classLayers name false (holding name layers))
      methods ⊆ positions program.statements)
    (fits : Fits ⟨state.heap, origins⟩ state.environment layers)
    (waits : Waits program.statements ⟨state.heap, origins⟩ state.environment (some name) stack) :
    Leads program state origins created (defineClass state name none methods stack) := by
  apply leads_same (define_size _ _ _ _)
  have defined := store_sound_define sound.store state.environment ordinary
    (.classRef state.heap.nextClass)
  have named := fits_define fits name (.classRef state.heap.nextClass)
  have added := store_sound_add_class defined (method_table_sound inside named) name.lexeme none
  refine ⟨⟨sound.globals, sound.locals, added⟩, .done ?_⟩
  exact waits_grows (waits_declared waits (.classRef state.heap.nextClass))
    (same_frames_grows rfl rfl)

theorem derived_class_leads (sound : StateSound program state origins) {layers : List Layer}
    {name : Token} {methods : List FunctionDecl} (parent : ClassRef)
    (ordinary : Token.Ordinary name.lexeme)
    (inside : Scope.methodPositions name (Scope.classLayers name true (holding name layers))
      methods ⊆ positions program.statements)
    (fits : Fits ⟨state.heap, origins⟩ state.environment layers)
    (waits : Waits program.statements ⟨state.heap, origins⟩ state.environment (some name) stack) :
    Leads program state origins [.base] (defineClass state name (some parent) methods stack) := by
  let bindings : Bindings Value := Bindings.empty.insert "base" (.classRef parent)
  let framed : Store := Store.addFrame ⟨state.heap, origins⟩ ⟨some state.environment, bindings⟩ .base
  have framedSound : StoreSound program.statements framed := by
    apply store_sound_add_frame sound.store
    · intro same
      cases same
    · intro _
      exact ⟨parent, by simp [bindings]⟩
  have defined := store_sound_define framedSound state.environment ordinary
    (.classRef state.heap.nextClass)
  have grows : Grows ⟨state.heap, origins⟩ framed := add_frame_grows _ _ _
  have outer := fits_define (fits_grows fits grows) name (.classRef state.heap.nextClass)
  have based : Fits (framed.define state.environment name.lexeme (.classRef state.heap.nextClass))
      state.heap.nextFrame (⟨.base name, ["base"]⟩ :: holding name layers) := by
    have entered : Fits framed state.heap.nextFrame (⟨.base name, ["base"]⟩ :: layers) := by
      apply fits_enter sound.store fits (.base name)
      intro sought member
      rw [List.mem_singleton.1 member]
      simp [bindings]
    apply fits_completed entered ?_ (define_grows _ _ _ _) outer
    simp [framed, Store.addFrame, Heap.parent?, Heap.frame_addFrame]
  have added := store_sound_add_class defined (method_table_sound inside based) name.lexeme
    (some parent)
  refine leads_new ?_ ⟨⟨sound.globals, sound.locals, added⟩, .done ?_⟩
  · simp [defineClass, State.addFrame, State.addClass, State.declare, State.define, Heap.addFrame,
      Heap.addClass, Heap.define]
  · exact waits_grows (waits_declared (waits_grows waits grows) (.classRef state.heap.nextClass))
      (same_frames_grows rfl rfl)

theorem stmt_mem (layers : List Layer) (clause : Stmt) :
    (.plain layers, .stmt clause) ∈ Scope.stmtPositions layers clause := by
  cases clause <;> simp [Scope.stmtPositions]

theorem expr_mem (place : Place) (term : Expr) :
    (place, .expr term) ∈ Scope.exprPositions place term :=
  List.mem_map.2 ⟨term, term.self_mem_subterms, rfl⟩

theorem execute_next_leads (sound : StateSound program state origins) {layers : List Layer}
    {clause : Stmt} (member : (.plain layers, .stmt clause) ∈ positions program.statements)
    (fits : Fits ⟨state.heap, origins⟩ state.environment layers)
    (waits : Waits program.statements ⟨state.heap, origins⟩ state.environment clause.declared?
      stack) : Leads program state origins created ⟨state, .execute clause, stack⟩ :=
  leads_same rfl ⟨sound, .execute member fits waits⟩

theorem block_leads (sound : StateSound program state origins) {layers : List Layer}
    {body : List Stmt} (member : (.plain layers, .stmt (.block body)) ∈ positions program.statements)
    (fits : Fits ⟨state.heap, origins⟩ state.environment layers)
    (waits : Waits program.statements ⟨state.heap, origins⟩ state.environment none stack) :
    Leads program state origins [.block body] (execute state (.block body) stack) := by
  have entered := store_sound_add_frame sound.store ⟨some state.environment, .empty⟩ (.block body)
    (fun same => by cases same) (fun same => by cases same)
  have inside : (.plain (⟨.block body, []⟩ :: layers), .body body) ∈ positions program.statements :=
    Scope.below_subset member (List.mem_cons_of_mem _ (Scope.body_mem _ _))
  refine leads_new ?_ ⟨⟨sound.globals, sound.locals, entered⟩, .done ?_⟩
  · simp [execute, State.enter, Heap.addFrame]
  · apply waits_push inside .block
    · exact fits_enter sound.store fits (.block body) (List.forall_mem_nil _)
    · exact waits_grows waits (add_frame_grows _ _ _)

/-- A statement leads on to its parts. A block makes a frame, which gets the tag of the scope that
the resolver opened for it. -/
theorem execute_leads (accepted : Accepted program) (sound : StateSound program state origins)
    {layers : List Layer} {clause : Stmt}
    (member : (.plain layers, .stmt clause) ∈ positions program.statements)
    (fits : Fits ⟨state.heap, origins⟩ state.environment layers)
    (waits : Waits program.statements ⟨state.heap, origins⟩ state.environment clause.declared?
      stack) :
    Leads program state origins (stepOrigins ⟨state, .execute clause, stack⟩)
      (execute state clause stack) := by
  have inside := Scope.below_subset member
  simp only [Scope.below, Place.plain] at inside
  cases clause with
  | expression expr =>
      have part := inside (List.mem_cons_of_mem _ (expr_mem _ expr))
      exact evaluate_next_leads sound part fits waits
  | varDecl name initializer =>
      have ordinary : Token.Ordinary name.lexeme := by
        have formed := accepted.formed (inside (List.mem_cons_of_mem _ List.mem_cons_self))
        exact Scope.named_ordinary formed
      cases initializer with
      | none => exact declare_leads sound ordinary .nil waits
      | some initializer =>
          have part := inside (List.mem_cons_of_mem _ (List.mem_cons_of_mem _ (expr_mem _ initializer)))
          exact evaluate_next_leads sound part fits (waits_push member .declareVar fits waits)
  | functionDecl decl =>
      have ordinary : Token.Ordinary decl.name.lexeme := by
        have formed := accepted.formed (inside (List.mem_cons_of_mem _ List.mem_cons_self))
        exact Scope.named_ordinary formed
      refine function_leads sound ordinary ?_ fits waits
      intro position below
      exact inside (List.mem_cons_of_mem _ (List.mem_cons_of_mem _ below))
  | classDecl name base methods =>
      have ordinary : Token.Ordinary name.lexeme := by
        have formed := accepted.formed (inside (List.mem_cons_of_mem _ List.mem_cons_self))
        exact Scope.named_ordinary formed
      cases base with
      | none =>
          refine class_leads sound ordinary ?_ fits waits
          intro position below
          exact inside (List.mem_cons_of_mem _ (List.mem_cons_of_mem _ below))
      | some base =>
          have part := inside (List.mem_cons_of_mem _ (List.mem_cons_of_mem _
            (List.mem_append_left _ (expr_mem _ base))))
          exact evaluate_next_leads sound part fits (waits_push member .classBase fits waits)
  | block body => exact block_leads sound member fits waits
  | ifThen condition thenBranch =>
      have part := inside (List.mem_cons_of_mem _ (List.mem_append_left _ (expr_mem _ condition)))
      exact evaluate_next_leads sound part fits (waits_push member .ifThen fits waits)
  | ifElse condition thenBranch elseBranch =>
      have part := inside (List.mem_cons_of_mem _ (List.mem_append_left _
        (List.mem_append_left _ (expr_mem _ condition))))
      exact evaluate_next_leads sound part fits (waits_push member .ifElse fits waits)
  | whileLoop condition body =>
      have part := inside (List.mem_cons_of_mem _ (List.mem_append_left _ (expr_mem _ condition)))
      exact evaluate_next_leads sound part fits (waits_push member .loopTest fits waits)
  | returnStmt keyword value =>
      cases value with
      | none => exact leads_same rfl ⟨sound, .returning waits⟩
      | some value =>
          have part := inside (List.mem_cons_of_mem _ (expr_mem _ value))
          exact evaluate_next_leads sound part fits (waits_push member .giveBack fits waits)

theorem refusal_possible {arity given : Nat} {fault : Fault}
    (refused : state.refusal? arity given = some fault) : ¬ Excluded fault := by
  rcases refusal_some refused with rfl | rfl <;> exact fun excluded => excluded

theorem enter_call_in_step (sound : StateSound program state origins) {closure : Closure}
    {given : List Value} {completion : Completion}
    (closureSound : ClosureSound program.statements ⟨state.heap, origins⟩ closure)
    (arity : given.length = closure.arity)
    (waits : Waits program.statements ⟨state.heap, origins⟩ state.environment none
      (.leaveCall completion :: stack)) :
    InStep program ⟨enterCall state closure given completion stack,
      origins ++ [.call closure.decl]⟩ := by
  rcases closureSound with ⟨className, layers, inside, fits⟩
  have entered := store_sound_add_frame sound.store
    ⟨some closure.frame, parameterBindings closure.decl.parameters given⟩ (.call closure.decl)
    (fun same => by cases same) (fun same => by cases same)
  refine ⟨⟨sound.globals, sound.locals, entered⟩, .done ?_⟩
  have body : (.plain (holdingAll closure.decl.parameters
      (⟨.routine className closure.decl, []⟩ :: layers)), .body closure.decl.body) ∈
        positions program.statements := by
    apply inside
    rcases closure.decl with ⟨name, parameters, body⟩
    exact List.mem_cons_of_mem _ (List.mem_append_right _ (Scope.body_mem _ _))
  apply waits_push body .block
  · rw [Place.plain, holding_all_names]
    apply fits_enter sound.store fits (.routine className closure.decl)
    intro name member
    apply parameter_bindings_bound arity
    simpa using member
  · exact waits_grows waits (add_frame_grows _ _ _)

theorem enter_call_size (state : State) (closure : Closure) (given : List Value)
    (completion : Completion) (stack : List Task) :
    (enterCall state closure given completion stack).state.heap.frames.size =
      state.heap.frames.size + 1 := by
  simp [enterCall, State.enter, Heap.addFrame]

theorem waits_call {place : Place} {id : Nat} {callee : Expr} {paren : Token} {given : List Expr}
    {store : Store} {environment : FrameRef} (completion : Completion)
    (member : (place, .expr (.call id callee paren given)) ∈ positions program.statements)
    (fits : Fits store environment place.layers)
    (waits : Waits program.statements store environment none stack) :
    Waits program.statements store environment none (.leaveCall completion :: stack) :=
  waits_push member .leaveCall fits waits

theorem created_leads (sound : StateSound program state origins) (ref : ClassRef)
    (waits : Waits program.statements ⟨state.heap, origins⟩ state.environment none stack) :
    Leads program state origins created ⟨state.addInstance ⟨ref, .empty⟩,
      .done (.instanceRef state.heap.nextInstance), stack⟩ := by
  refine leads_same rfl ⟨⟨sound.globals, sound.locals, ?_⟩, .done ?_⟩
  · exact store_sound_same sound.store rfl rfl rfl rfl
  · exact waits_grows waits (same_frames_grows rfl rfl)

section Calls

variable {place : Place} {id : Nat} {callee : Expr} {paren : Token} {arguments : List Expr}
  (sound : StateSound program state origins)
  (member : (place, .expr (.call id callee paren arguments)) ∈ positions program.statements)
  (fits : Fits ⟨state.heap, origins⟩ state.environment place.layers)
  (waits : Waits program.statements ⟨state.heap, origins⟩ state.environment none stack)

include sound member fits waits

theorem entered_leads {closure : Closure}
    (closureSound : ClosureSound program.statements ⟨state.heap, origins⟩ closure)
    {given : List Value} (arity : given.length = closure.arity) (completion : Completion) :
    Leads program state origins [.call closure.decl]
      (enterCall state closure given completion stack) :=
  leads_new (enter_call_size _ _ _ _ _)
    (enter_call_in_step sound closureSound arity (waits_call _ member fits waits))

theorem constructed_leads {ref : ClassRef} {method : Closure}
    (found : state.heap.constructor? ref = some method) {given : List Value}
    (arity : given.length = method.arity) (completion : Completion) :
    Leads program state origins [.receiver, .call method.decl]
      (enterCall ((state.addInstance ⟨ref, .empty⟩).addFrame
        (Heap.receiverFrame method state.heap.nextInstance)) (state.heap.boundMethod method) given
          completion stack) := by
  have created : StoreSound program.statements
      ⟨(state.addInstance ⟨ref, .empty⟩).heap, origins⟩ :=
    store_sound_same sound.store rfl rfl rfl rfl
  have grows : Grows ⟨state.heap, origins⟩ ⟨(state.addInstance ⟨ref, .empty⟩).heap, origins⟩ :=
    same_frames_grows rfl rfl
  have isMethod := method_grows (constructor_within_sound sound.store found) grows
  obtain ⟨framed, closure⟩ := bound_sound created isMethod state.heap.nextInstance
  have framedGrows := add_frame_grows ⟨(state.addInstance ⟨ref, .empty⟩).heap, origins⟩
    (Heap.receiverFrame method state.heap.nextInstance) .receiver
  have fits := fits_grows (fits_grows fits grows) framedGrows
  have waits := waits_grows (waits_grows waits grows) framedGrows
  apply leads_new
  · rw [enter_call_size]
    simp [State.addInstance, State.addFrame, Heap.addInstance, Heap.addFrame]
  · rw [show origins ++ [Origin.receiver, .call method.decl] =
      (origins ++ [.receiver]) ++ [.call (state.heap.boundMethod method).decl] by
        simp [Heap.boundMethod]]
    have framedSound : StateSound program ((state.addInstance ⟨ref, .empty⟩).addFrame
        (Heap.receiverFrame method state.heap.nextInstance)) (origins ++ [.receiver]) :=
      ⟨sound.globals, sound.locals, framed⟩
    exact enter_call_in_step framedSound closure arity (waits_call _ member fits waits)

/-- A call makes the frame of its parameters inside that of the function, and before it one for the
receiver if a constructor is called. The caller waits below. -/
theorem call_value_leads (called : Value) (given : List Value) (line : Nat) :
    Leads program state origins (callOrigins state.heap called)
      (callValue state called given line stack) := by
  have outcome := call_value_outcome state given line stack called
  generalize callValue state called given line stack = machine at outcome ⊢
  cases outcome with
  | uncallable => exact fail_leads sound line (fun excluded => excluded) waits
  | refused takes refused => exact fail_leads sound line (refusal_possible refused) waits
  | printed => exact leads_same rfl ⟨⟨sound.globals, sound.locals, sound.store⟩, .done waits⟩
  | unprinted =>
      exact leads_same rfl ⟨⟨sound.globals, sound.locals, sound.store⟩,
        .failing (fun excluded => excluded) waits⟩
  | timed => exact leads_same rfl ⟨⟨sound.globals, sound.locals, sound.store⟩, .done waits⟩
  | @entered ref closure found allowed =>
      have tags : callOrigins state.heap (.functionRef ref) = [.call closure.decl] := by
        simp [callOrigins, found]
      rw [tags]
      exact entered_leads sound member fits waits (sound.store.functions _ _ found)
        (refusal_none_iff.1 allowed).1 _
  | @created ref => exact created_leads sound ref waits
  | @constructed ref method found allowed =>
      have tags : callOrigins state.heap (.classRef ref) = [.receiver, .call method.decl] := by
        simp [callOrigins, found]
      have arity : given.length = method.arity := by
        simpa [Heap.classArity, found] using (refusal_none_iff.1 allowed).1
      rw [tags]
      exact constructed_leads sound member fits waits found arity _

end Calls

theorem unary_possible {operator : Kind} (sign : operator ∈ Grammar.signs) {value : Value}
    {fault : Fault} (failed : applyUnary operator value = .error fault) : ¬ Excluded fault := by
  simp only [Grammar.signs, List.mem_cons, List.not_mem_nil, or_false] at sign
  rcases sign with rfl | rfl
  · cases failed
  · cases value <;> cases failed <;> exact fun excluded => excluded

theorem numeric_possible {operator : Kind} (binary : operator ∈ binaryOperators)
    (other : operator ≠ .equalEqual ∧ operator ≠ .bangEqual ∧ operator ≠ .plus) (left right : Float) :
    ∃ value, applyNumeric operator left right = .ok value := by
  simp only [binaryOperators, List.mem_cons, List.not_mem_nil, or_false] at binary
  rcases binary with rfl | rfl | rfl | rfl | rfl | rfl | rfl | rfl | rfl | rfl
  all_goals first
    | exact ⟨_, rfl⟩
    | exact absurd rfl other.1
    | exact absurd rfl other.2.1
    | exact absurd rfl other.2.2

theorem binary_possible {operator : Kind} (binary : operator ∈ binaryOperators) {heap : Heap}
    {left right : Value} {fault : Fault} (failed : applyBinary heap left operator right = .error fault) :
    ¬ Excluded fault := by
  unfold applyBinary at failed
  split at failed
  · cases failed
  · cases failed
  · unfold add at failed
    split at failed <;> cases failed
    exact fun excluded => excluded
  · next notEqual notBang notPlus =>
    split at failed
    · obtain ⟨value, worked⟩ := numeric_possible binary ⟨notEqual, notBang, notPlus⟩ _ _
      rw [worked] at failed
      cases failed
    · cases failed
      exact fun excluded => excluded

theorem deliver_leads (sound : StateSound program state origins) (line : Nat)
    {result : Except Fault Value} (possible : ∀ fault, result = .error fault → ¬ Excluded fault)
    (waits : Waits program.statements ⟨state.heap, origins⟩ state.environment none stack) :
    Leads program state origins created (deliver state line result stack) := by
  cases result with
  | ok value => exact done_leads sound value waits
  | error fault => exact fail_leads sound line (possible fault rfl) waits

/-- An assignment goes to the frame at the distance in the table, which exists. It may fail because
the frame does not hold the name yet, and this is no excluded fault. -/
theorem assign_leads (accepted : Accepted program) (sound : StateSound program state origins)
    {place : Place} {id : Nat} {name : Token} {expr : Expr} (value : Value)
    (member : (place, .expr (.assign id name expr)) ∈ positions program.statements)
    (fits : Fits ⟨state.heap, origins⟩ state.environment place.layers)
    (waits : Waits program.statements ⟨state.heap, origins⟩ state.environment none stack) :
    Leads program state origins created (resume state value (.assign id name) stack) := by
  have possible : ∀ fault, state.slot id name.lexeme = .error fault → ¬ Excluded (.access fault) := by
    intro fault failed
    unfold State.slot at failed
    rw [sound.locals] at failed
    cases entry : program.locals.get? id with
    | none =>
        simp only [entry, Heap.slot] at failed
        split at failed
        · cases failed
        · cases failed
          exact fun excluded => excluded
    | some distance =>
        obtain ⟨holder, reached⟩ := accepted.entry_reaches member rfl fits entry
        simp only [entry, Heap.slotAt, reached] at failed
        split at failed
        · cases failed
        · cases failed
          exact fun excluded => excluded
  unfold resume
  cases found : state.slot id name.lexeme with
  | error fault =>
      simp only [found]
      exact fail_leads sound name.line (possible fault found) waits
  | ok frame =>
      simp only [found]
      have ordinary := Scope.named_ordinary (accepted.formed member)
      apply leads_same (define_size _ _ _ _)
      refine ⟨⟨sound.globals, sound.locals, store_sound_define sound.store frame ordinary value⟩, ?_⟩
      exact .done (waits_grows waits (define_grows ⟨state.heap, origins⟩ frame name.lexeme value))

theorem get_property_leads (sound : StateSound program state origins) (value : Value)
    (name : Token)
    (waits : Waits program.statements ⟨state.heap, origins⟩ state.environment none stack) :
    Leads program state origins [.receiver] (resume state value (.getProperty name) stack) := by
  unfold resume
  cases value with
  | instanceRef receiver =>
      simp only
      split
      next held => exact done_leads sound _ waits
      next closure found =>
        exact bound_leads sound (property_sound sound.store found) receiver waits
      next => exact fail_leads sound name.line (fun excluded => excluded) waits
  | _ => exact fail_leads sound name.line (fun excluded => excluded) waits

theorem body_leads {place : Place} {clause : Stmt} {rest : List Stmt} {task : Task}
    (sound : StateSound program state origins)
    (member : (place, .body (clause :: rest)) ∈ positions program.statements)
    (continues : Continues task (.body rest)) (declares : task.declares = none)
    (fits : Fits ⟨state.heap, origins⟩ state.environment place.layers)
    (waits : Waits program.statements ⟨state.heap, origins⟩ (task.outer state.environment) none stack) :
    Leads program state origins created ⟨state, .execute clause, task :: stack⟩ := by
  have inside := Scope.below_subset member
  have first := inside (List.mem_cons_of_mem _ (List.mem_append_left _ (stmt_mem _ clause)))
  have others := inside (List.mem_cons_of_mem _ (List.mem_append_right _ (Scope.body_mem _ rest)))
  refine execute_next_leads sound first fits (.task others continues ?_ fits ?_)
  · rfl
  · rw [declares]
    exact waits

theorem gather_leads (sound : StateSound program state origins) {place : Place} {id : Nat}
    {callee : Expr} {paren : Token} {arguments remaining : List Expr} (called : Value)
    (evaluated : List Value)
    (member : (place, .expr (.call id callee paren arguments)) ∈ positions program.statements)
    (left : remaining <:+ arguments)
    (tags : remaining = [] → created = callOrigins state.heap called)
    (fits : Fits ⟨state.heap, origins⟩ state.environment place.layers)
    (waits : Waits program.statements ⟨state.heap, origins⟩ state.environment none stack) :
    Leads program state origins created (gather state called evaluated paren remaining stack) := by
  cases remaining with
  | nil =>
      rw [tags rfl]
      exact call_value_leads sound member fits waits called evaluated paren.line
  | cons argument rest =>
      have given : argument ∈ arguments := left.subset List.mem_cons_self
      have part : argument ∈ (Expr.call id callee paren arguments).subterms := by
        rw [Expr.subterms]
        exact List.mem_append_left _ (List.mem_append_right _ (subterms_of_mem given))
      have later : rest <:+ arguments := (List.suffix_cons _ _).trans left
      exact evaluate_next_leads sound (part_mem member part) fits
        (waits_push member (.argument later) fits waits)

/-- A task leads on to what is left of its node. Each task continues a node of one form, so the
cases are those of the task, and its place is the place of the node. -/
theorem resume_leads (accepted : Accepted program) (sound : StateSound program state origins)
    (value : Value) {task : Task}
    (waits : Waits program.statements ⟨state.heap, origins⟩ state.environment none (task :: stack)) :
    Leads program state origins (stepOrigins ⟨state, .done value, task :: stack⟩)
      (resume state value task stack) := by
  obtain ⟨place, node, member, continues, fits, rest⟩ := waits_top waits
  cases continues with
  | unary =>
      have sign := (accepted.formed member).1
      exact deliver_leads sound _ (fun _ failed => unary_possible sign failed) rest
  | leftOperand =>
      exact evaluate_next_leads sound
        (part_mem member (by simp [Expr.subterms, Expr.self_mem_subterms])) fits
        (waits_push member .rightOperand fits rest)
  | rightOperand =>
      have binary := (accepted.formed member).1
      exact deliver_leads sound _ (fun _ failed => binary_possible binary failed) rest
  | logical =>
      unfold resume
      simp only
      split
      · exact done_leads sound value rest
      · exact evaluate_next_leads sound
          (part_mem member (by simp [Expr.subterms, Expr.self_mem_subterms])) fits rest
  | assign => exact assign_leads accepted sound value member fits rest
  | @callee id callee paren given =>
      refine gather_leads sound value [] member (List.suffix_refl _) ?_ fits rest
      intro same
      subst same
      rfl
  | @argument id callee paren given remaining called evaluated left =>
      refine gather_leads sound called (evaluated ++ [value]) member left ?_ fits rest
      intro same
      subst same
      rfl
  | getProperty => exact get_property_leads sound value _ rest
  | setObject =>
      unfold resume
      cases value with
      | instanceRef receiver =>
          exact evaluate_next_leads sound
            (part_mem member (by simp [Expr.subterms, Expr.self_mem_subterms])) fits
            (waits_push member .setField fits rest)
      | _ => exact fail_leads sound _ (fun excluded => excluded) rest
  | setField =>
      apply leads_same rfl
      refine ⟨⟨sound.globals, sound.locals, ?_⟩, ?_⟩
      · exact store_sound_same sound.store rfl rfl rfl rfl
      · exact .done (waits_grows rest (same_frames_grows rfl rfl))
  | leaveCall => exact leads_same rfl ⟨⟨sound.globals, sound.locals, sound.store⟩, .done rest⟩
  | declareVar =>
      have inside := Scope.below_subset member
      have named := accepted.formed (inside (List.mem_cons_of_mem _ List.mem_cons_self))
      exact declare_leads sound (Scope.named_ordinary named) value rest
  | classBase =>
      have inside := Scope.below_subset member
      have named := accepted.formed (inside (List.mem_cons_of_mem _ List.mem_cons_self))
      unfold resume
      cases value with
      | classRef parent =>
          refine derived_class_leads sound parent (Scope.named_ordinary named) ?_ fits rest
          intro position below
          exact inside (List.mem_cons_of_mem _ (List.mem_cons_of_mem _
            (List.mem_append_right _ below)))
      | _ => exact fail_leads sound _ (fun excluded => excluded) rest
  | ifThen =>
      have inside := Scope.below_subset member
      have undeclared := accepted.formed member
      have taken := inside (List.mem_cons_of_mem _ (List.mem_append_right _ (stmt_mem _ _)))
      unfold resume
      simp only
      split
      · refine execute_next_leads sound taken fits ?_
        rw [undeclared]
        exact rest
      · exact done_leads sound .nil rest
  | ifElse =>
      have inside := Scope.below_subset member
      have undeclared := accepted.formed member
      have taken := inside (List.mem_cons_of_mem _ (List.mem_append_left _
        (List.mem_append_right _ (stmt_mem _ _))))
      have other := inside (List.mem_cons_of_mem _ (List.mem_append_right _ (stmt_mem _ _)))
      unfold resume
      simp only
      split
      · refine execute_next_leads sound taken fits ?_
        rw [undeclared.1]
        exact rest
      · refine execute_next_leads sound other fits ?_
        rw [undeclared.2]
        exact rest
  | loopTest =>
      have inside := Scope.below_subset member
      have undeclared := accepted.formed member
      have repeated := inside (List.mem_cons_of_mem _ (List.mem_append_right _ (stmt_mem _ _)))
      unfold resume
      simp only
      split
      · refine execute_next_leads sound repeated fits ?_
        rw [undeclared]
        exact waits_push member .loopBody fits rest
      · exact done_leads sound .nil rest
  | loopBody =>
      have inside := Scope.below_subset member
      have part := inside (List.mem_cons_of_mem _ (List.mem_append_left _ (expr_mem _ _)))
      exact evaluate_next_leads sound part fits (waits_push member .loopTest fits rest)
  | giveBack => exact leads_same rfl ⟨sound, .returning rest⟩
  | @block remaining outer =>
      cases remaining with
      | nil => exact leads_same rfl ⟨⟨sound.globals, sound.locals, sound.store⟩, .done rest⟩
      | cons clause others => exact body_leads sound member .block rfl fits rest
  | @program remaining =>
      cases remaining with
      | nil => exact done_leads sound .nil rest
      | cons clause others => exact body_leads sound member .program rfl fits rest

theorem release_in_step (sound : StateSound program state origins) (task : Task) :
    StateSound program (task.release state) origins ∧
      (task.release state).environment = task.outer state.environment ∧
        (task.release state).heap = state.heap := by
  cases task <;> exact ⟨⟨sound.globals, sound.locals, sound.store⟩, rfl, rfl⟩

theorem unwind_leads (sound : StateSound program state origins) (value : Value) {task : Task}
    (waits : Waits program.statements ⟨state.heap, origins⟩ state.environment owed (task :: stack)) :
    Leads program state origins created (unwindReturn state value task stack) := by
  cases waits with
  | task member continues around fits rest =>
      obtain ⟨released, environment, heap⟩ := release_in_step sound task
      have unwound : Leads program state origins created
          ⟨task.release state, .returning value, stack⟩ := by
        apply leads_same (congrArg (·.frames.size) heap)
        refine ⟨released, ?_⟩
        simp only [Tagged.store, heap, environment]
        exact .returning rest
      cases task with
      | leaveCall completion =>
          exact leads_same rfl ⟨⟨sound.globals, sound.locals, sound.store⟩, .done rest⟩
      | program remaining => exact done_leads sound .nil rest
      | _ => exact unwound

theorem release_leads (sound : StateSound program state origins) {fault : Located Fault}
    (possible : ¬ Excluded fault.cause) {task : Task}
    (waits : Waits program.statements ⟨state.heap, origins⟩ state.environment owed (task :: stack)) :
    Leads program state origins created ⟨task.release state, .failing fault, stack⟩ := by
  cases waits with
  | task member continues around fits rest =>
      obtain ⟨released, environment, heap⟩ := release_in_step sound task
      apply leads_same (congrArg (·.frames.size) heap)
      refine ⟨released, ?_⟩
      simp only [Tagged.store, heap, environment]
      exact .failing possible rest

/-- One step keeps the machine in step with the resolver. There is one case for each form of
control, and the step is shown to lead on in all of them. -/
theorem in_step_next (accepted : Accepted program) {tagged : Tagged}
    (inStep : InStep program tagged) : InStep program tagged.next := by
  rcases tagged with ⟨⟨state, control, stack⟩, origins⟩
  rcases inStep with ⟨sound, runs⟩
  show Leads program state origins (stepOrigins ⟨state, control, stack⟩) (next ⟨state, control, stack⟩)
  cases runs with
  | evaluate member fits waits => exact evaluate_leads accepted sound member fits waits
  | execute member fits waits => exact execute_leads accepted sound member fits waits
  | done waits =>
      cases stack with
      | nil => exact done_leads sound _ waits
      | cons task rest => exact resume_leads accepted sound _ waits
  | returning waits =>
      cases stack with
      | nil => exact leads_same rfl ⟨sound, .returning waits⟩
      | cons task rest => exact unwind_leads sound _ waits
  | failing possible waits =>
      cases stack with
      | nil => exact leads_same rfl ⟨sound, .failing possible waits⟩
      | cons task rest => exact release_leads sound possible waits

theorem in_step_run (accepted : Accepted program) (steps : Nat) {tagged : Tagged}
    (inStep : InStep program tagged) : InStep program (tagged.run steps) := by
  induction steps generalizing tagged with
  | zero => exact inStep
  | succ steps induction => exact induction (in_step_next accepted inStep)

def Tagged.start (program : Program) (state : State) : Tagged := ⟨program.load state, [.globals]⟩

theorem initial_store_sound (statements : List Stmt) :
    StoreSound statements ⟨initialHeap, [.globals]⟩ := by
  constructor
  · rfl
  · exact ⟨_, rfl, rfl⟩
  · intro ref frame found tag
    rcases ref with ⟨index⟩
    cases index <;> simp at tag
  · intro ref frame found tag
    rcases ref with ⟨index⟩
    cases index <;> simp at tag
  · intro ref closure found
    simp [Heap.function?, initialHeap] at found
  · intro ref cls name closure found
    simp [Heap.class?, initialHeap] at found

theorem in_step_start (program : Program) (state : State) :
    InStep program (Tagged.start program state) := by
  refine ⟨⟨rfl, rfl, initial_store_sound program.statements⟩, .done ?_⟩
  have whole : (.plain [], .body program.statements) ∈ positions program.statements :=
    Scope.body_mem [] program.statements
  exact waits_push whole .program .outermost .nothing

theorem tagged_run_machine (steps : Nat) (tagged : Tagged) :
    (tagged.run steps).machine = tagged.machine.run steps := by
  induction steps generalizing tagged with
  | zero => rfl
  | succ steps induction =>
      rw [Tagged.run, induction, Machine.run]
      split
      next stopped =>
        have still : tagged.next.machine = tagged.machine := next_of_halted _ stopped
        rw [still]
        cases steps with
        | zero => rfl
        | succ steps => rw [Machine.run, if_pos stopped]
      next => rfl

end Quill.Machine
