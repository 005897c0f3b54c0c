import Quill.Proofs.Machine.Lineage

/-!
Names that frames are still to be given. The declarations that are left of a block wait on the
stack, and until one of them is carried out the frame of the block does not bind its name. For
no two declarations of a scope have the same name, a frame is in use for one block only, and
every other write is to a name that is bound.
-/

namespace Quill

set_option autoImplicit false

def Stmt.introduces (stmt : Stmt) : List String := (stmt.declared?.map Token.lexeme).toList

namespace Scope

def declaredNames (stmts : List Stmt) : List String := stmts.flatMap Stmt.introduces

theorem declaration_mem {layers : List Layer} {stmt : Stmt} {name : Token}
    (declared : stmt.declared? = some name) :
    (.plain layers, .declaration name) ∈ stmtPositions layers stmt := by
  cases stmt with
  | varDecl => simp_all [Stmt.declared?, stmtPositions]
  | functionDecl => simp_all [Stmt.declared?, stmtPositions]
  | classDecl => simp_all [Stmt.declared?, stmtPositions]
  | _ => simp [Stmt.declared?] at declared

/-- A scope gets a name once, and not again what it holds already. -/
theorem declared_names_distinct {layer : Layer} {outer : List Layer} {stmts : List Stmt}
    (lawful : Lawful (bodyPositions (layer :: outer) stmts)) :
    (declaredNames stmts).Nodup ∧ ∀ name ∈ declaredNames stmts, name ∉ layer.names := by
  induction stmts generalizing layer with
  | nil => simp [declaredNames]
  | cons stmt rest induction =>
      simp only [bodyPositions, lawful_cons, lawful_append] at lawful
      obtain ⟨-, first, others⟩ := lawful
      cases declared : stmt.declared? with
      | none =>
          rw [after_undeclared declared] at others
          simpa [declaredNames, Stmt.introduces, declared] using induction others
      | some name =>
          have unused : name.lexeme ∉ layer.names := fun earlier =>
            first _ (declaration_mem declared) (.duplicate rfl earlier)
          rw [after, declared] at others
          obtain ⟨distinct, apart⟩ := induction others
          simp only [List.mem_cons, not_or] at apart
          simp only [declaredNames, List.flatMap_cons, Stmt.introduces, declared, Option.map_some,
            Option.toList_some, List.singleton_append, List.nodup_cons, List.mem_cons,
            forall_eq_or_imp]
          exact ⟨⟨fun again => (apart _ again).1 rfl, distinct⟩, unused,
            fun other member => (apart other member).2⟩

end Scope

namespace Machine

open Scope (Layer Place positions routinePositions declaredNames)

def Task.introduces (task : Task) : List String := (task.declares.map Token.lexeme).toList

def Control.introduces : Control → List String
  | .execute clause => clause.introduces
  | _ => []

def Task.closes : Task → Bool
  | .block _ _ => true
  | .program _ => true
  | _ => false

/-- `Unborn heap environment names stack`: neither the names nor those that the tasks will declare
are bound in the frames that they are for. The names are for the frame in use; what the top
level declares may be bound already. -/
inductive Unborn (heap : Heap) : FrameRef → List String → List Task → Prop where
  | nothing {environment : FrameRef} : Unborn heap environment [] []
  | program {names : List String} {remaining : List Stmt} :
      Unborn heap ⟨0⟩ names [.program remaining]
  | block {environment outer : FrameRef} {names : List String} {remaining : List Stmt}
      {stack : List Task} (distinct : (names ++ declaredNames remaining).Nodup)
      (absent : ∀ name ∈ names ++ declaredNames remaining, heap.local? environment name = none)
      (older : outer.index < environment.index) (rest : Unborn heap outer [] stack) :
      Unborn heap environment names (.block remaining outer :: stack)
  | waiting {environment : FrameRef} {names : List String} {task : Task} {stack : List Task}
      (inside : task.closes = false)
      (rest : Unborn heap environment (names ++ task.introduces) stack) :
      Unborn heap environment names (task :: stack)

/-- Names that are not bound in the frames up to some frame stay so. Frames behind it are new, and
what they hold does not matter to the tasks. -/
def StaysUnbound (last : FrameRef) (heap later : Heap) : Prop :=
  ∀ ref name, ref.index ≤ last.index → heap.local? ref name = none → later.local? ref name = none

variable {heap later : Heap} {environment : FrameRef} {names : List String} {stack : List Task}

theorem unborn_fewer (unborn : Unborn heap environment names stack) {fewer : List String}
    (sublist : fewer.Sublist names) : Unborn heap environment fewer stack := by
  induction unborn generalizing fewer with
  | nothing =>
      rw [List.sublist_nil.1 sublist]
      exact .nothing
  | program => exact .program
  | @block environment outer names remaining stack distinct absent older rest induction =>
      have part := sublist.append_right (declaredNames remaining)
      exact .block (distinct.sublist part) (fun name member => absent name (part.subset member))
        older rest
  | waiting inside rest induction => exact .waiting inside (induction (sublist.append_right _))

theorem unborn_none (unborn : Unborn heap environment names stack) :
    Unborn heap environment [] stack :=
  unborn_fewer unborn (List.nil_sublist names)

theorem unborn_later (unborn : Unborn heap environment names stack)
    (stays : StaysUnbound environment heap later) : Unborn later environment names stack := by
  induction unborn with
  | nothing => exact .nothing
  | program => exact .program
  | block distinct absent older rest induction =>
      refine .block distinct (fun name member => stays _ _ (Nat.le_refl _) (absent name member)) older
        (induction fun ref name within => stays ref name (by omega))
  | waiting inside rest induction => exact .waiting inside (induction stays)

theorem unborn_declared {name : String} (unborn : Unborn heap environment (name :: names) stack)
    (value : Value) : Unborn (heap.define environment name value) environment names stack := by
  have elsewhere : ∀ ref other, environment ≠ ref ∨ other ≠ name → heap.local? ref other = none →
      (heap.define environment name value).local? ref other = none := by
    intro ref other different unbound
    rw [local_define, if_neg (by tauto)]
    exact unbound
  generalize whole : name :: names = both at unborn
  induction unborn generalizing names with
  | nothing => cases whole
  | program => exact .program
  | @block environment outer both remaining stack distinct absent older rest induction =>
      subst whole
      simp only [List.cons_append, List.nodup_cons, List.mem_cons, forall_eq_or_imp] at distinct absent
      refine .block distinct.2 (fun other member => elsewhere _ _ (.inr ?_) (absent.2 other member))
        older (unborn_later rest fun ref other within => elsewhere ref other (.inl ?_))
      · rintro rfl
        exact distinct.1 member
      · rintro rfl
        omega
  | waiting inside rest induction =>
      subst whole
      exact .waiting inside (induction elsewhere rfl)

theorem unborn_rest {task : Task} (inside : task.closes = false)
    (unborn : Unborn heap environment names (task :: stack)) :
    Unborn heap environment (names ++ task.introduces) stack := by
  cases unborn with
  | waiting _ rest => exact rest
  | program => cases inside
  | block => cases inside

theorem unborn_block {remaining : List Stmt} {outer : FrameRef}
    (unborn : Unborn heap environment names (.block remaining outer :: stack)) :
    (names ++ declaredNames remaining).Nodup ∧
      (∀ name ∈ names ++ declaredNames remaining, heap.local? environment name = none) ∧
      outer.index < environment.index ∧ Unborn heap outer [] stack := by
  cases unborn with
  | block distinct absent older rest => exact ⟨distinct, absent, older, rest⟩
  | waiting inside => cases inside

theorem unborn_program {remaining : List Stmt}
    (unborn : Unborn heap environment names (.program remaining :: stack)) :
    environment = ⟨0⟩ ∧ stack = [] := by
  cases unborn with
  | program => exact ⟨rfl, rfl⟩
  | waiting inside => cases inside

section Stays

variable {last : FrameRef}

theorem stays_same (frames : later.frames = heap.frames) : StaysUnbound last heap later := by
  intro ref name _ unbound
  simpa only [Heap.local?, Heap.frame?, frames] using unbound

theorem stays_add_frame (frame : Frame) (inUse : last.index < heap.frames.size) :
    StaysUnbound last heap (heap.addFrame frame) := by
  intro ref name within unbound
  have old : ref ≠ heap.nextFrame := by
    rintro rfl
    exact absurd inUse (Nat.not_lt.2 within)
  rw [Heap.local?, frame_add_frame, if_neg old]
  exact unbound

theorem stays_define {ref : FrameRef} {name : String} (bound : (heap.local? ref name).isSome)
    (value : Value) : StaysUnbound last heap (heap.define ref name value) := by
  intro other sought _ unbound
  rw [local_define, if_neg]
  · exact unbound
  · rintro ⟨rfl, rfl, -⟩
    simp [unbound] at bound

end Stays

/-- The names that the machine has yet to declare are not bound before. -/
structure Expects (machine : Machine) : Prop where
  inUse : machine.state.environment.index < machine.state.heap.frames.size
  unborn : Unborn machine.state.heap machine.state.environment machine.control.introduces
    machine.stack

section Steps

variable {state : State} (inUse : state.environment.index < state.heap.frames.size)

include inUse

theorem enter_unborn (unborn : Unborn state.heap state.environment [] stack) (parent : FrameRef)
    {bindings : Bindings Value} {body : List Stmt} (distinct : (declaredNames body).Nodup)
    (absent : ∀ name ∈ declaredNames body, bindings.get? name = none) :
    Unborn (state.heap.addFrame ⟨some parent, bindings⟩) state.heap.nextFrame []
      (.block body state.environment :: stack) := by
  refine .block distinct (fun name member => ?_) inUse
    (unborn_later unborn (stays_add_frame _ inUse))
  rw [Heap.local?, frame_add_frame, if_pos rfl]
  exact absent name member

theorem deliver_read_expects (unborn : Unborn state.heap state.environment [] stack) (line : Nat)
    (result : Except Heap.AccessFault Value) : Expects (deliverRead state line result stack) := by
  cases result <;> exact ⟨inUse, unborn⟩

theorem deliver_bound_expects (unborn : Unborn state.heap state.environment [] stack)
    (method : Closure) (receiver : InstanceRef) :
    Expects (deliverBound state method receiver stack) := by
  have framed := unborn_later unborn (stays_add_frame (Heap.receiverFrame method receiver) inUse)
  refine ⟨?_, unborn_later framed (stays_same rfl)⟩
  simpa [deliverBound, State.addBound, Heap.addBound, Heap.addFrame, Heap.addFunction] using
    Nat.lt_succ_of_lt inUse

theorem evaluate_expects (unborn : Unborn state.heap state.environment [] stack) (term : Expr) :
    Expects (evaluate state term stack) := by
  cases term with
  | literal id value => exact ⟨inUse, unborn⟩
  | grouping id inner => exact ⟨inUse, unborn⟩
  | variableRef id name => exact deliver_read_expects inUse unborn _ _
  | thisRef id keyword => exact deliver_read_expects inUse unborn _ _
  | baseRef id keyword name =>
      have outcome := evaluate_base_outcome state id keyword name stack
      simp only [evaluate]
      generalize evaluateBase state id keyword name stack = machine at outcome ⊢
      cases outcome with
      | bound => exact deliver_bound_expects inUse unborn _ _
      | _ => exact ⟨inUse, unborn⟩
  | _ => exact ⟨inUse, .waiting rfl unborn⟩

theorem declare_expects {name : String} (unborn : Unborn state.heap state.environment [name] stack)
    (value : Value) : Expects ⟨state.declare name value, .done .nil, stack⟩ := by
  refine ⟨?_, unborn_declared unborn value⟩
  change _ < (state.heap.define _ _ _).frames.size
  rwa [define_size]

theorem define_class_expects {name : Token}
    (unborn : Unborn state.heap state.environment [name.lexeme] stack) (parent : Option ClassRef)
    (methods : List FunctionDecl) : Expects (defineClass state name parent methods stack) := by
  cases parent with
  | none =>
      have made : Unborn (state.addClass ⟨name.lexeme, none, Heap.methodTable name.lexeme
          state.environment methods⟩).heap state.environment [name.lexeme] stack :=
        unborn_later unborn (stays_same rfl)
      refine declare_expects ?_ made _
      exact inUse
  | some parent =>
      let base : Frame := ⟨some state.environment, Bindings.empty.insert "base" (.classRef parent)⟩
      have made : Unborn ((state.addFrame base).addClass ⟨name.lexeme, some parent,
          Heap.methodTable name.lexeme state.heap.nextFrame methods⟩).heap state.environment
            [name.lexeme] stack :=
        unborn_later (unborn_later unborn (stays_add_frame base inUse)) (stays_same rfl)
      refine declare_expects ?_ made _
      simpa [State.addClass, State.addFrame, Heap.addClass, Heap.addFrame] using
        Nat.lt_succ_of_lt inUse

variable {program : Program} {origins : List Origin}

theorem execute_expects (accepted : Accepted program) {layers : List Layer} {clause : Stmt}
    (member : (.plain layers, .stmt clause) ∈ positions program.statements)
    (unborn : Unborn state.heap state.environment clause.introduces stack) :
    Expects (execute state clause stack) := by
  cases clause with
  | expression expr => exact ⟨inUse, unborn⟩
  | varDecl name initializer =>
      cases initializer with
      | none => exact declare_expects inUse unborn .nil
      | some initializer => exact ⟨inUse, .waiting rfl unborn⟩
  | functionDecl decl =>
      have made : Unborn (state.addFunction ⟨decl, state.environment, false⟩).heap
          state.environment [decl.name.lexeme] stack := unborn_later unborn (stays_same rfl)
      refine declare_expects ?_ made _
      exact inUse
  | classDecl name base methods =>
      cases base with
      | none => exact define_class_expects inUse unborn none methods
      | some base => exact ⟨inUse, .waiting rfl unborn⟩
  | block body =>
      have lawful : Scope.Lawful (Scope.bodyPositions (⟨.block body, []⟩ :: layers) body) :=
        fun position among => accepted.lawful position
          (Scope.below_subset member (List.mem_cons_of_mem _ among))
      refine ⟨by simp [execute, State.enter, Heap.addFrame, Heap.nextFrame], ?_⟩
      exact enter_unborn inUse unborn state.environment
        (Scope.declared_names_distinct lawful).1 fun _ _ => rfl
  | ifThen condition thenBranch => exact ⟨inUse, .waiting rfl unborn⟩
  | ifElse condition thenBranch elseBranch => exact ⟨inUse, .waiting rfl unborn⟩
  | whileLoop condition body => exact ⟨inUse, .waiting rfl unborn⟩
  | returnStmt keyword value =>
      cases value with
      | none => exact ⟨inUse, unborn⟩
      | some value => exact ⟨inUse, .waiting rfl unborn⟩

/-- The parameters of a function are none of the names that its body declares. -/
theorem enter_call_expects (accepted : Accepted program) {closure : Closure}
    {className : Option Token} {layers : List Layer}
    (inside : routinePositions className layers closure.decl ⊆ positions program.statements)
    (unborn : Unborn state.heap state.environment [] stack) (given : List Value)
    (completion : Completion) : Expects (enterCall state closure given completion stack) := by
  have lawful : Scope.Lawful (Scope.bodyPositions (Scope.holdingAll closure.decl.parameters
      (⟨.routine className closure.decl, []⟩ :: layers)) closure.decl.body) := by
    refine fun position among => accepted.lawful position (inside ?_)
    revert among
    rcases closure.decl with ⟨name, parameters, body⟩
    exact fun among => List.mem_cons_of_mem _ (List.mem_append_right _ among)
  rw [holding_all_names] at lawful
  obtain ⟨distinct, apart⟩ := Scope.declared_names_distinct lawful
  have caller : Unborn state.heap state.environment [] (.leaveCall completion :: stack) :=
    .waiting rfl unborn
  refine ⟨by simp [enterCall, State.enter, Heap.addFrame, Heap.nextFrame], ?_⟩
  refine enter_unborn inUse caller closure.frame distinct fun name declares => ?_
  by_contra bound
  obtain ⟨value, found⟩ := Option.ne_none_iff_exists'.1 bound
  exact apart name declares (by simpa using (parameter_bindings_mem found).1)

theorem call_value_expects (accepted : Accepted program)
    (sound : StoreSound program.statements ⟨state.heap, origins⟩)
    (unborn : Unborn state.heap state.environment [] stack) (callee : Value) (given : List Value)
    (line : Nat) : Expects (callValue state callee given line stack) := by
  have outcome := call_value_outcome state given line stack callee
  generalize callValue state callee given line stack = machine at outcome ⊢
  cases outcome with
  | @entered ref closure found =>
      obtain ⟨className, layers, inside, -⟩ := sound.functions ref closure found
      exact enter_call_expects inUse accepted inside unborn _ _
  | created => exact ⟨inUse, unborn_later unborn (stays_same rfl)⟩
  | @constructed ref method found =>
      obtain ⟨className, derived, layers, inside, -⟩ := constructor_within_sound sound found
      let object := state.heap.nextInstance
      have made : Unborn ((state.addInstance ⟨ref, .empty⟩).addFrame
          (Heap.receiverFrame method object)).heap state.environment [] stack :=
        unborn_later (unborn_later unborn (stays_same rfl)) (stays_add_frame _ inUse)
      have isMethod : routinePositions (some className) _ (state.heap.boundMethod method).decl ⊆
        positions program.statements := inside
      refine enter_call_expects ?_ accepted isMethod made _ _
      simpa [State.addInstance, State.addFrame, Heap.addInstance, Heap.addFrame] using
        Nat.lt_succ_of_lt inUse
  | _ => exact ⟨inUse, unborn⟩

theorem execute_next_expects (unborn : Unborn state.heap state.environment [] stack)
    {clause : Stmt} (undeclared : clause.declared? = none) :
    Expects ⟨state, .execute clause, stack⟩ := by
  refine ⟨inUse, ?_⟩
  rw [show (Control.execute clause).introduces = [] by
    simp [Control.introduces, Stmt.introduces, undeclared]]
  exact unborn

/-- A task that declares a name takes it from those that are still to come. The cases are those of
what a task can lead to. -/
theorem resume_expects (accepted : Accepted program) (sound : StateSound program state origins)
    {task : Task} (waits : Waits program.statements ⟨state.heap, origins⟩ state.environment none
      (task :: stack)) (unborn : Unborn state.heap state.environment [] (task :: stack))
    (value : Value) : Expects (resume state value task stack) := by
  have rest (closes : task.closes = false) :
      Unborn state.heap state.environment task.introduces stack := unborn_rest closes unborn
  have outcome := resume_outcome state stack value task
  generalize resume state value task stack = machine at outcome ⊢
  cases outcome with
  | left | firstArgument | nextArgument | setObject | again =>
      exact ⟨inUse, .waiting rfl (rest rfl)⟩
  | assigned slot =>
      refine ⟨?_, unborn_later (rest rfl) (stays_define (slot_held slot) value)⟩
      change _ < (state.heap.define _ _ _).frames.size
      rwa [define_size]
  | bareCall | lastCall =>
      exact call_value_expects inUse accepted sound.store (rest rfl) _ _ _
  | bound => exact deliver_bound_expects inUse (rest rfl) _ _
  | setField => exact ⟨inUse, unborn_later (rest rfl) (stays_same rfl)⟩
  | declared => exact declare_expects inUse (rest rfl) value
  | derived => exact define_class_expects inUse (rest rfl) _ _
  | noClass => exact ⟨inUse, unborn_none (rest rfl)⟩
  | @taken _ thenBranch =>
      obtain ⟨place, node, member, continues, -⟩ := waits_top waits
      have undeclared : thenBranch.declared? = none := by
        cases continues with
        | ifThen => exact accepted.formed member
        | ifElse => exact (accepted.formed member).1
      exact execute_next_expects inUse (rest rfl) undeclared
  | @otherwise _ _ elseBranch =>
      obtain ⟨place, node, member, continues, -⟩ := waits_top waits
      have undeclared : elseBranch.declared? = none := by
        cases continues with
        | ifElse => exact (accepted.formed member).2
      exact execute_next_expects inUse (rest rfl) undeclared
  | @turn _ condition body =>
      obtain ⟨place, node, member, continues, -⟩ := waits_top waits
      have undeclared : body.declared? = none := by
        cases continues with
        | loopTest => exact accepted.formed member
      have again : Unborn state.heap state.environment [] (.loopBody condition body :: stack) :=
        .waiting rfl (rest rfl)
      exact execute_next_expects inUse again undeclared
  | blockEnds =>
      obtain ⟨-, -, older, below⟩ := unborn_block unborn
      exact ⟨Nat.lt_trans older inUse, below⟩
  | blockNext =>
      obtain ⟨distinct, absent, older, below⟩ := unborn_block unborn
      exact ⟨inUse, .block distinct absent older below⟩
  | programNext =>
      obtain ⟨outermost, rfl⟩ := unborn_program unborn
      refine ⟨inUse, ?_⟩
      simp only [outermost]
      exact .program
  | programEnds =>
      obtain ⟨-, rfl⟩ := unborn_program unborn
      exact ⟨inUse, .nothing⟩
  | _ => exact ⟨inUse, rest rfl⟩

theorem release_expects {task : Task}
    (unborn : Unborn state.heap state.environment [] (task :: stack)) {control : Control}
    (quiet : control.introduces = []) : Expects ⟨task.release state, control, stack⟩ := by
  cases task with
  | block remaining outer =>
      obtain ⟨-, -, older, rest⟩ := unborn_block unborn
      refine ⟨Nat.lt_trans older inUse, ?_⟩
      rw [quiet]
      exact rest
  | program remaining =>
      obtain ⟨-, rfl⟩ := unborn_program unborn
      refine ⟨inUse, ?_⟩
      rw [quiet]
      exact .nothing
  | _ =>
      refine ⟨inUse, ?_⟩
      rw [quiet]
      exact unborn_none (unborn_rest rfl unborn)

theorem unwind_expects {task : Task}
    (unborn : Unborn state.heap state.environment [] (task :: stack)) (value : Value) :
    Expects (unwindReturn state value task stack) := by
  have released (control : Control) (quiet : control.introduces = []) :=
    release_expects inUse unborn quiet
  cases task <;> exact released _ rfl

end Steps

/-- One step declares a name that was expected, or none. -/
theorem expects_next {program : Program} (accepted : Accepted program) {tagged : Tagged}
    (inStep : InStep program tagged) (expects : Expects tagged.machine) :
    Expects tagged.machine.next := by
  rcases tagged with ⟨⟨state, control, stack⟩, origins⟩
  obtain ⟨sound, runs⟩ := inStep
  obtain ⟨inUse, unborn⟩ := expects
  cases runs with
  | evaluate member fits waits => exact evaluate_expects inUse unborn _
  | execute member fits waits => exact execute_expects inUse accepted member unborn
  | done waits =>
      cases stack with
      | nil => exact ⟨inUse, unborn⟩
      | cons task rest => exact resume_expects inUse accepted sound waits unborn _
  | returning waits =>
      cases stack with
      | nil => exact ⟨inUse, unborn⟩
      | cons task rest => exact unwind_expects inUse unborn _
  | failing possible waits =>
      cases stack with
      | nil => exact ⟨inUse, unborn⟩
      | cons task rest => exact release_expects inUse unborn rfl

theorem expects_run {program : Program} (accepted : Accepted program) (state : State)
    (steps : Nat) : Expects ((program.load state).run steps) := by
  rw [← reached_machine]
  induction steps with
  | zero => exact ⟨Nat.zero_lt_one, .program⟩
  | succ steps induction =>
      rw [reached, tagged_run_succ]
      exact expects_next accepted (reached_in_step accepted state steps) induction

end Machine

end Quill
