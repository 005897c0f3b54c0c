import Quill.Proofs.Machine.Access
import Quill.Proofs.Machine.Initializing
import Quill.Proofs.Machine.Stopping
import Quill.Proofs.Machine.Writes

/-!
Locals are bound once. The parameters of a function have different names, a block declares each
of its names once and none that it has been given, and every frame of a block, a call, a receiver
or a base class is new. So of the writes of a run none binds a name in a frame that holds it,
except in the outermost frame, and what a function has captured stays bound where it was.
-/

namespace Quill

set_option autoImplicit false

def Write.binds (frame : FrameRef) (name : String) : Write → Bool
  | .define other sought _ => decide (other = frame ∧ sought = name)
  | _ => false

def Write.assigns? (frame : FrameRef) (name : String) : Write → Option Value
  | .assign other sought value => if other = frame ∧ sought = name then some value else none
  | _ => none

def lastAssigned (frame : FrameRef) (name : String) (held : Value) (writes : List Write) : Value :=
  (writes.filterMap (Write.assigns? frame name)).getLast?.getD held

theorem last_assigned_cons (frame : FrameRef) (name : String) (held : Value) (write : Write)
    (writes : List Write) : lastAssigned frame name held (write :: writes) =
      lastAssigned frame name ((write.assigns? frame name).getD held) writes := by
  unfold lastAssigned
  cases assigned : write.assigns? frame name with
  | none => rw [List.filterMap_cons_none assigned, Option.getD_none]
  | some value =>
      rw [List.filterMap_cons_some assigned, List.getLast?_cons, Option.getD_some, Option.getD_some]

namespace Heap

/-- The write is to a frame that exists. A name that is bound anew is not bound yet, unless in the
outermost frame, and one that is assigned to is. -/
def Proper (heap : Heap) : Write → Prop
  | .enter parent => parent.index < heap.frames.size
  | .define frame name _ =>
      frame.index < heap.frames.size ∧ (frame ≠ ⟨0⟩ → heap.local? frame name = none)
  | .assign frame name _ => (heap.local? frame name).isSome = true

def Orderly (heap : Heap) : List Write → Prop
  | [] => True
  | write :: writes => heap.Proper write ∧ (heap.perform write).Orderly writes

section Writes

variable {heap other : Heap} {write : Write} {writes early late : List Write} {frame : FrameRef}
  {name : String} {value : Value}

theorem local_frames (same : heap.frames = other.frames) (frame : FrameRef) (name : String) :
    heap.local? frame name = other.local? frame name := by
  unfold local? frame?
  rw [same]

theorem proper_frames (same : heap.frames = other.frames) (proper : heap.Proper write) :
    other.Proper write := by
  cases write with
  | enter parent =>
      change parent.index < other.frames.size
      rw [← same]
      exact proper
  | define frame name value =>
      obtain ⟨present, unbound⟩ := proper
      refine ⟨same ▸ present, fun inner => ?_⟩
      rw [← local_frames same]
      exact unbound inner
  | assign frame name value =>
      change (other.local? frame name).isSome = true
      rw [← local_frames same]
      exact proper

theorem orderly_frames (same : heap.frames = other.frames) (orderly : heap.Orderly writes) :
    other.Orderly writes := by
  induction writes generalizing heap other with
  | nil => trivial
  | cons write writes induction =>
      exact ⟨proper_frames same orderly.1, induction (perform_frames same write) orderly.2⟩

theorem orderly_append :
    heap.Orderly (early ++ late) ↔ heap.Orderly early ∧ (heap.performAll early).Orderly late := by
  induction early generalizing heap with
  | nil => simp [Orderly]
  | cons write early induction => simp [Orderly, induction, and_assoc]

theorem local_enter (heap : Heap) (parent frame : FrameRef) (name : String) :
    (heap.addFrame ⟨some parent, .empty⟩).local? frame name = heap.local? frame name := by
  rw [local?, Machine.frame_add_frame]
  split
  next fresh =>
    rw [fresh]
    simp [local?, frame?, nextFrame]
  next => rfl

/-- A local that is bound stays so, and holds what it held or what was assigned to it last. -/
theorem orderly_kept (orderly : heap.Orderly writes) (inner : frame ≠ ⟨0⟩)
    (bound : heap.local? frame name = some value) :
    (heap.performAll writes).local? frame name = some (lastAssigned frame name value writes) := by
  induction writes generalizing heap value with
  | nil => exact bound
  | cons write writes induction =>
      obtain ⟨proper, rest⟩ := orderly
      rw [perform_all_cons, last_assigned_cons]
      refine induction rest ?_
      cases write with
      | enter parent => exact (local_enter heap parent frame name).trans bound
      | define other sought fresh =>
          rw [perform, Machine.local_define, if_neg]
          · exact bound
          · rintro ⟨rfl, rfl, -⟩
            rw [proper.2 inner] at bound
            cases bound
      | assign other sought fresh =>
          by_cases same : other = frame ∧ sought = name
          · obtain ⟨rfl, rfl⟩ := same
            have present := local_frame (Option.isSome_iff_exists.2 ⟨value, bound⟩)
            rw [perform, Machine.local_define, if_pos ⟨rfl, rfl, present⟩]
            simp [Write.assigns?]
          · rw [perform, Machine.local_define, if_neg fun both => same ⟨both.1, both.2.1.symm⟩]
            simpa [Write.assigns?, same] using bound

/-- A local is bound if it was bound before or is bound by one of the writes, but not by two. -/
theorem orderly_count (orderly : heap.Orderly writes) (inner : frame ≠ ⟨0⟩) :
    writes.countP (Write.binds frame name) + (heap.local? frame name).isSome.toNat =
      ((heap.performAll writes).local? frame name).isSome.toNat := by
  induction writes generalizing heap with
  | nil => simp
  | cons write writes induction =>
      obtain ⟨proper, rest⟩ := orderly
      have step : (if Write.binds frame name write then 1 else 0) +
          (heap.local? frame name).isSome.toNat =
            ((heap.perform write).local? frame name).isSome.toNat := by
        cases write with
        | enter parent => simp [Write.binds, perform, local_enter]
        | define other sought fresh =>
            by_cases same : other = frame ∧ sought = name
            · obtain ⟨rfl, rfl⟩ := same
              have present : (heap.frame? other).isSome = true := by
                rw [frame?, Array.getElem?_eq_getElem proper.1]
                rfl
              have after : (heap.perform (.define other sought fresh)).local? other sought =
                  some fresh := by
                rw [perform, Machine.local_define, if_pos ⟨rfl, rfl, present⟩]
              rw [after, proper.2 inner]
              simp [Write.binds]
            · have after : (heap.perform (.define other sought fresh)).local? frame name =
                  heap.local? frame name := by
                rw [perform, Machine.local_define,
                  if_neg fun both => same ⟨both.1, both.2.1.symm⟩]
              simp [after, Write.binds, same]
        | assign other sought fresh =>
            by_cases same : other = frame ∧ name = sought
            · obtain ⟨rfl, rfl⟩ := same
              have held : (heap.local? other name).isSome = true := proper
              have after : (heap.perform (.assign other name fresh)).local? other name =
                  some fresh := by
                rw [perform, Machine.local_define, if_pos ⟨rfl, rfl, local_frame held⟩]
              rw [after, held]
              simp [Write.binds]
            · have after : (heap.perform (.assign other sought fresh)).local? frame name =
                  heap.local? frame name := by
                rw [perform, Machine.local_define, if_neg fun both => same ⟨both.1, both.2.1⟩]
              simp [after, Write.binds]
      have more := induction rest
      rw [List.countP_cons, perform_all_cons, ← more, ← step]
      omega

theorem parent_perform (write : Write) {parent : FrameRef}
    (isParent : heap.parent? frame = some parent) :
    (heap.perform write).parent? frame = some parent := by
  cases write with
  | enter outer =>
      obtain ⟨content, found, held⟩ := Option.bind_eq_some_iff.1 isParent
      have old : frame ≠ heap.nextFrame := by
        rintro rfl
        exact Nat.lt_irrefl _ (Machine.frame_lt found)
      rw [perform, parent?, Machine.frame_add_frame, if_neg old]
      exact isParent
  | define other sought fresh => exact (parent_define heap other frame sought fresh).trans isParent
  | assign other sought fresh => exact (parent_define heap other frame sought fresh).trans isParent

theorem ancestor_perform {distance : Nat} {holder : FrameRef}
    (reached : heap.ancestor? frame distance = some holder) (writes : List Write) :
    (heap.performAll writes).ancestor? frame distance = some holder := by
  have kept (write : Write) {heap : Heap} {frame : FrameRef} {distance : Nat}
      (reached : heap.ancestor? frame distance = some holder) :
      (heap.perform write).ancestor? frame distance = some holder := by
    induction distance generalizing frame with
    | zero => exact reached
    | succ distance induction =>
        rw [ancestor?] at reached ⊢
        obtain ⟨outer, isOuter, further⟩ := Option.bind_eq_some_iff.1 reached
        rw [parent_perform write isOuter]
        exact induction further
  induction writes generalizing heap with
  | nil => exact reached
  | cons write writes induction => exact induction (kept write reached)

theorem ancestor_frames (same : heap.frames = other.frames) (frame : FrameRef) (distance : Nat) :
    heap.ancestor? frame distance = other.ancestor? frame distance := by
  induction distance generalizing frame with
  | zero => rfl
  | succ distance induction =>
      rw [ancestor?, ancestor?, parent?, parent?, frame?, frame?, same]
      exact congrArg _ (funext induction)

theorem bound_perform (write : Write) (bound : (heap.local? frame name).isSome = true) :
    ((heap.perform write).local? frame name).isSome = true := by
  have defined (other : FrameRef) (sought : String) (fresh : Value) :
      ((heap.define other sought fresh).local? frame name).isSome = true := by
    rw [Machine.local_define]
    split
    · rfl
    · exact bound
  cases write with
  | enter parent => rwa [perform, local_enter]
  | define other sought fresh => exact defined other sought fresh
  | assign other sought fresh => exact defined other sought fresh

theorem bound_define (present : frame.index < heap.frames.size) (name : String) (value : Value) :
    ((heap.define frame name value).local? frame name).isSome = true := by
  have found : (heap.frame? frame).isSome = true := by
    rw [frame?, Array.getElem?_eq_getElem present]
    rfl
  rw [Machine.local_define, if_pos ⟨rfl, rfl, found⟩]
  rfl

theorem new_frame_local (heap : Heap) (parent : Option FrameRef) (name : String) :
    (heap.addFrame ⟨parent, .empty⟩).local? heap.nextFrame name = none := by
  rw [local?, Machine.frame_add_frame, if_pos rfl]
  rfl

theorem new_frame_present (heap : Heap) (new : Frame) :
    heap.nextFrame.index < (heap.addFrame new).frames.size := by
  simp [nextFrame, addFrame]

theorem orderly_defines {pairs : List (Token × Value)} (present : frame.index < heap.frames.size)
    (distinct : (pairs.map fun pair => pair.1.lexeme).Nodup)
    (absent : ∀ name ∈ pairs.map fun pair => pair.1.lexeme, heap.local? frame name = none) :
    heap.Orderly (pairs.map fun pair => .define frame pair.1.lexeme pair.2) := by
  induction pairs generalizing heap with
  | nil => trivial
  | cons pair pairs induction =>
      simp only [List.map_cons, List.nodup_cons, List.mem_cons, forall_eq_or_imp] at distinct absent
      refine ⟨⟨present, fun _ => absent.1⟩, induction ?_ distinct.2 fun other later => ?_⟩
      · rwa [perform, Machine.define_size]
      · rw [perform, Machine.local_define, if_neg]
        · exact absent.2 other later
        · rintro ⟨-, rfl, -⟩
          exact distinct.1 later

end Writes

end Heap

namespace Scope

theorem parameter_names_distinct {layer : Layer} {outer : List Layer} {names : List Token}
    (lawful : Lawful (parameterPositions (layer :: outer) names)) :
    (names.map Token.lexeme).Nodup ∧ ∀ name ∈ names.map Token.lexeme, name ∉ layer.names := by
  induction names generalizing layer with
  | nil => simp
  | cons first rest induction =>
      obtain ⟨unbroken, others⟩ := (lawful_cons _ _).1 lawful
      obtain ⟨distinct, apart⟩ := induction others
      simp only [List.mem_cons, not_or] at apart
      simp only [List.map_cons, List.nodup_cons, List.mem_cons, forall_eq_or_imp]
      exact ⟨⟨fun again => (apart _ again).1 rfl, distinct⟩,
        fun earlier => unbroken (.duplicate rfl earlier), fun name member => (apart name member).2⟩

end Scope

namespace Machine

open Scope (Layer Place positions routinePositions)

theorem Accepted.parameters_distinct {program : Program} (accepted : Accepted program)
    {className : Option Token} {layers : List Layer} {decl : FunctionDecl}
    (inside : routinePositions className layers decl ⊆ positions program.statements) :
    (decl.parameters.map Token.lexeme).Nodup := by
  rcases decl with ⟨name, parameters, body⟩
  have lawful : Scope.Lawful (Scope.parameterPositions
      (⟨.routine className ⟨name, parameters, body⟩, []⟩ :: layers) parameters) :=
    fun position among => accepted.lawful position
      (inside (List.mem_cons_of_mem _ (List.mem_append_left _ among)))
  exact (Scope.parameter_names_distinct lawful).1

section Groups

variable {heap : Heap} {state : State}

theorem binding_orderly {method : Closure} (present : method.frame.index < heap.frames.size)
    (receiver : InstanceRef) : heap.Orderly (bindingWrites heap method receiver) :=
  ⟨present, ⟨heap.new_frame_present _, fun _ => heap.new_frame_local _ _⟩, trivial⟩

theorem call_orderly {closure : Closure} (present : closure.frame.index < heap.frames.size)
    (distinct : (closure.decl.parameters.map Token.lexeme).Nodup) {given : List Value}
    (arity : given.length = closure.arity) :
    heap.Orderly (callWrites heap.nextFrame closure given) := by
  have names : (closure.decl.parameters.zip given).map (fun pair => pair.1.lexeme) =
      closure.decl.parameters.map Token.lexeme := by
    have firsts : (closure.decl.parameters.zip given).map Prod.fst = closure.decl.parameters :=
      List.map_fst_zip (Nat.le_of_eq arity.symm)
    conv_rhs => rw [← firsts, List.map_map]
    rfl
  refine ⟨present, Heap.orderly_defines (heap.new_frame_present _) ?_ fun name _ => ?_⟩
  · rwa [names]
  · exact heap.new_frame_local _ _

theorem class_orderly (present : state.environment.index < state.heap.frames.size) {name : Token}
    (absent : state.environment ≠ ⟨0⟩ → state.heap.local? state.environment name.lexeme = none)
    (parent : Option ClassRef) : state.heap.Orderly (classWrites state name parent) := by
  have bound := Heap.bound_define present name.lexeme .nil
  cases parent with
  | none => exact ⟨⟨present, absent⟩, bound, trivial⟩
  | some parent =>
      have size : (state.heap.define state.environment name.lexeme .nil).frames.size =
          state.heap.frames.size := define_size _ _ _ _
      have fresh : (state.heap.define state.environment name.lexeme .nil).nextFrame =
          state.heap.nextFrame := congrArg FrameRef.mk size
      refine ⟨⟨present, absent⟩, ?_, ⟨?_, fun _ => ?_⟩, ?_, trivial⟩
      · change state.environment.index < _
        rwa [Heap.perform, size]
      · rw [← fresh]
        exact Heap.new_frame_present _ _
      · rw [← fresh]
        exact Heap.new_frame_local _ _ _
      · exact Heap.bound_perform _ (Heap.bound_perform _ bound)

/-- A call binds its parameters in a new frame. They are bound once each, because a program with two
parameters of one name is rejected. -/
theorem value_orderly {program : Program} (accepted : Accepted program) {origins : List Origin}
    (sound : StoreSound program.statements ⟨state.heap, origins⟩) (rooted : state.heap.Rooted)
    (callee : Value) (given : List Value) : state.heap.Orderly (valueWrites state callee given) := by
  unfold valueWrites
  cases callee with
  | functionRef ref =>
      dsimp only
      cases found : state.heap.function? ref with
      | none => trivial
      | some closure =>
          dsimp only
          cases refusal : state.refusal? closure.arity given.length with
          | some fault => trivial
          | none =>
              obtain ⟨className, layers, inside, -⟩ := sound.functions ref closure found
              exact call_orderly (rooted.functions ref closure found)
                (accepted.parameters_distinct inside) (refusal_none_iff.1 refusal).1
  | classRef ref =>
      dsimp only
      cases refusal : state.refusal? (state.heap.classArity ref) given.length with
      | some fault => trivial
      | none =>
          dsimp only [Option.isSome]
          rw [if_neg Bool.false_ne_true]
          cases found : state.heap.constructor? ref with
          | none => trivial
          | some method =>
              obtain ⟨className, derived, layers, inside, -⟩ := constructor_within_sound sound found
              have arity : given.length = method.arity := by
                have allowed := (refusal_none_iff.1 refusal).1
                rwa [Heap.classArity, found, Option.map_some, Option.getD_some] at allowed
              refine Heap.orderly_append.2 ⟨binding_orderly (rooted_constructor rooted found) _, ?_⟩
              rw [perform_binding]
              have last : (state.heap.addFrame (Heap.receiverFrame method
                  state.heap.nextInstance)).nextFrame = ⟨state.heap.frames.size + 1⟩ := by
                simp [Heap.addFrame, Heap.nextFrame]
              rw [← last]
              have isMethod : routinePositions (some className) _ (state.heap.boundMethod method).decl ⊆
                positions program.statements := inside
              refine call_orderly ?_ (accepted.parameters_distinct isMethod) arity
              exact state.heap.new_frame_present _
  | _ => trivial

end Groups

section Steps

variable {program : Program} {state : State} {stack : List Task}
  (inUse : state.environment.index < state.heap.frames.size)

theorem awaited_absent {names : List String} {name : String}
    (unborn : Unborn state.heap state.environment names stack) (awaited : name ∈ names) :
    state.environment ≠ ⟨0⟩ → state.heap.local? state.environment name = none :=
  fun inner => unborn_absent unborn inner name awaited

theorem evaluation_orderly (rooted : state.heap.Rooted) (expr : Expr) :
    state.heap.Orderly (evaluationWrites state expr) := by
  cases expr with
  | baseRef id keyword method =>
      unfold evaluationWrites
      dsimp only
      cases baseOperands state id with
      | error fault => trivial
      | ok operands =>
          obtain ⟨parent, receiver⟩ := operands
          dsimp only
          cases found : state.heap.method? parent method.lexeme with
          | none => trivial
          | some closure => exact binding_orderly (rooted_method rooted found) receiver
  | _ => trivial

include inUse

theorem execution_orderly {stmt : Stmt}
    (unborn : Unborn state.heap state.environment stmt.introduces stack) :
    state.heap.Orderly (executionWrites state stmt) := by
  cases stmt with
  | varDecl name initializer =>
      cases initializer with
      | none => exact ⟨⟨inUse, awaited_absent unborn (List.mem_singleton_self _)⟩, trivial⟩
      | some initializer => trivial
  | functionDecl decl =>
      exact ⟨⟨inUse, awaited_absent unborn (List.mem_singleton_self _)⟩, trivial⟩
  | classDecl name base methods =>
      cases base with
      | none => exact class_orderly inUse (awaited_absent unborn (List.mem_singleton_self _)) none
      | some base => trivial
  | block body => exact ⟨inUse, trivial⟩
  | _ => trivial

theorem resumption_orderly (accepted : Accepted program) {origins : List Origin}
    (sound : StoreSound program.statements ⟨state.heap, origins⟩) (rooted : state.heap.Rooted)
    {task : Task} (unborn : Unborn state.heap state.environment [] (task :: stack)) (value : Value) :
    state.heap.Orderly (resumptionWrites state value task) := by
  cases task with
  | assign id name =>
      unfold resumptionWrites
      dsimp only
      cases slot : state.slot id name.lexeme with
      | error fault => trivial
      | ok frame => exact ⟨slot_held slot, trivial⟩
  | callee paren arguments =>
      cases arguments with
      | nil => exact value_orderly accepted sound rooted value []
      | cons first others => trivial
  | argument callee evaluated paren remaining =>
      cases remaining with
      | nil => exact value_orderly accepted sound rooted callee (evaluated ++ [value])
      | cons first others => trivial
  | getProperty name =>
      cases value with
      | instanceRef receiver =>
          unfold resumptionWrites
          dsimp only
          cases found : state.heap.property? receiver name.lexeme with
          | none => trivial
          | some property =>
              cases property with
              | field held => trivial
              | method closure => exact binding_orderly (rooted_property rooted found) receiver
      | _ => trivial
  | declareVar name =>
      have awaited := awaited_absent (unborn_rest rfl unborn) (List.mem_singleton_self name.lexeme)
      exact ⟨⟨inUse, awaited⟩, trivial⟩
  | classBase name base methods =>
      cases value with
      | classRef parent =>
          have awaited := awaited_absent (unborn_rest rfl unborn) (List.mem_singleton_self name.lexeme)
          exact class_orderly inUse awaited (some parent)
      | _ => trivial
  | _ => trivial

end Steps

/-- The writes of a step bind no local that is bound. What is declared in the frame in use was still
to come, and all else is bound in frames that are new. -/
theorem writes_orderly {program : Program} (accepted : Accepted program) {tagged : Tagged}
    (inStep : InStep program tagged) (expects : Expects tagged.machine)
    (rooted : tagged.machine.state.heap.Rooted) :
    tagged.machine.state.heap.Orderly tagged.machine.writes := by
  rcases tagged with ⟨⟨state, control, stack⟩, origins⟩
  obtain ⟨inUse, unborn⟩ := expects
  cases control with
  | evaluate expr => exact evaluation_orderly rooted expr
  | execute stmt => exact execution_orderly inUse unborn
  | done value =>
      cases stack with
      | nil => trivial
      | cons task stack =>
          exact resumption_orderly inUse accepted inStep.state.store rooted unborn value
  | returning value => trivial
  | failing fault => trivial

theorem history_orderly {program : Program} (accepted : Accepted program) (state : State)
    (steps : Nat) : initialHeap.Orderly ((program.load state).history steps) := by
  induction steps with
  | zero => trivial
  | succ steps induction =>
      have same := reached_machine program state steps
      have expects := expects_run accepted state steps
      have rooted := (anchored_run program state steps).rooted
      rw [← same] at expects rooted
      have orderly := writes_orderly accepted (reached_in_step accepted state steps) expects rooted
      rw [same] at orderly
      exact Heap.orderly_append.2
        ⟨induction, Heap.orderly_frames (perform_history program state steps).symm orderly⟩

theorem history_add (machine : Machine) (earlier more : Nat) :
    machine.history (earlier + more) =
      machine.history earlier ++ (machine.run earlier).history more := by
  induction more with
  | zero => simp [history]
  | succ more induction =>
      rw [← Nat.add_assoc, history, history, induction, List.append_assoc, run_add]

theorem Accepted.read_inner {program : Program} (accepted : Accepted program) {store : Store}
    {environment : FrameRef} {place : Place} {term : Expr} {name : String} {distance : Nat}
    (member : (place, .expr term) ∈ positions program.statements)
    (looked : Scope.lookedUp? term = some name)
    (reads : ∀ id target value, term ≠ .assign id target value)
    (fits : Fits store environment place.layers)
    (found : program.locals.get? term.id = some distance) :
    ∃ holder value, holder ≠ ⟨0⟩ ∧ store.heap.ancestor? environment distance = some holder ∧
      store.heap.local? holder name = some value := by
  obtain ⟨holder, value, reached, bound⟩ := accepted.read_bound member looked reads fits found
  have within := nearest_lt ((accepted.entry_iff member looked distance).1 found)
  rw [held_length] at within
  have parts : place.layers = place.layers.take distance ++
      place.layers[distance] :: place.layers.drop (distance + 1) := by
    rw [List.getElem_cons_drop, List.take_append_drop]
  rw [parts] at fits
  obtain ⟨other, same, rest⟩ := fits_drop fits
  rw [List.length_take, Nat.min_eq_left (Nat.le_of_lt within), reached] at same
  cases same
  exact ⟨holder, value, fits_inner rest, reached, bound⟩

theorem initial_local {frame : FrameRef} (inner : frame ≠ ⟨0⟩) (name : String) :
    initialHeap.local? frame name = none := by
  rcases frame with ⟨_ | index⟩
  · exact absurd rfl inner
  · rfl

theorem perform_between (program : Program) (state : State) (earlier more : Nat) :
    (((program.load state).run earlier).state.heap.performAll
      (((program.load state).run earlier).history more)).frames =
        ((program.load state).run (earlier + more)).state.heap.frames := by
  rw [← perform_history, history_add, Heap.perform_all_append]
  exact Heap.perform_all_frames (perform_history program state earlier).symm _

section Bindings

variable {program : Program} (accepted : Accepted program) (state : State)

include accepted

theorem history_count (steps : Nat) {frame : FrameRef} (inner : frame ≠ ⟨0⟩) (name : String) :
    ((program.load state).history steps).countP (Write.binds frame name) =
      (((program.load state).run steps).state.heap.local? frame name).isSome.toNat := by
  have count : ((program.load state).history steps).countP (Write.binds frame name) +
      (initialHeap.local? frame name).isSome.toNat = _ :=
    Heap.orderly_count (history_orderly accepted state steps) inner
  rw [initial_local inner, Heap.local_frames (perform_history program state steps)] at count
  exact count

theorem between_orderly (earlier more : Nat) :
    ((program.load state).run earlier).state.heap.Orderly
      (((program.load state).run earlier).history more) := by
  have whole := history_orderly accepted state (earlier + more)
  rw [history_add] at whole
  exact Heap.orderly_frames (perform_history program state earlier) (Heap.orderly_append.1 whole).2

end Bindings

/-- What the writes of the first steps amount to. They are all that happens to frames, none binds
a local that is bound, and a local that is bound has been bound once. -/
structure BindsOnce (machine : Machine) (steps : Nat) : Prop where
  globals : (machine.run steps).state.globals = ⟨0⟩
  frames : (initialHeap.performAll (machine.history steps)).frames =
    (machine.run steps).state.heap.frames
  orderly : initialHeap.Orderly (machine.history steps)
  once : ∀ frame name, frame ≠ ⟨0⟩ → (machine.history steps).countP (Write.binds frame name) =
    ((machine.run steps).state.heap.local? frame name).isSome.toNat

/-- What is left of a heap after some writes. Functions and methods are still closed over the
frames that they captured, the ways outwards are the same, a local that was bound holds what
was assigned to it last, or else what it held, and that is what is read at its distance. -/
structure KeepsCaptured (before later : Heap) (between : List Write) : Prop where
  functions : ∀ ref closure, before.function? ref = some closure →
    later.function? ref = some closure
  classes : ∀ ref cls, before.class? ref = some cls → later.class? ref = some cls
  ways : ∀ frame distance holder, before.ancestor? frame distance = some holder →
    later.ancestor? frame distance = some holder
  locals : ∀ frame name value, frame ≠ ⟨0⟩ → before.local? frame name = some value →
    later.local? frame name = some (lastAssigned frame name value between)
  reads : ∀ frame distance holder name value, holder ≠ ⟨0⟩ →
    before.ancestor? frame distance = some holder → before.local? holder name = some value →
      later.readAt frame distance name = .ok (lastAssigned holder name value between)

section Captured

variable {program : Program} (accepted : Accepted program) (state : State)

include accepted

theorem binds_once (steps : Nat) : BindsOnce (program.load state) steps where
  globals := (anchored_run program state steps).globals
  frames := perform_history program state steps
  orderly := history_orderly accepted state steps
  once _ name inner := history_count accepted state steps inner name

/-- From one point of a run to any later one, what was captured is kept. This puts together that
functions never change and that the writes in between are orderly. -/
theorem keeps_captured (earlier more : Nat) :
    KeepsCaptured ((program.load state).run earlier).state.heap
      ((program.load state).run (earlier + more)).state.heap
      (((program.load state).run earlier).history more) := by
  have keeps := reached_keeps accepted state (Nat.le_add_right earlier more)
  simp only [Tagged.store, reached_machine] at keeps
  have frames := perform_between program state earlier more
  have orderly := between_orderly accepted state earlier more
  have ways {frame holder : FrameRef} {distance : Nat}
      (reached : ((program.load state).run earlier).state.heap.ancestor? frame distance =
        some holder) :
      ((program.load state).run (earlier + more)).state.heap.ancestor? frame distance =
        some holder := by
    rw [← Heap.ancestor_frames frames]
    exact Heap.ancestor_perform reached _
  have locals {frame : FrameRef} {name : String} {value : Value} (inner : frame ≠ ⟨0⟩)
      (bound : ((program.load state).run earlier).state.heap.local? frame name = some value) :
      ((program.load state).run (earlier + more)).state.heap.local? frame name =
        some (lastAssigned frame name value (((program.load state).run earlier).history more)) := by
    rw [← Heap.local_frames frames]
    exact Heap.orderly_kept orderly inner bound
  exact ⟨keeps.functions, keeps.classes, fun _ _ _ reached => ways reached,
    fun _ _ _ inner bound => locals inner bound,
    fun _ _ _ _ _ inner reached bound => Heap.read_at_held (locals inner bound) (ways reached)⟩

theorem reads_local {steps : Nat} {reached : State} {term : Expr} {stack : List Task}
    {name : String} {distance : Nat}
    (evaluates : (program.load state).run steps = ⟨reached, .evaluate term, stack⟩)
    (looked : Scope.lookedUp? term = some name)
    (reads : ∀ id target value, term ≠ .assign id target value)
    (entry : program.locals.get? term.id = some distance) :
    ∃ holder value, holder ≠ ⟨0⟩ ∧
      reached.heap.ancestor? reached.environment distance = some holder ∧
      reached.heap.local? holder name = some value := by
  have inStep := reached_in_step accepted state steps
  have same := reached_machine program state steps
  rw [evaluates] at same
  rcases shape : Machine.reached program state steps with ⟨machine, origins⟩
  rw [shape] at inStep same
  cases same
  cases inStep.runs with
  | evaluate member fits waits => exact accepted.read_inner member looked reads fits entry

end Captured

/-- Locals are bound once and never anew. Through the frame that it captured, a function or
method goes on to see the same bindings, which only assignments change; and a name that the
resolver has a distance for is read from a local that has been bound once. -/
theorem locals_bound_once {source : String} {program : Program}
    (compiles : Program.compile source = .ok program) (state : State) :
    (∀ steps, BindsOnce (program.load state) steps) ∧
    (∀ earlier more, KeepsCaptured ((program.load state).run earlier).state.heap
      ((program.load state).run (earlier + more)).state.heap
      (((program.load state).run earlier).history more)) ∧
    ∀ steps reached term stack name distance,
      (program.load state).run steps = ⟨reached, .evaluate term, stack⟩ →
      Scope.lookedUp? term = some name → (∀ id target value, term ≠ .assign id target value) →
      program.locals.get? term.id = some distance →
        ∃ holder value, holder ≠ ⟨0⟩ ∧
          reached.heap.ancestor? reached.environment distance = some holder ∧
          reached.heap.local? holder name = some value ∧
          ((program.load state).history steps).countP (Write.binds holder name) = 1 := by
  have accepted := compile_accepted compiles
  refine ⟨binds_once accepted state, keeps_captured accepted state, ?_⟩
  intro steps reached term stack name distance evaluates looked reads entry
  obtain ⟨holder, value, inner, outwards, bound⟩ :=
    reads_local accepted state evaluates looked reads entry
  have once := history_count accepted state steps inner name
  rw [evaluates, bound] at once
  exact ⟨holder, value, inner, outwards, bound, once⟩

def keeper : String :=
  "\x7b var held = nil; function keep(value) \x7b held = value; \x7d keep(1); keep(2); \x7d"

theorem locals_bound_once_keeper :
    ∃ program closure value, Program.compile keeper = .ok program ∧
      ((program.load (.fresh ⟨9, fun _ => 0⟩ .unlimited)).run 8).state.heap.function? ⟨0⟩ =
        some closure ∧ closure.frame = ⟨1⟩ ∧
      ((program.load (.fresh ⟨9, fun _ => 0⟩ .unlimited)).history 40).countP
        (Write.binds ⟨1⟩ "held") = 1 ∧
      ((program.load (.fresh ⟨9, fun _ => 0⟩ .unlimited)).run 40).state.heap.readAt
        closure.frame 0 "held" = .ok (lastAssigned ⟨1⟩ "held" value
          (((program.load (.fresh ⟨9, fun _ => 0⟩ .unlimited)).run 8).history 32)) := by
  have checked : (Program.compile keeper).toOption.bind (fun program =>
      (((program.load (.fresh ⟨9, fun _ => 0⟩ .unlimited)).run 8).state.heap.function? ⟨0⟩).bind
        fun closure =>
          (((program.load (.fresh ⟨9, fun _ => 0⟩ .unlimited)).run 8).state.heap.local? ⟨1⟩
            "held").map fun _ => closure.frame) = some ⟨1⟩ := by decide +kernel
  simp only [Option.bind_eq_some_iff, Option.map_eq_some_iff] at checked
  obtain ⟨program, compiled, closure, isClosure, value, bound, isFrame⟩ := checked
  have compiles := compiles_of_option compiled
  obtain ⟨once, keeps, -⟩ := locals_bound_once compiles (.fresh ⟨9, fun _ => 0⟩ .unlimited)
  have inner : (⟨1⟩ : FrameRef) ≠ ⟨0⟩ := by decide
  refine ⟨program, closure, value, compiles, isClosure, isFrame, ?_, ?_⟩
  · rw [(once 40).once ⟨1⟩ "held" inner, (keeps 8 32).locals ⟨1⟩ "held" value inner bound]
    rfl
  · rw [isFrame]
    exact (keeps 8 32).reads ⟨1⟩ 0 ⟨1⟩ "held" value inner rfl bound

end Machine

end Quill
