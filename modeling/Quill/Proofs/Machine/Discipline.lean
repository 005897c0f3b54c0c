import Quill.Proofs.Machine.Balance
import Quill.Proofs.Machine.Returns
import Quill.Proofs.Machine.Stopping
import Quill.Proofs.Scope.Entries

/-!
Where a `return` may occur and what it may carry. The walk over a program knows at every
statement which routine is around it. A machine knows it by its stack: the tasks above the
topmost task that leaves a call belong to the routine that was called, and those below all calls
to the top level. The two agree at every step, so a `return` always has a call to end, and what
it carries out of a constructor is `nil`.
-/

namespace Quill.Machine

set_option autoImplicit false

open Scope (Cleared ClearedBody Entry EnteredAs Routine methodRoutine)

section Flags

variable (entered : List Entry)

def Flagged (closure : Closure) : Prop :=
  ∃ entry ∈ entered, entry.decl = closure.decl ∧ entry.context.routine ≠ .topLevel ∧
    (closure.isConstructor = true ↔ entry.context.routine = .constructor)

inductive Keeping (heap : Heap) : Closure → Prop where
  | function {ref : FunctionRef} {closure : Closure} (found : heap.function? ref = some closure) :
      Keeping heap closure
  | method {ref : ClassRef} {cls : Class} {name : String} {closure : Closure}
      (found : heap.class? ref = some cls) (held : cls.methods.get? name = some closure) :
      Keeping heap closure

structure HeapFlagged (heap : Heap) : Prop where
  closures : ∀ closure, Keeping heap closure → Flagged entered closure
  constructors : ∀ ref cls method, heap.class? ref = some cls →
    cls.methods.get? cls.name = some method → method.isConstructor = true

variable {entered}

theorem flagged_function {decl : FunctionDecl} (isEntered : EnteredAs entered .function decl)
    (frame : FrameRef) : Flagged entered ⟨decl, frame, false⟩ := by
  obtain ⟨entry, member, same, routine⟩ := isEntered
  refine ⟨entry, member, same, ?_, ?_⟩ <;> rw [routine] <;> simp

theorem flagged_method {className : Token} {decl : FunctionDecl}
    (isEntered : EnteredAs entered (methodRoutine className decl.name) decl) (frame : FrameRef) :
    Flagged entered ⟨decl, frame, decl.name.lexeme == className.lexeme⟩ := by
  obtain ⟨entry, member, same, routine⟩ := isEntered
  unfold methodRoutine at routine
  refine ⟨entry, member, same, ?_, ?_⟩ <;> rw [routine]
  · split <;> simp
  · simp

variable {heap : Heap}

theorem flagged_same (flagged : HeapFlagged entered heap) {later : Heap}
    (functions : later.functions = heap.functions) (classes : later.classes = heap.classes) :
    HeapFlagged entered later := by
  constructor
  · intro closure kept
    apply flagged.closures
    cases kept with
    | @function ref closure found =>
        have same : later.function? ref = heap.function? ref := by
          rw [Heap.function?, functions, Heap.function?]
        exact .function (same ▸ found)
    | method found held =>
        rw [Heap.class?, classes] at found
        exact .method found held
  · intro ref cls method found held
    rw [Heap.class?, classes] at found
    exact flagged.constructors ref cls method found held

theorem flagged_add_function (flagged : HeapFlagged entered heap) {closure : Closure}
    (isFlagged : Flagged entered closure) : HeapFlagged entered (heap.addFunction closure) := by
  refine ⟨?_, flagged.constructors⟩
  intro other kept
  cases kept with
  | @function ref _ found =>
      simp only [Heap.function?, Heap.addFunction, Array.getElem?_push] at found
      split at found
      · cases found
        exact isFlagged
      · exact flagged.closures other (.function found)
  | method found held => exact flagged.closures other (.method found held)

/-- A new class brings methods that are flagged as the walk entered them. The one that is named like
the class is its constructor, for the walk as for the machine. -/
theorem flagged_add_class (flagged : HeapFlagged entered heap) {className : Token}
    {methods : List FunctionDecl}
    (isEntered : ∀ decl ∈ methods, EnteredAs entered (methodRoutine className decl.name) decl)
    (parent : Option ClassRef) (frame : FrameRef) :
    HeapFlagged entered (heap.addClass
      ⟨className.lexeme, parent, Heap.methodTable className.lexeme frame methods⟩) := by
  constructor
  · intro closure kept
    cases kept with
    | function found => exact flagged.closures closure (.function found)
    | method found held =>
        rw [class_add_class] at found
        split at found
        · cases found
          obtain ⟨decl, member, -, rfl⟩ := method_table_made held
          exact flagged_method (isEntered decl member) frame
        · exact flagged.closures closure (.method found held)
  · intro ref cls method found held
    rw [class_add_class] at found
    split at found
    · cases found
      obtain ⟨decl, -, named, rfl⟩ := method_table_made held
      exact beq_iff_eq.2 named
    · exact flagged.constructors ref cls method found held

theorem flagged_bound (flagged : HeapFlagged entered heap) {name : String} {budget : Nat}
    {ref : ClassRef} {method : Closure} (found : heap.methodWithin name budget ref = some method)
    (receiver : InstanceRef) : HeapFlagged entered (heap.addBound method receiver) := by
  obtain ⟨owner, cls, -, isClass, held⟩ := Heap.finds_belongs (Heap.method_finds found)
  -- Only the declaration and the flag of a closure count, and binding changes neither.
  have isFlagged : Flagged entered (heap.boundMethod method) :=
    flagged.closures method (.method isClass held)
  have framed : HeapFlagged entered (heap.addFrame (Heap.receiverFrame method receiver)) :=
    flagged_same flagged rfl rfl
  exact flagged_add_function framed isFlagged

/-- The function that a call enters is flagged, and for a class it is a constructor. -/
theorem flagged_entered (flagged : HeapFlagged entered heap) {callee : Value} {closure : Closure}
    (enters : entered? heap callee = some closure) :
    Flagged entered closure ∧ ∀ ref, callee = .classRef ref → closure.isConstructor = true := by
  cases callee with
  | functionRef ref =>
      refine ⟨flagged.closures closure (.function enters), ?_⟩
      intro other same
      cases same
  | classRef ref =>
      obtain ⟨method, found, rfl⟩ := Option.map_eq_some_iff.1 enters
      obtain ⟨owner, cls, -, isClass, held⟩ := Heap.constructor_belongs found
      have isFlagged : Flagged entered (heap.boundMethod method) :=
        flagged.closures method (.method isClass held)
      exact ⟨isFlagged, fun _ _ => flagged.constructors owner cls method isClass held⟩
  | _ => cases enters

end Flags

section Stack

variable (entered : List Entry)

def Task.Clear (routine : Routine) : Task → Prop
  | branch thenBranch elseBranch =>
      Cleared entered routine thenBranch ∧ ∀ stmt ∈ elseBranch, Cleared entered routine stmt
  | loopTest _ body | loopBody _ body => Cleared entered routine body
  | block remaining _ => ClearedBody entered routine remaining
  | program remaining => routine = .topLevel ∧ ClearedBody entered routine remaining
  | classBase name _ methods =>
      ∀ decl ∈ methods, EnteredAs entered (methodRoutine name decl.name) decl
  | giveBack => routine ≠ .topLevel ∧ routine ≠ .constructor
  | leaveCall _ => False
  | _ => True

/-- `Within entered routine stack`: the work above the stack is that of a routine of this kind.
The task that leaves a call divides the tasks of the routine from those of its caller, and the
call hands back what the routine returns unless the routine is a constructor. -/
inductive Within : Routine → List Task → Prop where
  | nothing : Within .topLevel []
  | task {routine : Routine} {task : Task} {stack : List Task} (clear : task.Clear entered routine)
      (rest : Within routine stack) : Within routine (task :: stack)
  | call {routine caller : Routine} {completion : Completion} {stack : List Task}
      (inside : routine ≠ .topLevel)
      (constructs : completion ≠ .ordinary ↔ routine = .constructor)
      (rest : Within caller stack) : Within routine (.leaveCall completion :: stack)

def Control.Clear (routine : Routine) : Control → Prop
  | execute stmt => Cleared entered routine stmt
  | returning value => routine ≠ .topLevel ∧ (routine = .constructor → value = .nil)
  | _ => True

def Obeys (machine : Machine) : Prop :=
  ∃ routine, Within entered routine machine.stack ∧ machine.control.Clear entered routine

variable {entered} {routine : Routine} {stack : List Task}

theorem within_leaves (within : Within entered routine stack) (inside : routine ≠ .topLevel) :
    ∃ completion, .leaveCall completion ∈ stack := by
  induction within with
  | nothing => exact absurd rfl inside
  | task clear rest induction =>
      obtain ⟨completion, member⟩ := induction inside
      exact ⟨completion, List.mem_cons_of_mem _ member⟩
  | call inside constructs rest => exact ⟨_, List.mem_cons_self⟩

theorem within_program {remaining : List Stmt}
    (within : Within entered routine (.program remaining :: stack)) : routine = .topLevel := by
  cases within with
  | task clear rest => exact clear.1

theorem within_call {completion : Completion}
    (within : Within entered routine (.leaveCall completion :: stack)) :
    completion ≠ .ordinary ↔ routine = .constructor := by
  cases within with
  | task clear rest => exact clear.elim
  | call inside constructs rest => exact constructs

section Steps

variable (state : State) (within : Within entered routine stack)

include within

theorem deliver_read_obeys (line : Nat) (result : Except Heap.AccessFault Value) :
    Obeys entered (deliverRead state line result stack) := by
  cases result <;> exact ⟨routine, within, trivial⟩

theorem evaluate_obeys (term : Expr) : Obeys entered (evaluate state term stack) := by
  cases term with
  | literal id value => exact ⟨routine, within, trivial⟩
  | grouping id inner => exact ⟨routine, within, trivial⟩
  | variableRef id name => exact deliver_read_obeys state within _ _
  | thisRef id keyword => exact deliver_read_obeys state within _ _
  | baseRef id keyword name =>
      have outcome := evaluate_base_outcome state id keyword name stack
      simp only [evaluate]
      generalize evaluateBase state id keyword name stack = machine at outcome ⊢
      cases outcome <;> exact ⟨routine, within, trivial⟩
  | _ => exact ⟨routine, .task trivial within, trivial⟩

theorem define_class_obeys (name : Token) (parent : Option ClassRef) (methods : List FunctionDecl) :
    Obeys entered (defineClass state name parent methods stack) := by
  cases parent <;> exact ⟨routine, within, trivial⟩

theorem execute_obeys {clause : Stmt} (cleared : Cleared entered routine clause) :
    Obeys entered (execute state clause stack) := by
  cases clause with
  | expression expr => exact ⟨routine, within, trivial⟩
  | varDecl name initializer =>
      cases initializer with
      | none => exact ⟨routine, within, trivial⟩
      | some initializer => exact ⟨routine, .task trivial within, trivial⟩
  | functionDecl decl => exact ⟨routine, within, trivial⟩
  | classDecl name base methods =>
      cases base with
      | none => exact define_class_obeys state within name none methods
      | some base => exact ⟨routine, .task (Scope.cleared_class cleared) within, trivial⟩
  | block body => exact ⟨routine, .task (Scope.cleared_block cleared) within, trivial⟩
  | ifThen condition thenBranch =>
      have clear : (Task.branch thenBranch none).Clear entered routine :=
        ⟨Scope.cleared_then cleared, by simp⟩
      exact ⟨routine, .task clear within, trivial⟩
  | ifElse condition thenBranch elseBranch =>
      obtain ⟨first, second⟩ := Scope.cleared_else cleared
      have clear : (Task.branch thenBranch (some elseBranch)).Clear entered routine :=
        ⟨first, by simpa using second⟩
      exact ⟨routine, .task clear within, trivial⟩
  | whileLoop condition body =>
      have clear : (Task.loopTest condition body).Clear entered routine := Scope.cleared_loop cleared
      exact ⟨routine, .task clear within, trivial⟩
  | returnStmt keyword value =>
      obtain ⟨inside, plain⟩ := Scope.cleared_return cleared
      cases value with
      | none => exact ⟨routine, within, inside, fun _ => rfl⟩
      | some value =>
          have clear : Task.giveBack.Clear entered routine := ⟨inside, plain rfl⟩
          exact ⟨routine, .task clear within, trivial⟩

variable (checked : ∀ entry ∈ entered, entry.Checked entered)

include checked

theorem enter_call_obeys {closure : Closure} (flagged : Flagged entered closure)
    {completion : Completion} (constructs : completion ≠ .ordinary ↔ closure.isConstructor = true)
    (given : List Value) : Obeys entered (enterCall state closure given completion stack) := by
  obtain ⟨entry, member, same, inside, flag⟩ := flagged
  have clear : (Task.block closure.decl.body state.environment).Clear entered
      entry.context.routine := same ▸ Scope.checked_body (checked entry member)
  exact ⟨_, .task clear (.call inside (constructs.trans flag) within), trivial⟩

variable {state} (flagged : HeapFlagged entered state.heap)

include flagged

/-- A call is over at once, or it enters a routine of the kind that the flag of the function tells.
Only constructors are entered with a completion of their own. -/
theorem call_value_obeys (callee : Value) (given : List Value) (line : Nat) :
    Obeys entered (callValue state callee given line stack) := by
  rcases call_value_enters state callee given line stack with
    ⟨ended, outcome⟩ | ⟨closure, base, completion, enters, handed, same⟩
  · refine ⟨routine, ?_, ?_⟩
    · rw [ended]
      exact within
    · rcases outcome with ⟨value, isDone⟩ | ⟨fault, failed⟩
      · rw [isDone]
        trivial
      · rw [failed]
        trivial
  · obtain ⟨isFlagged, ofClass⟩ := flagged_entered flagged enters
    have constructs : completion ≠ .ordinary ↔ closure.isConstructor = true := by
      rw [handed]
      constructor
      · rintro (isConstructor | ⟨ref, isClass⟩)
        · exact isConstructor
        · exact ofClass ref isClass
      · exact .inl
    rw [same]
    exact enter_call_obeys base within checked isFlagged constructs given

omit within in
/-- What goes on in the place of a task is of the routine that the task belongs to. A task that
leaves a call goes on in the caller. -/
theorem resume_obeys {task : Task} (within : Within entered routine (task :: stack))
    (value : Value) : Obeys entered (resume state value task stack) := by
  cases within with
  | call inside constructs rest => exact ⟨_, rest, trivial⟩
  | task clear rest =>
      have outcome := resume_outcome state stack value task
      generalize resume state value task stack = machine at outcome ⊢
      cases outcome with
      | bareCall => exact call_value_obeys rest checked flagged _ _ _
      | lastCall => exact call_value_obeys rest checked flagged _ _ _
      | left | firstArgument | nextArgument | setObject =>
          exact ⟨routine, .task trivial rest, trivial⟩
      | derived => exact define_class_obeys state rest _ _ _
      | taken => exact ⟨routine, rest, clear.1⟩
      | otherwise => exact ⟨routine, rest, clear.2 _ rfl⟩
      | turn => exact ⟨routine, .task clear rest, clear⟩
      | again => exact ⟨routine, .task clear rest, trivial⟩
      | returned => exact ⟨routine, rest, clear.1, fun constructs => absurd constructs clear.2⟩
      | blockNext =>
          obtain ⟨here, behind⟩ := Scope.cleared_head clear
          exact ⟨routine, .task behind rest, here⟩
      | callEnds => exact clear.elim
      | programNext =>
          obtain ⟨here, behind⟩ := Scope.cleared_head clear.2
          exact ⟨routine, .task ⟨clear.1, behind⟩ rest, here⟩
      | _ => exact ⟨routine, rest, trivial⟩

end Steps

/-- A `return` passes the tasks of its routine and ends at the call, before the caller's. -/
theorem unwind_obeys {task : Task} (within : Within entered routine (task :: stack)) {value : Value}
    (clear : (Control.returning value).Clear entered routine) (state : State) :
    Obeys entered (unwindReturn state value task stack) := by
  cases within with
  | call inside constructs rest => exact ⟨_, rest, trivial⟩
  | task isClear rest =>
      cases task with
      | leaveCall completion => exact isClear.elim
      | program remaining => exact absurd isClear.1 clear.1
      | _ => exact ⟨routine, rest, clear⟩

theorem release_obeys {task : Task} (within : Within entered routine (task :: stack))
    (state : State) (fault : Located Fault) : Obeys entered ⟨state, .failing fault, stack⟩ := by
  cases within with
  | call inside constructs rest => exact ⟨_, rest, trivial⟩
  | task clear rest => exact ⟨routine, rest, trivial⟩

end Stack

/-- The discipline: flags and stack tell the routines as the walk has entered them. -/
structure Disciplined (entered : List Entry) (machine : Machine) : Prop where
  flagged : HeapFlagged entered machine.state.heap
  obeys : Obeys entered machine

section Runs

variable {entered : List Entry} {machine : Machine}

theorem obeys_next (checked : ∀ entry ∈ entered, entry.Checked entered)
    (disciplined : Disciplined entered machine) : Obeys entered machine.next := by
  rcases machine with ⟨state, control, stack⟩
  obtain ⟨routine, within, clear⟩ := disciplined.obeys
  cases control with
  | evaluate term => exact evaluate_obeys state within term
  | execute clause => exact execute_obeys state within clear
  | done value =>
      cases stack with
      | nil => exact ⟨routine, within, clear⟩
      | cons task stack => exact resume_obeys checked disciplined.flagged within value
  | returning value =>
      cases stack with
      | nil => exact ⟨routine, within, clear⟩
      | cons task stack => exact unwind_obeys within clear state
  | failing fault =>
      cases stack with
      | nil => exact ⟨routine, within, clear⟩
      | cons task stack => exact release_obeys within _ fault

/-- New closures come from declarations that have passed the walk, or from other closures. -/
theorem effect_flagged {origins : List Origin} {later : Store}
    (effect : Effect ⟨machine, origins⟩ later) (disciplined : Disciplined entered machine) :
    HeapFlagged entered later.heap := by
  have flagged := disciplined.flagged
  obtain ⟨routine, within, clear⟩ := disciplined.obeys
  cases effect with
  | @function state decl stack origins =>
      have isFlagged := flagged_function (Scope.cleared_function clear) state.environment
      exact flagged_same (flagged_add_function flagged isFlagged) rfl rfl
  | @plainClass state name methods stack origins =>
      have added := flagged_add_class flagged (Scope.cleared_class clear) none state.environment
      exact flagged_same added rfl rfl
  | @derivedClass state name base methods parent stack origins =>
      have isEntered : ∀ decl ∈ methods, EnteredAs entered (methodRoutine name decl.name) decl := by
        cases within with
        | task isClear rest => exact isClear
      have added := flagged_add_class flagged isEntered (some parent) state.heap.nextFrame
      exact flagged_same added rfl rfl
  | property found =>
      obtain ⟨object, -, search⟩ := Heap.property_method found
      exact flagged_bound flagged search _
  | base operands found => exact flagged_bound flagged found _
  | _ => exact flagged_same flagged rfl rfl

theorem disciplined_next (checked : ∀ entry ∈ entered, entry.Checked entered)
    (disciplined : Disciplined entered machine) : Disciplined entered machine.next :=
  ⟨effect_flagged (next_effect ⟨machine, []⟩) disciplined, obeys_next checked disciplined⟩

/-- A program that resolves is disciplined throughout every run. Nothing is asked of the interpreter
that it starts on, since a program starts with a heap of its own. -/
theorem run_disciplined {program : Program}
    (resolved : Scope.resolve program.statements = .ok program.locals) (state : State) (time : Nat) :
    Disciplined (Scope.entries program.statements) ((program.load state).run time) := by
  obtain ⟨cleared, checked⟩ := Scope.resolve_cleared resolved
  induction time with
  | zero =>
      refine ⟨⟨?_, ?_⟩, .topLevel, .task ⟨rfl, cleared⟩ .nothing, trivial⟩
      · intro closure kept
        cases kept with
        | function found => exact nomatch found
        | method found held => exact nomatch found
      · intro ref cls method found
        exact nomatch found
  | succ time induction =>
      rw [run_succ]
      exact disciplined_next checked induction

end Runs

end Quill.Machine
