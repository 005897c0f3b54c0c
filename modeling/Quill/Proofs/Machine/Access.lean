import Quill.Proofs.Heap.Chains
import Quill.Proofs.Machine.Known

/-!
Access at a distance and access by search. Where no frame is its own ancestor, an access at the
distance of the nearest frame that holds a name does what a search for the name does: it reads
the binding of that frame, or replaces what that one binding holds and nothing else. An access
that fails changes nothing, for a machine that cannot assign goes on from the state it is in.
-/

namespace Quill

set_option autoImplicit false

namespace Heap

variable {heap : Heap} {frame holder : FrameRef} {name : String} {distance : Nat}

/-- `Overwrites heap later holder name value`: the heaps differ in the one binding that holds the
value in the later. This is the frame condition of a write: all other names of all frames read as
before. -/
structure Overwrites (heap later : Heap) (holder : FrameRef) (name : String) (value : Value) :
    Prop where
  written : later.local? holder name = some value
  others : ∀ ref other, ref ≠ holder ∨ other ≠ name → later.local? ref other = heap.local? ref other
  parents : ∀ ref, later.parent? ref = heap.parent? ref
  count : later.frames.size = heap.frames.size
  rest : later = { heap with frames := later.frames }

theorem parent_define (heap : Heap) (holder ref : FrameRef) (name : String) (value : Value) :
    (heap.define holder name value).parent? ref = heap.parent? ref := by
  rw [parent?, Machine.frame_define, parent?]
  cases heap.frame? ref with
  | none => rfl
  | some content =>
      rw [Option.map_some, Option.bind_some, Option.bind_some]
      split <;> rfl

theorem define_overwrites (holds : (heap.local? holder name).isSome = true) (value : Value) :
    heap.Overwrites (heap.define holder name value) holder name value := by
  have present := local_frame holds
  refine ⟨?_, fun ref other different => ?_, fun ref => parent_define heap holder ref name value,
    Machine.define_size heap holder name value, rfl⟩
  · rw [Machine.local_define, if_pos ⟨rfl, rfl, present⟩]
  · rw [Machine.local_define, if_neg]
    rintro ⟨same, named, -⟩
    rcases different with apart | apart
    · exact apart same.symm
    · exact apart named

section Found

variable {held : Value} (isHeld : heap.local? holder name = some held)

include isHeld

theorem read_at_held (reached : heap.ancestor? frame distance = some holder) :
    heap.readAt frame distance name = .ok held := by
  rw [readAt, reached]
  dsimp only
  rw [isHeld]

theorem read_held (search : heap.holder? frame name = some holder) :
    heap.read frame name = .ok held := by
  rw [read, search, Option.bind_some, isHeld]

theorem assign_at_held (reached : heap.ancestor? frame distance = some holder) (value : Value) :
    heap.assignAt frame distance name value = .ok (heap.define holder name value) := by
  rw [assignAt, slotAt, reached]
  dsimp only
  rw [isHeld]
  rfl

omit isHeld in
theorem assign_held (search : heap.holder? frame name = some holder) (value : Value) :
    heap.assign frame name value = .ok (heap.define holder name value) := by
  rw [assign, slot, search]
  rfl

end Found

section Missing

theorem read_missing (search : heap.holder? frame name = none) :
    heap.read frame name = .error (.undefinedVariable name) := by
  rw [read, search]
  rfl

theorem assign_missing (search : heap.holder? frame name = none) (value : Value) :
    heap.assign frame name value = .error (.undefinedVariable name) := by
  rw [assign, slot, search]
  rfl

theorem access_at_missing
    (absent : ∀ other, heap.ancestor? frame distance = some other → heap.local? other name = none)
    (value : Value) : ∃ fault, heap.readAt frame distance name = .error fault ∧
      heap.assignAt frame distance name value = .error fault := by
  cases reached : heap.ancestor? frame distance with
  | none =>
      refine ⟨.noFrameAt distance, ?_, ?_⟩
      · rw [readAt, reached]
      · rw [assignAt, slotAt, reached]
        rfl
  | some other =>
      have none := absent other reached
      refine ⟨.undefinedVariable name, ?_, ?_⟩
      · rw [readAt, reached]
        dsimp only
        rw [none]
      · rw [assignAt, slotAt, reached]
        dsimp only
        rw [none]
        rfl

end Missing

end Heap

namespace Machine

def State.overwrite (state : State) (id : Nat) (name : String) (value : Value) :
    Except Heap.AccessFault Heap :=
  match state.locals.get? id with
  | some distance => state.heap.assignAt state.environment distance name value
  | none => state.heap.assign state.globals name value

theorem overwrite_slot (state : State) (id : Nat) (name : String) (value : Value) :
    state.overwrite id name value = (state.slot id name).map (state.heap.define · name value) := by
  unfold State.overwrite State.slot
  cases state.locals.get? id with
  | none => rfl
  | some distance => rfl

variable {state : State} {id : Nat} {name : Token} {value : Value} {stack : List Task}

theorem assign_fails {fault : Heap.AccessFault}
    (failed : state.overwrite id name.lexeme value = .error fault) :
    next ⟨state, .done value, .assign id name :: stack⟩ =
      ⟨state, .failing ⟨name.line, .access fault⟩, stack⟩ := by
  rw [overwrite_slot] at failed
  cases slot : state.slot id name.lexeme with
  | error other =>
      rw [slot] at failed
      cases failed
      simp only [next, resume, slot]
      rfl
  | ok holder =>
      rw [slot] at failed
      cases failed

theorem assign_succeeds {later : Heap}
    (assigned : state.overwrite id name.lexeme value = .ok later) :
    next ⟨state, .done value, .assign id name :: stack⟩ =
      ⟨{ state with heap := later }, .done value, stack⟩ := by
  rw [overwrite_slot] at assigned
  cases slot : state.slot id name.lexeme with
  | error fault =>
      rw [slot] at assigned
      cases assigned
  | ok holder =>
      rw [slot] at assigned
      cases assigned
      simp only [next, resume, slot]
      rfl

end Machine

open Machine (State Task)

/-- If the frame at a distance is the nearest that holds a name, then access at the distance is
access by search, and a write changes that one binding. If no frame outwards holds the name,
then a search finds it undefined, and access fails at every distance. An assignment that fails
leaves a machine in the state it was in, and one that succeeds changes only the heap. -/
theorem direct_access_agrees {heap : Heap} (acyclic : heap.Acyclic) (frame : FrameRef)
    (name : String) (value : Value) :
    (∀ distance holder, heap.Nearest frame name distance holder →
      (∃ held, heap.local? holder name = some held ∧
        heap.readAt frame distance name = .ok held ∧ heap.read frame name = .ok held) ∧
      ∃ later, heap.assignAt frame distance name value = .ok later ∧
        heap.assign frame name value = .ok later ∧ heap.Overwrites later holder name value) ∧
    ((∀ distance other, heap.ancestor? frame distance = some other →
        heap.local? other name = none) →
      heap.read frame name = .error (.undefinedVariable name) ∧
      heap.assign frame name value = .error (.undefinedVariable name) ∧
      ∀ distance, ∃ fault, heap.readAt frame distance name = .error fault ∧
        heap.assignAt frame distance name value = .error fault) ∧
    ∀ (state : State) (id : Nat) (token : Token) (stack : List Task),
      (∀ fault, state.overwrite id token.lexeme value = .error fault →
        Machine.next ⟨state, .done value, .assign id token :: stack⟩ =
          ⟨state, .failing ⟨token.line, .access fault⟩, stack⟩) ∧
      ∀ later, state.overwrite id token.lexeme value = .ok later →
        Machine.next ⟨state, .done value, .assign id token :: stack⟩ =
          ⟨{ state with heap := later }, .done value, stack⟩ := by
  refine ⟨fun distance holder nearest => ?_, fun absent => ?_, fun state id token stack => ?_⟩
  · obtain ⟨held, isHeld⟩ := Option.isSome_iff_exists.1 nearest.holds
    have search := Heap.nearest_holder acyclic nearest
    refine ⟨⟨held, isHeld, Heap.read_at_held isHeld nearest.reached, Heap.read_held isHeld search⟩,
      heap.define holder name value, Heap.assign_at_held isHeld nearest.reached value,
      Heap.assign_held search value, Heap.define_overwrites nearest.holds value⟩
  · have search := Heap.absent_holder absent
    refine ⟨Heap.read_missing search, Heap.assign_missing search value, fun distance => ?_⟩
    exact Heap.access_at_missing (absent distance) value
  · exact ⟨fun fault failed => Machine.assign_fails failed,
      fun later assigned => Machine.assign_succeeds assigned⟩

def shadowedHeap : Heap :=
  { Heap.empty with
    frames := #[⟨some ⟨1⟩, .empty⟩, ⟨some ⟨3⟩, Bindings.empty.insert "shadowed" (.text "middle")⟩,
      ⟨some ⟨1⟩, .empty⟩,
      ⟨none, (Bindings.empty.insert "shadowed" (.text "outermost")).insert "plain" .nil⟩] }

theorem direct_access_agrees_shadowed :
    (∃ later, shadowedHeap.assignAt ⟨0⟩ 1 "shadowed" (.text "new") = .ok later ∧
      shadowedHeap.assign ⟨0⟩ "shadowed" (.text "new") = .ok later ∧
      shadowedHeap.Overwrites later ⟨1⟩ "shadowed" (.text "new")) ∧
    shadowedHeap.assign ⟨2⟩ "absent" .nil = .error (.undefinedVariable "absent") := by
  have parents : ∀ frame outer, shadowedHeap.parent? frame = some outer →
      frame = ⟨0⟩ ∧ outer = ⟨1⟩ ∨ frame = ⟨1⟩ ∧ outer = ⟨3⟩ ∨ frame = ⟨2⟩ ∧ outer = ⟨1⟩ := by
    rintro ⟨index⟩ outer isParent
    match index with
    | 0 => exact .inl ⟨rfl, (Option.some.inj isParent).symm⟩
    | 1 => exact .inr (.inl ⟨rfl, (Option.some.inj isParent).symm⟩)
    | 2 => exact .inr (.inr ⟨rfl, (Option.some.inj isParent).symm⟩)
    | 3 => cases isParent
    | _ + 4 => cases isParent
  have acyclic : shadowedHeap.Acyclic := by
    refine Heap.acyclic_of_rank (fun frame => if frame.index = 1 then 1 else
      if frame.index = 3 then 0 else 2) fun frame outer isParent => ?_
    rcases parents frame outer isParent with ⟨rfl, rfl⟩ | ⟨rfl, rfl⟩ | ⟨rfl, rfl⟩ <;> decide
  have nearest : shadowedHeap.Nearest ⟨0⟩ "shadowed" 1 ⟨1⟩ := by
    refine ⟨rfl, rfl, fun less other isLess reached => ?_⟩
    cases Nat.lt_one_iff.1 isLess
    cases reached
    rfl
  have absent : ∀ distance other, shadowedHeap.ancestor? ⟨2⟩ distance = some other →
      shadowedHeap.local? other "absent" = none := by
    intro distance other reached
    match distance with
    | 0 | 1 | 2 =>
        cases reached
        rfl
    | _ + 3 => cases reached
  obtain ⟨found, -, -⟩ := direct_access_agrees acyclic ⟨0⟩ "shadowed" (.text "new")
  obtain ⟨-, missing, -⟩ := direct_access_agrees acyclic ⟨2⟩ "absent" .nil
  exact ⟨(found 1 ⟨1⟩ nearest).2, (missing absent).2.1⟩

end Quill
