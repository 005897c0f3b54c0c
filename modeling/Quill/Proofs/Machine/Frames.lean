import Quill.Machine.Step
import Quill.Proofs.Scope.Nesting

/-!
Frames and the scopes they were made for. Every frame is tagged with what made it. A frame
fits a list of scopes if, from it outwards, each frame was made by the opener of the scope
and binds all names that the scope holds; frames only gain names, so what fits once fits
ever after. This is what makes a closure safe to call long after its block has ended.
-/

namespace Quill.Machine

set_option autoImplicit false

open Scope (Opener Layer Place Pending holding holdingAll NearestAt)

/-- What made a frame. The machine itself keeps no such tags: they are kept beside it, so that the
frames can be compared with the scopes that the resolver had open. -/
inductive Origin where
  | globals
  | block (body : List Stmt)
  | call (decl : FunctionDecl)
  | receiver
  | base

def originOf : Opener → Origin
  | .block body => .block body
  | .routine _ decl => .call decl
  | .receiver _ _ => .receiver
  | .base _ => .base

/-- A heap whose frames are tagged, in the order in which they were made. -/
structure Store where
  heap : Heap
  origins : List Origin

def originsFrom (store : Store) : Nat → FrameRef → List Origin
  | 0, _ => []
  | budget + 1, ref =>
      match store.heap.parent? ref with
      | none => []
      | some outer => store.origins.getD ref.index .globals :: originsFrom store budget outer

/-- Later frames are as before, with more frames and more names. -/
structure Grows (store later : Store) : Prop where
  frames : ∀ ref frame, store.heap.frame? ref = some frame →
    ∃ grown, later.heap.frame? ref = some grown ∧ grown.parent = frame.parent ∧
      ∀ name, (frame.bindings.get? name).isSome → (grown.bindings.get? name).isSome
  origins : ∀ (index : Nat) origin, store.origins[index]? = some origin →
    later.origins[index]? = some origin

/-- `Fits store ref layers`: the frames from `ref` outwards are those of the scopes. Each was made
for its scope, binds all the names of it, and is younger than the next. -/
inductive Fits (store : Store) : FrameRef → List Layer → Prop where
  | outermost : Fits store ⟨0⟩ []
  | inside {ref outer : FrameRef} {frame : Frame} {layer : Layer} {layers : List Layer}
      (found : store.heap.frame? ref = some frame) (parent : frame.parent = some outer)
      (older : outer.index < ref.index)
      (origin : store.origins[ref.index]? = some (originOf layer.opener))
      (names : ∀ name ∈ layer.names, (frame.bindings.get? name).isSome)
      (rest : Fits store outer layers) : Fits store ref (layer :: layers)

theorem fits_grows {store later : Store} {ref : FrameRef} {layers : List Layer}
    (fits : Fits store ref layers) (grows : Grows store later) : Fits later ref layers := by
  induction fits with
  | outermost => exact .outermost
  | inside found parent older origin names rest induction =>
      obtain ⟨grown, kept, sameParent, more⟩ := grows.frames _ _ found
      apply Fits.inside kept (sameParent.trans parent) older (grows.origins _ _ origin)
      · intro name held
        exact more name (names name held)
      · exact induction

theorem fits_drop {store : Store} {ref : FrameRef} {inner outer : List Layer}
    (fits : Fits store ref (inner ++ outer)) :
    ∃ holder, store.heap.ancestor? ref inner.length = some holder ∧ Fits store holder outer := by
  induction inner generalizing ref with
  | nil => exact ⟨ref, rfl, fits⟩
  | cons first inner induction =>
      cases fits with
      | inside found parent older origin names rest =>
          obtain ⟨holder, reached, fits⟩ := induction rest
          refine ⟨holder, ?_, fits⟩
          simp only [List.length_cons, Heap.ancestor?, Heap.parent?, found, Option.bind_some, parent]
          exact reached

/-- The frame at the distance of a scope was made for it. -/
theorem fits_ancestor {store : Store} {ref : FrameRef} {inner outer : List Layer} {layer : Layer}
    (fits : Fits store ref (inner ++ layer :: outer)) :
    ∃ holder frame, store.heap.ancestor? ref inner.length = some holder ∧
      store.heap.frame? holder = some frame ∧
      store.origins[holder.index]? = some (originOf layer.opener) ∧
      ∀ name ∈ layer.names, (frame.bindings.get? name).isSome := by
  obtain ⟨holder, reached, rest⟩ := fits_drop fits
  cases rest with
  | inside found parent older origin names rest => exact ⟨holder, _, reached, found, origin, names⟩

theorem fits_reaches {store : Store} {ref : FrameRef} {layers : List Layer}
    (fits : Fits store ref layers) {distance : Nat} (bound : distance < layers.length) :
    ∃ holder, store.heap.ancestor? ref distance = some holder := by
  have parts : layers = layers.take distance ++ layers[distance] :: layers.drop (distance + 1) := by
    rw [List.getElem_cons_drop, List.take_append_drop]
  rw [parts] at fits
  obtain ⟨holder, frame, reached, -⟩ := fits_ancestor fits
  rw [List.length_take, Nat.min_eq_left (Nat.le_of_lt bound)] at reached
  exact ⟨holder, reached⟩

theorem fits_origins {store : Store} {ref : FrameRef} {layers : List Layer} {budget : Nat}
    (fits : Fits store ref layers) (outermost : store.heap.parent? ⟨0⟩ = none)
    (enough : ref.index < budget) :
    originsFrom store budget ref = layers.map fun layer => originOf layer.opener := by
  induction fits generalizing budget with
  | outermost =>
      cases budget with
      | zero => rfl
      | succ budget => simp [originsFrom, outermost]
  | @inside ref outer frame layer layers found parent older origin names rest induction =>
      cases budget with
      | zero => omega
      | succ budget =>
          have above : store.heap.parent? ref = some outer := by
            simp [Heap.parent?, found, parent]
          have tag : store.origins.getD ref.index .globals = originOf layer.opener := by
            rw [List.getD_eq_getElem?_getD, origin, Option.getD_some]
          rw [originsFrom, above, List.map_cons, tag]
          simp only
          rw [induction (by omega)]

theorem held_length (place : Place) : place.held.length = place.layers.length := by
  unfold Place.held
  cases place.pending.name? with
  | none => rfl
  | some name => cases place.layers <;> rfl

theorem nearest_lt {layers : List Layer} {name : String} {distance : Nat}
    (nearest : NearestAt layers name distance) : distance < layers.length := by
  rcases nearest with ⟨inner, layer, outer, rfl, -, -, rfl⟩
  simp

/-- A name at its distance, unless it is the one being declared: the resolver knows the name before
the frame holds it. -/
theorem fits_read {store : Store} {ref : FrameRef} {place : Place} {name : String}
    {distance : Nat} (fits : Fits store ref place.layers)
    (nearest : NearestAt place.held name distance)
    (declared : ∀ pending, place.pending.name? = some pending → pending.lexeme ≠ name) :
    ∃ holder value, store.heap.ancestor? ref distance = some holder ∧
      store.heap.local? holder name = some value := by
  obtain ⟨inner, layer, outer, around, member, -, length⟩ :=
    (Scope.nearest_held declared distance).1 nearest
  rw [around] at fits
  obtain ⟨holder, frame, reached, found, -, names⟩ := fits_ancestor fits
  obtain ⟨value, bound⟩ := Option.isSome_iff_exists.1 (names name member)
  refine ⟨holder, value, length ▸ reached, ?_⟩
  simp [Heap.local?, found, bound]

end Quill.Machine
