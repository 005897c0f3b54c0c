import Mathlib.Data.Fintype.Card
import Quill.Heap.Environment
import Quill.Heap.Object

/-!
Ways outwards: from a frame to the one around it, and from a class to its base class. Where no
frame is its own ancestor, a way cannot be longer than there are frames, so a search that is
bounded by their number misses nothing. Where what lies outwards is older, every way ends.
-/

namespace Quill

set_option autoImplicit false

section Chains

variable {Ref : Type} {next : Ref → Option Ref}

/-- `Chain next ref path`: the path is all that `next` leads to from the reference on, one after
the other, up to what has no next. -/
inductive Chain (next : Ref → Option Ref) : Ref → List Ref → Prop where
  | last {ref : Ref} (ended : next ref = none) : Chain next ref [ref]
  | link {ref other : Ref} {path : List Ref} (onward : next ref = some other)
      (further : Chain next other path) : Chain next ref (ref :: path)

theorem chain_unique {ref : Ref} {path other : List Ref} (chain : Chain next ref path)
    (otherwise : Chain next ref other) : path = other := by
  induction chain generalizing other with
  | last ended =>
      cases otherwise with
      | last => rfl
      | link onward further =>
          rw [ended] at onward
          cases onward
  | link onward further induction =>
      cases otherwise with
      | last ended =>
          rw [ended] at onward
          cases onward
      | link again behind =>
          rw [onward] at again
          cases again
          rw [induction behind]

theorem chain_suffix {ref other : Ref} {path : List Ref} (chain : Chain next ref path)
    (member : other ∈ path) : ∃ tail, Chain next other tail ∧ tail <:+ path := by
  induction chain with
  | last ended =>
      rw [List.mem_singleton.1 member]
      exact ⟨_, .last ended, List.suffix_refl _⟩
  | link onward further induction =>
      rcases List.mem_cons.1 member with rfl | behind
      · exact ⟨_, .link onward further, List.suffix_refl _⟩
      · obtain ⟨tail, rest, inside⟩ := induction behind
        exact ⟨tail, rest, inside.trans (List.suffix_cons _ _)⟩

theorem chain_nodup {ref : Ref} {path : List Ref} (chain : Chain next ref path) : path.Nodup := by
  induction chain with
  | last ended => exact List.nodup_singleton _
  | @link ref other path onward further induction =>
      refine List.nodup_cons.2 ⟨fun member => ?_, induction⟩
      obtain ⟨tail, again, inside⟩ := chain_suffix further member
      have whole := chain_unique again (.link onward further)
      have shorter := inside.length_le
      rw [whole, List.length_cons] at shorter
      exact Nat.not_succ_le_self _ shorter

/-- If what lies outwards has a smaller rank, then every way ends. -/
theorem chain_exists {Sound : Ref → Prop} (rank : Ref → Nat)
    (smaller : ∀ ref other, Sound ref → next ref = some other → Sound other ∧ rank other < rank ref)
    {ref : Ref} (sound : Sound ref) :
    ∃ path, Chain next ref path ∧ ∀ other ∈ path, Sound other := by
  induction size : rank ref using Nat.strong_induction_on generalizing ref with
  | _ size induction =>
  cases onward : next ref with
  | none =>
      refine ⟨[ref], .last onward, fun other member => ?_⟩
      rw [List.mem_singleton.1 member]
      exact sound
  | some outer =>
      obtain ⟨outerSound, less⟩ := smaller ref outer sound onward
      obtain ⟨path, chain, all⟩ := induction _ (size ▸ less) outerSound rfl
      refine ⟨ref :: path, .link onward chain, fun other member => ?_⟩
      rcases List.mem_cons.1 member with rfl | behind
      · exact sound
      · exact all other behind

theorem chain_ends {ref : Ref} {path : List Ref} (chain : Chain next ref path) :
    ∃ final, path.getLast? = some final ∧ final ∈ path ∧ next final = none := by
  induction chain with
  | last ended => exact ⟨_, rfl, List.mem_singleton_self _, ended⟩
  | link onward further induction =>
      obtain ⟨final, isLast, member, ended⟩ := induction
      refine ⟨final, ?_, List.mem_cons_of_mem _ member, ended⟩
      rw [List.getLast?_cons, isLast]
      rfl

/-- A search that looks at what is at hand and else goes on outwards, if its budget lasts for
the way, finds the first thing on the way. -/
theorem chain_search {Found : Type} {own : Ref → Option Found} {search : Nat → Ref → Option Found}
    (turn : ∀ budget ref, search (budget + 1) ref = (own ref).or ((next ref).bind (search budget)))
    {ref : Ref} {path : List Ref} (chain : Chain next ref path) {budget : Nat}
    (enough : path.length ≤ budget) : search budget ref = path.findSome? own := by
  induction chain generalizing budget with
  | @last ref ended =>
      obtain ⟨fewer, rfl⟩ := Nat.exists_eq_add_of_le' enough
      rw [List.length_singleton, turn, ended]
      cases found : own ref <;> simp [found]
  | @link ref other path onward further induction =>
      obtain ⟨fewer, rfl⟩ := Nat.exists_eq_add_of_le' enough
      have rest := induction (Nat.le_add_left path.length fewer)
      rw [List.length_cons, ← Nat.add_assoc, turn, onward, Option.bind_some, rest]
      cases found : own ref <;> simp [found]

end Chains

namespace Heap

variable {heap : Heap} {frame holder : FrameRef} {name : String}

def Acyclic (heap : Heap) : Prop :=
  ∀ frame distance, heap.ancestor? frame (distance + 1) ≠ some frame

/-- `Nearest heap frame name distance holder`: of the frames outwards that hold the name, the one
at this distance is the first. -/
structure Nearest (heap : Heap) (frame : FrameRef) (name : String) (distance : Nat)
    (holder : FrameRef) : Prop where
  reached : heap.ancestor? frame distance = some holder
  holds : (heap.local? holder name).isSome = true
  nearer : ∀ less other, less < distance → heap.ancestor? frame less = some other →
    heap.local? other name = none

section Distances

theorem ancestor_add (heap : Heap) (frame : FrameRef) (near far : Nat) :
    heap.ancestor? frame (near + far) =
      (heap.ancestor? frame near).bind (heap.ancestor? · far) := by
  induction near generalizing frame with
  | zero => rw [Nat.zero_add, ancestor?, Option.bind_some]
  | succ near induction =>
      rw [Nat.succ_add, ancestor?, ancestor?]
      cases heap.parent? frame with
      | none => rfl
      | some outer => exact induction outer

/-- Whatever lies between a frame and one further out exists. The frame at the far end must be known
to exist, since a parent link alone says nothing about what it leads to. -/
theorem ancestor_present (near far : Nat) (present : (heap.frame? holder).isSome = true)
    (reached : heap.ancestor? frame (near + far) = some holder) :
    ∃ between, heap.ancestor? frame near = some between ∧ between.index < heap.frames.size := by
  have exists_lt {ref : FrameRef} {content : Frame} (found : heap.frame? ref = some content) :
      ref.index < heap.frames.size := (Array.getElem?_eq_some_iff.1 found).1
  rw [ancestor_add] at reached
  obtain ⟨between, isBetween, further⟩ := Option.bind_eq_some_iff.1 reached
  refine ⟨between, isBetween, ?_⟩
  cases far with
  | zero =>
      cases further
      obtain ⟨content, found⟩ := Option.isSome_iff_exists.1 present
      exact exists_lt found
  | succ far =>
      rw [ancestor?] at further
      obtain ⟨outer, isOuter, -⟩ := Option.bind_eq_some_iff.1 further
      obtain ⟨content, found, -⟩ := Option.bind_eq_some_iff.1 isOuter
      exact exists_lt found

theorem ancestor_distinct (acyclic : heap.Acyclic) {near far : Nat} (nearer : near < far)
    (reached : heap.ancestor? frame near = some holder) :
    heap.ancestor? frame far ≠ some holder := by
  obtain ⟨more, rfl⟩ := Nat.exists_eq_add_of_lt nearer
  rw [Nat.add_assoc, ancestor_add, reached, Option.bind_some]
  exact acyclic holder more

/-- No way outwards is longer than there are frames, since all frames on it are different. So the
budget of a search never cuts one off. -/
theorem ancestor_lt (acyclic : heap.Acyclic) {distance : Nat}
    (present : (heap.frame? holder).isSome = true)
    (reached : heap.ancestor? frame distance = some holder) : distance < heap.frames.size := by
  have stations (near : Fin (distance + 1)) : ∃ between,
      heap.ancestor? frame near.1 = some between ∧ between.index < heap.frames.size := by
    refine ancestor_present near.1 (distance - near.1) present ?_
    rw [Nat.add_sub_cancel' (Nat.le_of_lt_succ near.2)]
    exact reached
  choose station isStation exists_lt using stations
  -- The frames on the way are all different, and there are only so many.
  have injective : Function.Injective
      fun near => (⟨(station near).index, exists_lt near⟩ : Fin heap.frames.size) := by
    intro near far same
    have sameFrame : station near = station far := by
      rcases found : station near with ⟨index⟩
      rcases otherwise : station far with ⟨other⟩
      simpa [found, otherwise] using same
    rcases Nat.lt_trichotomy near.1 far.1 with before | equal | behind
    · exact absurd (sameFrame ▸ isStation far) (ancestor_distinct acyclic before (isStation near))
    · exact Fin.ext equal
    · exact absurd (sameFrame ▸ isStation near) (ancestor_distinct acyclic behind (isStation far))
  have fewer := Fintype.card_le_of_injective _ injective
  rw [Fintype.card_fin, Fintype.card_fin] at fewer
  exact fewer

/-- If parents have a smaller rank than their children, then no frame is its own ancestor. The rank
may be any, for instance the age of a frame. -/
theorem acyclic_of_rank (rank : FrameRef → Nat)
    (smaller : ∀ frame outer, heap.parent? frame = some outer → rank outer < rank frame) :
    heap.Acyclic := by
  have below (distance : Nat) : ∀ frame holder, heap.ancestor? frame distance = some holder →
      rank holder + distance ≤ rank frame := by
    induction distance with
    | zero =>
        intro frame holder reached
        cases reached
        exact Nat.le_refl _
    | succ distance induction =>
        intro frame holder reached
        rw [ancestor?] at reached
        obtain ⟨outer, isOuter, further⟩ := Option.bind_eq_some_iff.1 reached
        have less := smaller frame outer isOuter
        have rest := induction outer holder further
        omega
  intro frame distance reached
  have impossible := below _ _ _ reached
  omega

end Distances

section Searching

theorem local_frame (holds : (heap.local? holder name).isSome = true) :
    (heap.frame? holder).isSome = true := by
  unfold local? at holds
  cases found : heap.frame? holder with
  | none =>
      rw [found] at holds
      cases holds
  | some content => rfl

/-- A search by name comes to the nearest frame that holds the name, if it may take more steps than
the frame is far away. -/
theorem nearest_within {distance budget : Nat} (nearest : heap.Nearest frame name distance holder)
    (enough : distance < budget) : heap.holderWithin name budget frame = some holder := by
  induction distance generalizing frame budget with
  | zero =>
      obtain ⟨reached, holds, -⟩ := nearest
      cases reached
      obtain ⟨held, isHeld⟩ := Option.isSome_iff_exists.1 holds
      obtain ⟨fewer, rfl⟩ := Nat.exists_eq_add_of_le' enough
      rw [holderWithin, isHeld]
  | succ distance induction =>
      obtain ⟨reached, holds, nearer⟩ := nearest
      have own : heap.local? frame name = none := nearer 0 frame (Nat.succ_pos _) rfl
      rw [ancestor?] at reached
      obtain ⟨outer, isOuter, further⟩ := Option.bind_eq_some_iff.1 reached
      have beyond : heap.Nearest outer name distance holder := by
        refine ⟨further, holds, fun less other isLess found => ?_⟩
        refine nearer (less + 1) other (Nat.succ_lt_succ isLess) ?_
        rw [ancestor?, isOuter]
        exact found
      obtain ⟨fewer, rfl⟩ := Nat.exists_eq_add_of_le' (Nat.zero_lt_of_lt enough)
      rw [holderWithin, own, isOuter]
      exact induction beyond (Nat.lt_of_succ_lt_succ enough)

theorem nearest_holder (acyclic : heap.Acyclic) {distance : Nat}
    (nearest : heap.Nearest frame name distance holder) : heap.holder? frame name = some holder :=
  nearest_within nearest (ancestor_lt acyclic (local_frame nearest.holds) nearest.reached)

theorem within_ancestor {budget : Nat} (found : heap.holderWithin name budget frame = some holder) :
    ∃ distance, heap.ancestor? frame distance = some holder ∧
      (heap.local? holder name).isSome = true := by
  induction budget generalizing frame with
  | zero => cases found
  | succ budget induction =>
      rw [holderWithin] at found
      split at found
      next held =>
        cases found
        exact ⟨0, rfl, by rw [held]; rfl⟩
      next =>
        obtain ⟨outer, isOuter, further⟩ := Option.bind_eq_some_iff.1 found
        obtain ⟨distance, reached, holds⟩ := induction further
        refine ⟨distance + 1, ?_, holds⟩
        rw [ancestor?, isOuter]
        exact reached

theorem absent_holder (absent : ∀ distance other, heap.ancestor? frame distance = some other →
    heap.local? other name = none) : heap.holder? frame name = none := by
  cases found : heap.holder? frame name with
  | none => rfl
  | some holder =>
      obtain ⟨distance, reached, holds⟩ := within_ancestor found
      rw [absent distance holder reached] at holds
      cases holds

end Searching

section Paths

variable {path : List FrameRef} (chain : Chain heap.parent? frame path)

include chain

theorem chain_ancestor (distance : Nat) : heap.ancestor? frame distance = path[distance]? := by
  induction chain generalizing distance with
  | last ended =>
      cases distance with
      | zero => rfl
      | succ distance => simp [ancestor?, ended]
  | link onward further induction =>
      cases distance with
      | zero => rfl
      | succ distance =>
          rw [ancestor?, onward, Option.bind_some, induction, List.getElem?_cons_succ]

theorem chain_holder (name : String) {budget : Nat} (enough : path.length ≤ budget) :
    heap.holderWithin name budget frame = path.find? fun ref => (heap.local? ref name).isSome := by
  rw [List.find?_eq_findSome?_guard]
  refine chain_search (fun budget ref => ?_) chain enough
  rw [holderWithin]
  cases held : heap.local? ref name <;> simp [Option.guard, held]

end Paths

section Classes

def baseClass? (heap : Heap) (ref : ClassRef) : Option ClassRef :=
  (heap.class? ref).bind (·.parent)

def ownMethod? (heap : Heap) (name : String) (ref : ClassRef) : Option Closure :=
  (heap.class? ref).bind (·.methods.get? name)

def ownConstructor? (heap : Heap) (ref : ClassRef) : Option Closure :=
  (heap.class? ref).bind fun cls => cls.methods.get? cls.name

variable {ref : ClassRef} {path : List ClassRef} (chain : Chain heap.baseClass? ref path)

include chain

theorem chain_method (name : String) {budget : Nat} (enough : path.length ≤ budget) :
    heap.methodWithin name budget ref = path.findSome? (heap.ownMethod? name) := by
  refine chain_search (fun budget ref => ?_) chain enough
  rw [methodWithin, ownMethod?, baseClass?]
  cases found : heap.class? ref with
  | none => rfl
  | some cls => cases held : cls.methods.get? name <;> simp [held]

theorem chain_constructor {budget : Nat} (enough : path.length ≤ budget) :
    heap.constructorWithin budget ref = path.findSome? heap.ownConstructor? := by
  refine chain_search (fun budget ref => ?_) chain enough
  rw [constructorWithin, ownConstructor?, baseClass?]
  cases found : heap.class? ref with
  | none => rfl
  | some cls => cases held : cls.methods.get? cls.name <;> simp [held]

end Classes

end Heap

end Quill
