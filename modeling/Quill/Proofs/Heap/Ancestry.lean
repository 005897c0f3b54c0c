import Quill.Heap.Object

/-!
Classes and their ancestors. Where every class is younger than its base class, a search for a
method goes from a class towards its oldest ancestor and ends at the first class that has it;
and the way it goes is the same however many classes are made later.
-/

namespace Quill

set_option autoImplicit false

namespace Heap

/-- `Finds heap name ref method`: from the class towards its ancestors, this is the first
method of the name. -/
inductive Finds (heap : Heap) (name : String) : ClassRef → Closure → Prop where
  | own {ref : ClassRef} {cls : Class} {method : Closure} (found : heap.class? ref = some cls)
      (held : cls.methods.get? name = some method) : Finds heap name ref method
  | inherited {ref parent : ClassRef} {cls : Class} {method : Closure}
      (found : heap.class? ref = some cls) (absent : cls.methods.get? name = none)
      (isParent : cls.parent = some parent) (further : Finds heap name parent method) :
      Finds heap name ref method

/-- `Descends heap ref ancestor`: the class is the ancestor, or derived from it directly or
through others. -/
inductive Descends (heap : Heap) : ClassRef → ClassRef → Prop where
  | self (ref : ClassRef) : Descends heap ref ref
  | derived {ref parent ancestor : ClassRef} {cls : Class} (found : heap.class? ref = some cls)
      (isParent : cls.parent = some parent) (rest : Descends heap parent ancestor) :
      Descends heap ref ancestor

theorem Descends.trans {heap : Heap} {ref middle ancestor : ClassRef}
    (first : Descends heap ref middle) (second : Descends heap middle ancestor) :
    Descends heap ref ancestor := by
  induction first with
  | self => exact second
  | derived found isParent rest induction => exact .derived found isParent (induction second)

def Belongs (heap : Heap) (owner : ClassRef) (method : Closure) : Prop :=
  ∃ cls, heap.class? owner = some cls ∧ cls.methods.get? method.name = some method

/-- Base classes are older than the classes derived from them. So a search as long as there are
classes comes to the end of every line of ancestors. -/
def Ancestral (heap : Heap) : Prop :=
  ∀ ref cls parent, heap.class? ref = some cls → cls.parent = some parent →
    parent.index < ref.index

theorem class_lt {heap : Heap} {ref : ClassRef} {cls : Class} (found : heap.class? ref = some cls) :
    ref.index < heap.classes.size :=
  (Array.getElem?_eq_some_iff.1 found).1

theorem class_of_lt {heap : Heap} {ref : ClassRef} (bound : ref.index < heap.classes.size) :
    ∃ cls, heap.class? ref = some cls :=
  ⟨_, Array.getElem?_eq_getElem bound⟩

/-- What a search comes to is found, whatever its number of steps. Only the converse has to know
that the steps last. -/
theorem method_finds {heap : Heap} {name : String} {method : Closure} {budget : Nat} {ref : ClassRef}
    (search : heap.methodWithin name budget ref = some method) : Finds heap name ref method := by
  induction budget generalizing ref with
  | zero => cases search
  | succ budget induction =>
      simp only [methodWithin, Option.bind_eq_bind, Option.bind_eq_some_iff] at search
      rcases search with ⟨cls, found, search⟩
      split at search
      next own held =>
        cases search
        exact .own found held
      next absent =>
        obtain ⟨parent, isParent, further⟩ := Option.bind_eq_some_iff.1 search
        exact .inherited found absent isParent (induction further)

theorem finds_method {heap : Heap} (ancestral : heap.Ancestral) {name : String} {ref : ClassRef}
    {method : Closure} (finds : Finds heap name ref method) {budget : Nat}
    (enough : ref.index < budget) : heap.methodWithin name budget ref = some method := by
  induction finds generalizing budget with
  | own found held =>
      cases budget with
      | zero => omega
      | succ budget => simp [methodWithin, found, held]
  | inherited found absent isParent further induction =>
      cases budget with
      | zero => omega
      | succ budget =>
          have older := ancestral _ _ _ found isParent
          simp [methodWithin, found, absent, isParent, induction (by omega : _ < budget)]

theorem finds_known {heap : Heap} {name : String} {ref : ClassRef} {method : Closure}
    (finds : Finds heap name ref method) : ref.index < heap.classes.size := by
  cases finds with
  | own found held => exact class_lt found
  | inherited found absent isParent further => exact class_lt found

/-- The search with as many steps as there are classes misses nothing, so it can be told without a
number of steps. -/
theorem method_iff_finds {heap : Heap} (ancestral : heap.Ancestral) {ref : ClassRef} {name : String}
    {method : Closure} : heap.method? ref name = some method ↔ Finds heap name ref method :=
  ⟨method_finds, fun finds => finds_method ancestral finds (finds_known finds)⟩

theorem finds_belongs {heap : Heap} {name : String} {ref : ClassRef} {method : Closure}
    (finds : Finds heap name ref method) :
    ∃ owner cls, Descends heap ref owner ∧ heap.class? owner = some cls ∧
      cls.methods.get? name = some method := by
  induction finds with
  | own found held => exact ⟨_, _, .self _, found, held⟩
  | inherited found absent isParent further induction =>
      rcases induction with ⟨owner, cls, descends, facts⟩
      exact ⟨owner, cls, .derived found isParent descends, facts⟩

theorem constructor_belongs {heap : Heap} {budget : Nat} {ref : ClassRef} {method : Closure}
    (search : heap.constructorWithin budget ref = some method) :
    ∃ owner cls, Descends heap ref owner ∧ heap.class? owner = some cls ∧
      cls.methods.get? cls.name = some method := by
  induction budget generalizing ref with
  | zero => cases search
  | succ budget induction =>
      simp only [constructorWithin, Option.bind_eq_bind, Option.bind_eq_some_iff] at search
      rcases search with ⟨cls, found, search⟩
      split at search
      next own held =>
        cases search
        exact ⟨ref, cls, .self ref, found, held⟩
      next =>
        obtain ⟨parent, isParent, further⟩ := Option.bind_eq_some_iff.1 search
        obtain ⟨owner, other, descends, facts⟩ := induction further
        exact ⟨owner, other, .derived found isParent descends, facts⟩

theorem property_field {heap : Heap} {ref : InstanceRef} {name : String} {value : Value}
    (found : heap.property? ref name = some (.field value)) : heap.field? ref name = some value := by
  unfold property? at found
  split at found
  next held =>
    cases found
    exact held
  next => simp [Option.bind_eq_some_iff] at found

theorem property_method {heap : Heap} {ref : InstanceRef} {name : String} {method : Closure}
    (found : heap.property? ref name = some (.method method)) :
    ∃ object, heap.instance? ref = some object ∧ heap.method? object.cls name = some method := by
  unfold property? at found
  split at found
  · cases found
  · simp only [Option.bind_eq_bind, Option.bind_eq_some_iff, Option.some.injEq,
      Property.method.injEq] at found
    rcases found with ⟨object, isObject, method, search, rfl⟩
    exact ⟨object, isObject, search⟩

/-- Classes are added and never changed. -/
def ClassesKept (heap later : Heap) : Prop :=
  ∀ ref cls, heap.class? ref = some cls → later.class? ref = some cls

theorem finds_later {heap later : Heap} (kept : ClassesKept heap later) {name : String}
    {ref : ClassRef} {method : Closure} (finds : Finds heap name ref method) :
    Finds later name ref method := by
  induction finds with
  | own found held => exact .own (kept _ _ found) held
  | inherited found absent isParent further induction =>
      exact .inherited (kept _ _ found) absent isParent induction

theorem descends_later {heap later : Heap} (kept : ClassesKept heap later) {ref ancestor : ClassRef}
    (descends : Descends heap ref ancestor) : Descends later ref ancestor := by
  induction descends with
  | self => exact .self _
  | derived found isParent rest induction => exact .derived (kept _ _ found) isParent induction

/-- Where a search starts from a class that existed before, later classes play no part: none of them
is an ancestor of an older one. -/
theorem finds_earlier {heap later : Heap} (kept : ClassesKept heap later)
    (ancestral : heap.Ancestral) {name : String} {ref : ClassRef} {method : Closure}
    (known : ref.index < heap.classes.size) (finds : Finds later name ref method) :
    Finds heap name ref method := by
  induction finds with
  | own found held =>
      obtain ⟨cls, isClass⟩ := class_of_lt known
      cases found.symm.trans (kept _ _ isClass)
      exact .own isClass held
  | inherited found absent isParent further induction =>
      obtain ⟨cls, isClass⟩ := class_of_lt known
      cases found.symm.trans (kept _ _ isClass)
      have older := ancestral _ _ _ isClass isParent
      exact .inherited isClass absent isParent (induction (Nat.lt_trans older known))

end Heap

end Quill
