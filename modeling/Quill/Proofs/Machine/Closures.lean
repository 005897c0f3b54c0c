import Quill.Proofs.Heap.Ancestry
import Quill.Proofs.Machine.Frames

/-!
What is true of the heap throughout a run: every frame of a receiver holds an instance under
`this` and every frame of a base class a class under `base`, and every function and method
was declared at a position of the program, in a frame that fits its place.
-/

namespace Quill.Machine

set_option autoImplicit false

open Scope (Opener Layer Place Position positions routinePositions holding holdingAll)

namespace Store

def define (store : Store) (ref : FrameRef) (name : String) (value : Value) : Store :=
  { store with heap := store.heap.define ref name value }

def addFrame (store : Store) (frame : Frame) (origin : Origin) : Store :=
  ⟨store.heap.addFrame frame, store.origins ++ [origin]⟩

def addFunction (store : Store) (closure : Closure) : Store :=
  { store with heap := store.heap.addFunction closure }

def addClass (store : Store) (cls : Class) : Store :=
  { store with heap := store.heap.addClass cls }

end Store

theorem frame_define (heap : Heap) (ref sought : FrameRef) (name : String) (value : Value) :
    (heap.define ref name value).frame? sought = (heap.frame? sought).map fun frame =>
      if ref = sought then { frame with bindings := frame.bindings.insert name value } else frame := by
  rcases ref with ⟨index⟩
  rcases sought with ⟨place⟩
  simp only [Heap.define, Heap.frame?, Array.getElem?_modify, FrameRef.mk.injEq]
  split
  · rfl
  · simp

theorem frame_add_frame (heap : Heap) (frame : Frame) (sought : FrameRef) :
    (heap.addFrame frame).frame? sought =
      if sought = heap.nextFrame then some frame else heap.frame? sought := by
  rcases sought with ⟨index⟩
  simp [Heap.addFrame, Heap.frame?, Heap.nextFrame, Array.getElem?_push]

theorem frame_lt {heap : Heap} {ref : FrameRef} {frame : Frame} (found : heap.frame? ref = some frame) :
    ref.index < heap.frames.size :=
  (Array.getElem?_eq_some_iff.1 found).1

theorem define_grows (store : Store) (ref : FrameRef) (name : String) (value : Value) :
    Grows store (store.define ref name value) := by
  constructor
  · intro sought frame found
    refine ⟨_, (frame_define _ _ _ _ _).trans (congrArg _ found), ?_, ?_⟩
    · split <;> rfl
    · intro other bound
      split
      · rw [Bindings.get_insert]
        split
        · rfl
        · exact bound
      · exact bound
  · intro index origin found
    exact found

theorem add_frame_grows (store : Store) (frame : Frame) (origin : Origin) :
    Grows store (store.addFrame frame origin) := by
  constructor
  · intro sought old found
    refine ⟨old, ?_, rfl, fun _ bound => bound⟩
    have different : sought ≠ store.heap.nextFrame := by
      intro same
      have bound := frame_lt found
      rw [same] at bound
      exact Nat.lt_irrefl _ bound
    exact (frame_add_frame _ _ _).trans ((if_neg different).trans found)
  · intro index other found
    have bound := (List.getElem?_eq_some_iff.1 found).1
    exact (List.getElem?_append_left bound).trans found

theorem same_frames_grows {store later : Store} (frames : later.heap.frames = store.heap.frames)
    (origins : later.origins = store.origins) : Grows store later := by
  constructor
  · intro ref frame found
    refine ⟨frame, ?_, rfl, fun _ bound => bound⟩
    rw [Heap.frame?, frames]
    exact found
  · intro index origin found
    rw [origins]
    exact found

theorem fits_define {store : Store} {ref : FrameRef} {layers : List Layer}
    (fits : Fits store ref layers) (name : Token) (value : Value) :
    Fits (store.define ref name.lexeme value) ref (holding name layers) := by
  cases fits with
  | outermost => exact .outermost
  | inside found parent older origin names rest =>
      have defined := (frame_define store.heap ref ref name.lexeme value).trans (congrArg _ found)
      simp only [Option.map_some, if_true] at defined
      refine .inside defined parent older origin ?_ (fits_grows rest (define_grows _ _ _ _))
      intro sought member
      rw [Bindings.get_insert]
      split
      · rfl
      · next different => exact names sought (List.mem_of_ne_of_mem different member)

section Sound

variable (statements : List Stmt)

def ClosureSound (store : Store) (closure : Closure) : Prop :=
  ∃ className layers, routinePositions className layers closure.decl ⊆ positions statements ∧
    Fits store closure.frame layers

def MethodSound (store : Store) (closure : Closure) : Prop :=
  ∃ className derived layers,
    routinePositions (some className) (⟨.receiver className derived, ["this"]⟩ :: layers)
      closure.decl ⊆ positions statements ∧ Fits store closure.frame layers

/-- A store whose tags are true of its frames, and whose functions and methods come from the
program: they close over frames that fit the scopes around their declarations. -/
structure StoreSound (store : Store) : Prop where
  sized : store.origins.length = store.heap.frames.size
  outermost : ∃ frame, store.heap.frame? ⟨0⟩ = some frame ∧ frame.parent = none
  receivers : ∀ ref frame, store.heap.frame? ref = some frame →
    store.origins[ref.index]? = some .receiver →
      ∃ object, frame.bindings.get? "this" = some (.instanceRef object)
  bases : ∀ ref frame, store.heap.frame? ref = some frame →
    store.origins[ref.index]? = some .base →
      ∃ cls, frame.bindings.get? "base" = some (.classRef cls)
  functions : ∀ ref closure, store.heap.function? ref = some closure →
    ClosureSound statements store closure
  methods : ∀ ref cls name closure, store.heap.class? ref = some cls →
    cls.methods.get? name = some closure → MethodSound statements store closure

variable {statements}

theorem closure_grows {store later : Store} {closure : Closure}
    (sound : ClosureSound statements store closure) (grows : Grows store later) :
    ClosureSound statements later closure := by
  rcases sound with ⟨className, layers, inside, fits⟩
  exact ⟨className, layers, inside, fits_grows fits grows⟩

theorem method_grows {store later : Store} {closure : Closure}
    (sound : MethodSound statements store closure) (grows : Grows store later) :
    MethodSound statements later closure := by
  rcases sound with ⟨className, derived, layers, inside, fits⟩
  exact ⟨className, derived, layers, inside, fits_grows fits grows⟩

theorem fits_lt {store : Store} {ref : FrameRef} {layers : List Layer}
    (sound : StoreSound statements store) (fits : Fits store ref layers) :
    ref.index < store.heap.frames.size := by
  cases fits with
  | outermost =>
      rcases sound.outermost with ⟨frame, found, -⟩
      exact frame_lt found
  | inside found parent older origin names rest => exact frame_lt found

theorem fits_enter {store : Store} {outer : FrameRef} {layers : List Layer}
    {bindings : Bindings Value} (sound : StoreSound statements store)
    (fits : Fits store outer layers) (opener : Opener) {names : List String}
    (bound : ∀ name ∈ names, (bindings.get? name).isSome) :
    Fits (store.addFrame ⟨some outer, bindings⟩ (originOf opener)) store.heap.nextFrame
      (⟨opener, names⟩ :: layers) := by
  refine .inside ((frame_add_frame _ _ _).trans (if_pos rfl)) rfl (fits_lt sound fits) ?_ bound
    (fits_grows fits (add_frame_grows _ _ _))
  simp only [Store.addFrame, Heap.nextFrame, ← sound.sized]
  simp

/-- Declarations and assignments never touch `this` and `base`. -/
theorem store_sound_define {store : Store} (sound : StoreSound statements store) (ref : FrameRef)
    {name : String} (ordinary : Token.Ordinary name) (value : Value) :
    StoreSound statements (store.define ref name value) := by
  have grows := define_grows store ref name value
  constructor
  · simpa [Store.define, Heap.define] using sound.sized
  · rcases sound.outermost with ⟨frame, found, parent⟩
    obtain ⟨grown, kept, same, -⟩ := grows.frames _ _ found
    exact ⟨grown, kept, same.trans parent⟩
  · intro sought frame found tag
    obtain ⟨old, oldFound, rfl⟩ := Option.map_eq_some_iff.1 ((frame_define _ _ _ _ _).symm.trans found)
    obtain ⟨object, held⟩ := sound.receivers sought old oldFound tag
    refine ⟨object, ?_⟩
    split
    · rw [Bindings.get_insert, if_neg ordinary.1.symm, held]
    · exact held
  · intro sought frame found tag
    obtain ⟨old, oldFound, rfl⟩ := Option.map_eq_some_iff.1 ((frame_define _ _ _ _ _).symm.trans found)
    obtain ⟨cls, held⟩ := sound.bases sought old oldFound tag
    refine ⟨cls, ?_⟩
    split
    · rw [Bindings.get_insert, if_neg ordinary.2.symm, held]
    · exact held
  · intro sought closure found
    exact closure_grows (sound.functions sought closure found) grows
  · intro sought cls key closure found member
    exact method_grows (sound.methods sought cls key closure found member) grows

/-- A new frame keeps a store sound if its tag is true of it: a receiver's frame holds an instance,
and that of a base class a class. -/
theorem store_sound_add_frame {store : Store} (sound : StoreSound statements store)
    (frame : Frame) (origin : Origin)
    (receiver : origin = .receiver → ∃ object,
      frame.bindings.get? "this" = some (.instanceRef object))
    (base : origin = .base → ∃ cls, frame.bindings.get? "base" = some (.classRef cls)) :
    StoreSound statements (store.addFrame frame origin) := by
  have grows := add_frame_grows store frame origin
  -- A frame is the new one, with the new tag, or an old one, with its old tag.
  have parts : ∀ sought content tag, (store.addFrame frame origin).heap.frame? sought = some content →
      (store.addFrame frame origin).origins[sought.index]? = some tag →
        content = frame ∧ tag = origin ∨
          store.heap.frame? sought = some content ∧ store.origins[sought.index]? = some tag := by
    intro sought content tag found tagged
    rw [Store.addFrame, frame_add_frame] at found
    by_cases fresh : sought = store.heap.nextFrame
    · rw [if_pos fresh] at found
      subst fresh
      simp only [Store.addFrame, Heap.nextFrame, ← sound.sized] at tagged
      simp only [List.getElem?_concat_length, Option.some.injEq] at tagged found
      exact .inl ⟨found.symm, tagged.symm⟩
    · rw [if_neg fresh] at found
      have bound := frame_lt found
      rw [← sound.sized] at bound
      rw [Store.addFrame, List.getElem?_append_left bound] at tagged
      exact .inr ⟨found, tagged⟩
  constructor
  · simp [Store.addFrame, Heap.addFrame, sound.sized]
  · rcases sound.outermost with ⟨first, found, parent⟩
    obtain ⟨grown, kept, same, -⟩ := grows.frames _ _ found
    exact ⟨grown, kept, same.trans parent⟩
  · intro sought content found tagged
    rcases parts sought content _ found tagged with ⟨rfl, same⟩ | ⟨old, oldTag⟩
    · exact receiver same.symm
    · exact sound.receivers sought content old oldTag
  · intro sought content found tagged
    rcases parts sought content _ found tagged with ⟨rfl, same⟩ | ⟨old, oldTag⟩
    · exact base same.symm
    · exact sound.bases sought content old oldTag
  · intro ref closure found
    exact closure_grows (sound.functions ref closure found) grows
  · intro ref cls name closure found member
    exact method_grows (sound.methods ref cls name closure found member) grows

theorem store_sound_add_function {store : Store} (sound : StoreSound statements store)
    {closure : Closure} (added : ClosureSound statements store closure) :
    StoreSound statements (store.addFunction closure) := by
  have grows : Grows store (store.addFunction closure) := same_frames_grows rfl rfl
  refine ⟨sound.sized, sound.outermost, sound.receivers, sound.bases, ?_, ?_⟩
  · intro ref other found
    simp only [Store.addFunction, Heap.addFunction, Heap.function?, Array.getElem?_push] at found
    split at found
    · cases found
      exact closure_grows added grows
    · exact closure_grows (sound.functions ref other found) grows
  · intro ref cls name other found member
    exact method_grows (sound.methods ref cls name other found member) grows

theorem store_sound_add_class {store : Store} (sound : StoreSound statements store)
    {methods : Bindings Closure} (added : ∀ name closure, methods.get? name = some closure →
      MethodSound statements store closure) (className : String) (parent : Option ClassRef) :
    StoreSound statements (store.addClass ⟨className, parent, methods⟩) := by
  have grows : Grows store (store.addClass ⟨className, parent, methods⟩) :=
    same_frames_grows rfl rfl
  refine ⟨sound.sized, sound.outermost, sound.receivers, sound.bases, ?_, ?_⟩
  · intro ref closure found
    exact closure_grows (sound.functions ref closure found) grows
  · intro ref other name closure found member
    simp only [Store.addClass, Heap.addClass, Heap.class?, Array.getElem?_push] at found
    split at found
    · cases found
      exact method_grows (added name closure member) grows
    · exact method_grows (sound.methods ref other name closure found member) grows

theorem store_sound_same {store later : Store} (sound : StoreSound statements store)
    (frames : later.heap.frames = store.heap.frames)
    (functions : later.heap.functions = store.heap.functions)
    (classes : later.heap.classes = store.heap.classes) (origins : later.origins = store.origins) :
    StoreSound statements later := by
  have grows : Grows store later := same_frames_grows frames origins
  rcases later with ⟨heap, tags⟩
  simp only at frames functions classes origins
  subst origins
  constructor
  · rw [frames]
    exact sound.sized
  · simpa only [Heap.frame?, frames] using sound.outermost
  · simpa only [Heap.frame?, frames] using sound.receivers
  · simpa only [Heap.frame?, frames] using sound.bases
  · intro ref closure found
    rw [Heap.function?, functions] at found
    exact closure_grows (sound.functions ref closure found) grows
  · intro ref cls name closure found member
    rw [Heap.class?, classes] at found
    exact method_grows (sound.methods ref cls name closure found member) grows

theorem method_within_sound {store : Store} (sound : StoreSound statements store) {name : String}
    {closure : Closure} {budget : Nat} {ref : ClassRef}
    (found : store.heap.methodWithin name budget ref = some closure) :
    MethodSound statements store closure := by
  obtain ⟨owner, cls, -, isClass, held⟩ := Heap.finds_belongs (Heap.method_finds found)
  exact sound.methods owner cls name closure isClass held

theorem constructor_within_sound {store : Store} (sound : StoreSound statements store)
    {closure : Closure} {budget : Nat} {ref : ClassRef}
    (found : store.heap.constructorWithin budget ref = some closure) :
    MethodSound statements store closure := by
  obtain ⟨owner, cls, -, isClass, held⟩ := Heap.constructor_belongs found
  exact sound.methods owner cls cls.name closure isClass held

theorem property_sound {store : Store} (sound : StoreSound statements store) {ref : InstanceRef}
    {name : String} {closure : Closure}
    (found : store.heap.property? ref name = some (.method closure)) :
    MethodSound statements store closure := by
  obtain ⟨object, -, search⟩ := Heap.property_method found
  exact method_within_sound sound search

theorem bound_sound {store : Store} (sound : StoreSound statements store) {method : Closure}
    (isMethod : MethodSound statements store method) (receiver : InstanceRef) :
    StoreSound statements (store.addFrame (Heap.receiverFrame method receiver) .receiver) ∧
      ClosureSound statements (store.addFrame (Heap.receiverFrame method receiver) .receiver)
        (store.heap.boundMethod method) := by
  constructor
  · apply store_sound_add_frame sound
    · intro _
      exact ⟨receiver, by simp [Heap.receiverFrame]⟩
    · intro same
      cases same
  · rcases isMethod with ⟨className, derived, layers, inside, fits⟩
    refine ⟨some className, _, inside, ?_⟩
    apply fits_enter sound fits (.receiver className derived)
    intro name member
    rw [List.mem_singleton.1 member]
    simp

end Sound

theorem method_table_made {className : String} {frame : FrameRef} {decls : List FunctionDecl}
    {name : String} {closure : Closure}
    (found : (Heap.methodTable className frame decls).get? name = some closure) :
    ∃ decl ∈ decls, decl.name.lexeme = name ∧
      closure = ⟨decl, frame, decl.name.lexeme == className⟩ := by
  unfold Heap.methodTable at found
  have held : ∀ (table : Bindings Closure), (decls.foldl (fun table decl =>
      table.insert decl.name.lexeme ⟨decl, frame, decl.name.lexeme == className⟩) table).get? name =
        some closure → table.get? name = some closure ∨
          ∃ decl ∈ decls, decl.name.lexeme = name ∧
            closure = ⟨decl, frame, decl.name.lexeme == className⟩ := by
    clear found
    induction decls with
    | nil =>
        intro table found
        exact .inl found
    | cons decl rest induction =>
        intro table found
        rcases induction _ found with earlier | ⟨later, member, facts⟩
        · rw [Bindings.get_insert] at earlier
          split at earlier
          next same =>
            cases earlier
            exact .inr ⟨decl, List.mem_cons_self, same.symm, rfl⟩
          next => exact .inl earlier
        · exact .inr ⟨later, List.mem_cons_of_mem _ member, facts⟩
  rcases held _ found with impossible | known
  · cases impossible
  · exact known

theorem method_table_sound {statements : List Stmt} {store : Store} {className : Token}
    {derived : Bool} {layers : List Layer} {frame : FrameRef} {decls : List FunctionDecl}
    (inside : Scope.methodPositions className (⟨.receiver className derived, ["this"]⟩ :: layers)
      decls ⊆ positions statements) (fits : Fits store frame layers) (name : String)
    (closure : Closure)
    (found : (Heap.methodTable className.lexeme frame decls).get? name = some closure) :
    MethodSound statements store closure := by
  obtain ⟨decl, member, -, rfl⟩ := method_table_made found
  exact ⟨className, derived, layers, List.Subset.trans (Scope.method_subset member) inside, fits⟩

theorem holding_all_names (names : List Token) (layer : Layer) (layers : List Layer) :
    holdingAll names (layer :: layers) =
      ⟨layer.opener, (names.map Token.lexeme).reverse ++ layer.names⟩ :: layers := by
  unfold holdingAll
  induction names generalizing layer with
  | nil => rfl
  | cons name rest induction =>
      rw [List.foldl_cons, holding, induction]
      simp

theorem parameter_bindings_bound {parameters : List Token} {given : List Value}
    (arity : given.length = parameters.length) :
    ∀ name ∈ parameters.map Token.lexeme, ((parameterBindings parameters given).get? name).isSome := by
  have held : ∀ (pairs : List (Token × Value)) (bindings : Bindings Value) (name : String),
      name ∈ pairs.map (·.1.lexeme) ∨ (bindings.get? name).isSome →
        ((pairs.foldl (fun bindings pair => bindings.insert pair.1.lexeme pair.2) bindings).get?
          name).isSome := by
    intro pairs
    induction pairs with
    | nil =>
        intro bindings name known
        simpa using known
    | cons pair rest induction =>
        intro bindings name known
        apply induction
        rw [Bindings.get_insert]
        rw [List.map_cons, List.mem_cons] at known
        split
        · exact .inr rfl
        · next different =>
          rcases known with (same | later) | earlier
          · exact absurd same different
          · exact .inl later
          · exact .inr earlier
  intro name member
  apply held
  have firsts : (parameters.zip given).map (·.1.lexeme) = parameters.map Token.lexeme := by
    have zipped : (parameters.zip given).map Prod.fst = parameters := List.map_fst_zip (by omega)
    calc (parameters.zip given).map (·.1.lexeme)
        = ((parameters.zip given).map Prod.fst).map Token.lexeme := by simp
      _ = parameters.map Token.lexeme := by rw [zipped]
  rw [firsts]
  exact .inl member

end Quill.Machine
