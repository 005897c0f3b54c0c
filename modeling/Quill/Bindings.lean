/-!
Finite maps from names, in the order in which the names first appeared. Scopes, frames,
method tables and fields are all bindings.
-/

namespace Quill

set_option autoImplicit false

structure Bindings (Held : Type) where
  entries : List (String × Held)
deriving Repr

namespace Bindings

variable {Held : Type}

def empty : Bindings Held := ⟨[]⟩

instance : Inhabited (Bindings Held) := ⟨empty⟩

def get? (bindings : Bindings Held) (name : String) : Option Held :=
  bindings.entries.lookup name

def contains (bindings : Bindings Held) (name : String) : Bool :=
  (bindings.get? name).isSome

def names (bindings : Bindings Held) : List String :=
  bindings.entries.map Prod.fst

/-- A name that is present keeps its place, so names are listed in the order in which they were
first bound. -/
def insertEntry (name : String) (held : Held) : List (String × Held) → List (String × Held)
  | [] => [(name, held)]
  | entry :: rest =>
      if name == entry.1 then (name, held) :: rest else entry :: insertEntry name held rest

def insert (bindings : Bindings Held) (name : String) (held : Held) : Bindings Held :=
  ⟨insertEntry name held bindings.entries⟩

@[simp] theorem get_empty (name : String) : (empty : Bindings Held).get? name = none := rfl

theorem lookup_insertEntry (name sought : String) (held : Held)
    (entries : List (String × Held)) :
    (insertEntry name held entries).lookup sought =
      if sought = name then some held else entries.lookup sought := by
  induction entries with
  | nil =>
      by_cases same : sought = name
      · simp [insertEntry, same]
      · simp [insertEntry, List.lookup_cons, same, beq_false_of_ne same]
  | cons entry rest induction =>
      obtain ⟨key, value⟩ := entry
      by_cases found : name = key
      · subst found
        by_cases same : sought = name
        · simp [insertEntry, same]
        · simp [insertEntry, List.lookup_cons, same, beq_false_of_ne same]
      · by_cases same : sought = key
        · subst same
          simp [insertEntry, beq_false_of_ne found, Ne.symm found]
        · simp [insertEntry, beq_false_of_ne found, List.lookup_cons, beq_false_of_ne same, induction]

@[simp] theorem get_insert (bindings : Bindings Held) (name sought : String) (held : Held) :
    (bindings.insert name held).get? sought =
      if sought = name then some held else bindings.get? sought :=
  lookup_insertEntry name sought held bindings.entries

end Bindings

end Quill
