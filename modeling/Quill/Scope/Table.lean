/-!
Binding tables: for the number of an expression, how many scopes separate it from the
binding it names. What the table leaves out is global. Entries are kept by increasing
number, so equal tables are the same list.
-/

namespace Quill.Scope

set_option autoImplicit false

structure Table where
  entries : List (Nat × Nat)
deriving DecidableEq, Repr, Inhabited

namespace Table

def empty : Table := ⟨[]⟩

def get? (table : Table) (id : Nat) : Option Nat :=
  table.entries.lookup id

def insertEntry (id distance : Nat) : List (Nat × Nat) → List (Nat × Nat)
  | [] => [(id, distance)]
  | entry :: rest =>
      if id < entry.1 then (id, distance) :: entry :: rest
      else if id = entry.1 then (id, distance) :: rest
      else entry :: insertEntry id distance rest

def insert (table : Table) (id distance : Nat) : Table :=
  ⟨insertEntry id distance table.entries⟩

def erase (table : Table) (id : Nat) : Table :=
  ⟨table.entries.filter fun entry => entry.1 != id⟩

def ofList (entries : List (Nat × Nat)) : Table :=
  entries.foldl (fun table entry => table.insert entry.1 entry.2) empty

@[simp] theorem get_empty (id : Nat) : empty.get? id = none := rfl

theorem lookup_insertEntry (id sought distance : Nat) (entries : List (Nat × Nat)) :
    (insertEntry id distance entries).lookup sought =
      if sought = id then some distance else entries.lookup sought := by
  induction entries with
  | nil =>
      by_cases same : sought = id
      · simp [insertEntry, same]
      · simp [insertEntry, List.lookup_cons, same, beq_false_of_ne same]
  | cons entry rest induction =>
      obtain ⟨key, value⟩ := entry
      by_cases below : id < key
      · by_cases same : sought = id
        · simp [insertEntry, below, same]
        · simp [insertEntry, below, List.lookup_cons, same, beq_false_of_ne same]
      · by_cases found : id = key
        · subst found
          by_cases same : sought = id
          · simp [insertEntry, same]
          · simp [insertEntry, List.lookup_cons, same, beq_false_of_ne same]
        · by_cases same : sought = key
          · subst same
            simp [insertEntry, below, found, Ne.symm found]
          · simp [insertEntry, below, found, List.lookup_cons, beq_false_of_ne same, induction]

@[simp] theorem get_insert (table : Table) (id sought distance : Nat) :
    (table.insert id distance).get? sought =
      if sought = id then some distance else table.get? sought :=
  lookup_insertEntry id sought distance table.entries

end Table

end Quill.Scope
