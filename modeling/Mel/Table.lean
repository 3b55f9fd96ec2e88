/-!
# Tables

A finite map from names, in the order in which the names came in. A new value for
a known name keeps its place.
-/

namespace Mel

/-- The entries of a table, with the names that came in first in front. -/
structure Table (α : Type) where
  entries : List (String × α)
deriving Repr

namespace Table

variable {α : Type}

def empty : Table α := ⟨[]⟩

def names (table : Table α) : List String :=
  table.entries.map Prod.fst

/-- The value of a name in a list of entries. -/
def find? (name : String) : List (String × α) → Option α
  | [] => none
  | (known, value) :: entries => if known = name then some value else find? name entries

def get? (table : Table α) (name : String) : Option α :=
  find? name table.entries

def contains (table : Table α) (name : String) : Bool :=
  (table.get? name).isSome

/-- A known name keeps its place, and a new one comes last. -/
def insertEntry (name : String) (value : α) : List (String × α) → List (String × α)
  | [] => [(name, value)]
  | (known, old) :: entries =>
      if known = name then (name, value) :: entries
      else (known, old) :: insertEntry name value entries

def insert (table : Table α) (name : String) (value : α) : Table α :=
  ⟨insertEntry name value table.entries⟩

theorem find?_insertEntry (name wanted : String) (value : α) (entries : List (String × α)) :
    find? wanted (insertEntry name value entries) =
      if name = wanted then some value else find? wanted entries := by
  induction entries with
  | nil => rfl
  | cons entry entries ih =>
    obtain ⟨known, old⟩ := entry
    by_cases replaced : known = name
    · subst replaced
      by_cases found : known = wanted <;> simp [insertEntry, find?, found]
    · by_cases found : known = wanted
      · subst found
        simp [insertEntry, find?, replaced, Ne.symm replaced]
      · simp [insertEntry, find?, replaced, found, ih]

theorem get?_insert (table : Table α) (name wanted : String) (value : α) :
    (table.insert name value).get? wanted =
      if name = wanted then some value else table.get? wanted :=
  find?_insertEntry name wanted value table.entries

theorem isSome_find? (name : String) (entries : List (String × α)) :
    (find? name entries).isSome = true ↔ name ∈ entries.map Prod.fst := by
  induction entries with
  | nil => simp [find?]
  | cons entry entries ih =>
    obtain ⟨known, old⟩ := entry
    by_cases found : known = name
    · simp [find?, found]
    · simp [find?, found, Ne.symm found, ih]

/-- A name is known exactly if it stands in the table. -/
theorem contains_iff_mem_names {table : Table α} {name : String} :
    table.contains name = true ↔ name ∈ table.names :=
  isSome_find? name table.entries

theorem map_fst_insertEntry {name : String} (value : α) {entries : List (String × α)}
    (known : name ∈ entries.map Prod.fst) :
    (insertEntry name value entries).map Prod.fst = entries.map Prod.fst := by
  induction entries with
  | nil => simp at known
  | cons entry entries ih =>
    obtain ⟨other, old⟩ := entry
    by_cases found : other = name
    · simp [insertEntry, found]
    · have later : name ∈ entries.map Prod.fst := by
        simpa [Ne.symm found] using known
      simp only [insertEntry, if_neg found, List.map_cons, ih later]

/-- A new value for a known name adds no name. -/
theorem names_insert_of_contains {table : Table α} {name : String} (value : α)
    (known : table.contains name = true) : (table.insert name value).names = table.names :=
  map_fst_insertEntry value (contains_iff_mem_names.1 known)

end Table

end Mel
