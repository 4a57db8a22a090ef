/-!
# Tables

Named entries in the order in which their names were first inserted.  Inserting under a name that
is already there replaces its entry and keeps its place.
-/

namespace LslFront

/-- Named entries in insertion order. -/
structure Table (α : Type) where
  entries : List (String × α)
deriving Repr

namespace Table

variable {α β : Type}

def empty : Table α := ⟨[]⟩

def names (table : Table α) : List String :=
  table.entries.map (·.1)

def values (table : Table α) : List α :=
  table.entries.map (·.2)

def size (table : Table α) : Nat :=
  table.entries.length

def isEmpty (table : Table α) : Bool :=
  table.entries.isEmpty

def contains (table : Table α) (name : String) : Bool :=
  table.names.contains name

def get? (table : Table α) (name : String) : Option α :=
  table.entries.lookup name

def modify (table : Table α) (name : String) (f : α → α) : Table α :=
  ⟨table.entries.map fun (known, value) => (known, if known = name then f value else value)⟩

/-- Replace the entry of a name, or add one at the end. -/
def insert (table : Table α) (name : String) (value : α) : Table α :=
  if table.contains name then table.modify name fun _ => value
  else ⟨table.entries ++ [(name, value)]⟩

def map (f : α → β) (table : Table α) : Table β :=
  ⟨table.entries.map fun (name, value) => (name, f value)⟩

@[simp] theorem names_empty : (empty : Table α).names = [] := rfl

theorem contains_iff {table : Table α} {name : String} :
    table.contains name ↔ name ∈ table.names :=
  List.contains_iff_mem

@[simp] theorem entries_empty : (empty : Table α).entries = [] := rfl

@[simp] theorem names_modify (table : Table α) (name : String) (f : α → α) :
    (table.modify name f).names = table.names := by
  simp [modify, names, Function.comp_def]

/-- A new name comes last; a known one stays where it is. -/
theorem names_insert (table : Table α) (name : String) (value : α) :
    (table.insert name value).names
      = if table.contains name then table.names else table.names ++ [name] := by
  unfold insert
  split
  · simp
  · simp [names]

/-- The entry of a new name comes last. -/
theorem entries_insert {table : Table α} {name : String} (h : name ∉ table.names) (value : α) :
    (table.insert name value).entries = table.entries ++ [(name, value)] := by
  rw [insert, if_neg (fun hknown => h (contains_iff.1 hknown))]

theorem names_insert_of_notMem {table : Table α} {name : String} (h : name ∉ table.names)
    (value : α) : (table.insert name value).names = table.names ++ [name] := by
  rw [names_insert, if_neg fun hknown => h (contains_iff.1 hknown)]

theorem mem_entries_modify {table : Table α} {name known : String} {f : α → α} {value : α} :
    (known, value) ∈ (table.modify name f).entries
      ↔ ∃ old, (known, old) ∈ table.entries ∧ value = if known = name then f old else old := by
  simp only [modify, List.mem_map, Prod.exists, Prod.mk.injEq]
  constructor
  · rintro ⟨_, old, hmem, rfl, rfl⟩
    exact ⟨old, hmem, rfl⟩
  · rintro ⟨old, hmem, rfl⟩
    exact ⟨known, old, hmem, rfl, rfl⟩

/-- An entry is one of before, or the one that has been inserted. -/
theorem mem_entries_insert {table : Table α} {name known : String} {value found : α}
    (h : (known, found) ∈ (table.insert name value).entries) :
    (known, found) ∈ table.entries ∨ (known = name ∧ found = value) := by
  unfold insert at h
  split at h
  · obtain ⟨old, hmem, rfl⟩ := mem_entries_modify.1 h
    split
    · exact .inr ⟨‹_›, rfl⟩
    · exact .inl hmem
  · simpa using h

theorem mem_values {table : Table α} {value : α} :
    value ∈ table.values ↔ ∃ name, (name, value) ∈ table.entries := by
  simp [values]

theorem mem_values_insert {table : Table α} {name : String} {value found : α}
    (h : found ∈ (table.insert name value).values) : found ∈ table.values ∨ found = value := by
  obtain ⟨known, hknown⟩ := mem_values.1 h
  rcases mem_entries_insert hknown with hmem | ⟨-, rfl⟩
  · exact .inl (mem_values.2 ⟨known, hmem⟩)
  · exact .inr rfl

theorem mem_names_of_mem {table : Table α} {name : String} {value : α}
    (h : (name, value) ∈ table.entries) : name ∈ table.names :=
  List.mem_map.mpr ⟨(name, value), h, rfl⟩

end Table

end LslFront
