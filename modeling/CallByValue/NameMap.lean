/-!
# Maps from names

A finite map from names to values that keeps the order in which the names first came. Giving a name
a new value leaves it in its place.
-/

namespace CallByValue

structure NameMap (α : Type) where
  entries : List (String × α)
deriving DecidableEq

namespace NameMap

variable {α : Type}

def empty : NameMap α :=
  ⟨[]⟩

def find? (map : NameMap α) (name : String) : Option α :=
  map.entries.lookup name

def contains (map : NameMap α) (name : String) : Bool :=
  (map.find? name).isSome

def names (map : NameMap α) : List String :=
  map.entries.map Prod.fst

def insertEntry (name : String) (value : α) : List (String × α) → List (String × α)
  | [] => [(name, value)]
  | entry :: rest =>
    if entry.1 = name then (name, value) :: rest else entry :: insertEntry name value rest

def insert (map : NameMap α) (name : String) (value : α) : NameMap α :=
  ⟨insertEntry name value map.entries⟩

def ofList (entries : List (String × α)) : NameMap α :=
  entries.foldl (fun map entry => map.insert entry.1 entry.2) empty

def fill (map : NameMap α) (value : α) : NameMap α :=
  ⟨map.entries.map fun entry => (entry.1, value)⟩

@[simp] theorem find?_empty (name : String) : (empty : NameMap α).find? name = none := rfl

theorem lookup_insertEntry (name other : String) (value : α) (entries : List (String × α)) :
    (insertEntry name value entries).lookup other
      = if other = name then some value else entries.lookup other := by
  induction entries with
  | nil =>
    by_cases h : other = name
    · simp [insertEntry, h]
    · simp [insertEntry, List.lookup_cons, h, beq_eq_false_iff_ne.mpr h]
  | cons entry rest ih =>
    obtain ⟨key, old⟩ := entry
    by_cases hkey : key = name
    · subst hkey
      by_cases h : other = key
      · simp [insertEntry, h]
      · simp [insertEntry, List.lookup_cons, h, beq_eq_false_iff_ne.mpr h]
    · by_cases h : other = key
      · simp [insertEntry, hkey, h]
      · simp [insertEntry, List.lookup_cons, hkey, beq_eq_false_iff_ne.mpr h, ih]

theorem find?_insert (map : NameMap α) (name other : String) (value : α) :
    (map.insert name value).find? other = if other = name then some value else map.find? other :=
  lookup_insertEntry name other value map.entries

theorem map_fst_insertEntry (name : String) (value : α) (entries : List (String × α)) :
    (insertEntry name value entries).map Prod.fst
      = if name ∈ entries.map Prod.fst then entries.map Prod.fst
        else entries.map Prod.fst ++ [name] := by
  induction entries with
  | nil => simp [insertEntry]
  | cons entry rest ih =>
    by_cases hkey : entry.1 = name
    · simp [insertEntry, hkey]
    · have hne : name ≠ entry.1 := fun h => hkey h.symm
      by_cases hmem : name ∈ rest.map Prod.fst <;> simp_all [insertEntry]

theorem names_insert (map : NameMap α) (name : String) (value : α) :
    (map.insert name value).names
      = if name ∈ map.names then map.names else map.names ++ [name] :=
  map_fst_insertEntry name value map.entries

@[simp] theorem names_fill (map : NameMap α) (value : α) : (map.fill value).names = map.names := by
  simp [names, fill]

end NameMap

end CallByValue
