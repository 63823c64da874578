/-!
Tables from names to values, in the order in which the names were first given. Writing a name that
is there already keeps its place and replaces its value.
-/

namespace Reckoner

/-- The entries of a table with one name written. -/
def insertEntry {α : Type} (name : String) (value : α) : List (String × α) → List (String × α)
  | [] => [(name, value)]
  | (n, v) :: rest =>
    if n = name then (n, value) :: rest else (n, v) :: insertEntry name value rest

theorem map_fst_insertEntry {α : Type} (name : String) (value : α) (entries : List (String × α)) :
    (insertEntry name value entries).map Prod.fst =
      if name ∈ entries.map Prod.fst then entries.map Prod.fst
      else entries.map Prod.fst ++ [name] := by
  induction entries with
  | nil => rfl
  | cons entry rest ih =>
      obtain ⟨n, v⟩ := entry
      by_cases h : n = name
      · simp [insertEntry, h]
      · have h' : name ≠ n := fun e => h e.symm
        by_cases hmem : name ∈ rest.map Prod.fst
        · simp [insertEntry, h, h', ih, hmem]
        · simp [insertEntry, h, h', ih, hmem]

theorem nodup_insertEntry {α : Type} (name : String) (value : α) {entries : List (String × α)}
    (h : (entries.map Prod.fst).Nodup) : ((insertEntry name value entries).map Prod.fst).Nodup := by
  rw [map_fst_insertEntry]
  split
  · exact h
  · rename_i hmem
    rw [List.nodup_append]
    refine ⟨h, by simp, ?_⟩
    intro a ha b hb hab
    simp only [List.mem_singleton] at hb
    exact hmem (hb ▸ hab ▸ ha)

/-- Named values; no name is there twice. -/
structure Table (α : Type) where
  entries : List (String × α)
  nodup : (entries.map Prod.fst).Nodup

namespace Table

variable {α : Type}

instance : EmptyCollection (Table α) := ⟨⟨[], .nil⟩⟩

def get? (t : Table α) (name : String) : Option α := t.entries.lookup name

def contains (t : Table α) (name : String) : Bool := (t.get? name).isSome

def insert (t : Table α) (name : String) (value : α) : Table α :=
  ⟨insertEntry name value t.entries, nodup_insertEntry name value t.nodup⟩

/-- The pairs in order, a later one for the same name replacing the value. -/
def ofList (pairs : List (String × α)) : Table α :=
  pairs.foldl (fun t (name, value) => t.insert name value) ∅

@[simp] theorem get?_empty (name : String) : (∅ : Table α).get? name = none := rfl

theorem lookup_insertEntry (name : String) (value : α) (entries : List (String × α))
    (other : String) :
    (insertEntry name value entries).lookup other =
      if other = name then some value else entries.lookup other := by
  induction entries with
  | nil =>
      by_cases h : other = name
      · simp [insertEntry, h]
      · simp [insertEntry, List.lookup_cons, h, beq_eq_false_iff_ne.2 h]
  | cons entry rest ih =>
      obtain ⟨n, v⟩ := entry
      by_cases h : n = name
      · subst h
        by_cases ho : other = n
        · simp [insertEntry, ho]
        · simp [insertEntry, List.lookup_cons, ho, beq_eq_false_iff_ne.2 ho]
      · by_cases ho : other = n
        · subst ho
          simp [insertEntry, h]
        · simp [insertEntry, List.lookup_cons, h, ih, beq_eq_false_iff_ne.2 ho]

@[simp] theorem get?_insert (t : Table α) (name : String) (value : α) (other : String) :
    (t.insert name value).get? other = if other = name then some value else t.get? other :=
  lookup_insertEntry name value t.entries other

/-- The entries by name. -/
def sorted (t : Table α) : List (String × α) :=
  t.entries.mergeSort fun a b => a.1 ≤ b.1

end Table
end Reckoner
