import Mathlib.Data.List.Basic
import Reckoner.Evaluation

/-!
Tables made of pairs. Of pairs with the same name the last one counts, and the order of pairs with
different names does not matter; pairs that are written again change nothing. A table of doubles that is
handed in for variables is the variables.
-/

namespace Reckoner.Table

variable {α β : Type}

@[ext] theorem ext {t t' : Table α} (h : t.entries = t'.entries) : t = t' := by
  cases t
  cases t'
  cases h
  rfl

/-! ### Looking up -/

theorem get?_foldl_insert (pairs : List (String × α)) (t : Table α) (name : String) :
    (pairs.foldl (fun t (name, value) => t.insert name value) t).get? name =
      (pairs.reverse.lookup name).or (t.get? name) := by
  induction pairs generalizing t with
  | nil => rfl
  | cons pair pairs ih =>
      obtain ⟨n, v⟩ := pair
      rw [List.foldl_cons, ih, get?_insert, List.reverse_cons, List.lookup_append, Option.or_assoc]
      congr 1
      by_cases h : name = n
      · simp [h]
      · simp [List.lookup_cons, h, beq_eq_false_iff_ne.2 h]

/-- The last pair with a name counts. -/
theorem get?_ofList (pairs : List (String × α)) (name : String) :
    (ofList pairs).get? name = pairs.reverse.lookup name := by
  rw [ofList, get?_foldl_insert, get?_empty, Option.or_none]

theorem lookup_map (f : α → β) (pairs : List (String × α)) (name : String) :
    (pairs.map (Prod.map id f)).lookup name = (pairs.lookup name).map f := by
  induction pairs with
  | nil => rfl
  | cons pair pairs ih =>
      obtain ⟨n, v⟩ := pair
      by_cases h : name = n
      · simp [h]
      · simp [List.lookup_cons, beq_eq_false_iff_ne.2 h, ih]

theorem lookup_eq_some_iff {pairs : List (String × α)} (h : (pairs.map Prod.fst).Nodup)
    {name : String} {value : α} : pairs.lookup name = some value ↔ (name, value) ∈ pairs := by
  induction pairs with
  | nil => simp
  | cons pair pairs ih =>
      obtain ⟨n, v⟩ := pair
      obtain ⟨hn, hrest⟩ := List.nodup_cons.1 h
      by_cases hname : name = n
      · subst hname
        have hnone : (name, value) ∉ pairs := fun hmem =>
          hn (List.mem_map.2 ⟨(name, value), hmem, rfl⟩)
        simp [hnone, eq_comm]
      · simp [List.lookup_cons, hname, beq_eq_false_iff_ne.2 hname, ih hrest]

/-- The order of pairs with different names does not matter. -/
theorem lookup_reverse_of_perm {pairs pairs' : List (String × α)} (hperm : pairs.Perm pairs')
    (h : (pairs.map Prod.fst).Nodup) (name : String) :
    pairs.reverse.lookup name = pairs'.reverse.lookup name := by
  have hreverse : (pairs.reverse.map Prod.fst).Nodup :=
    ((List.reverse_perm pairs).map Prod.fst).nodup_iff.2 h
  have hreverse' : (pairs'.reverse.map Prod.fst).Nodup :=
    (((List.reverse_perm pairs').trans hperm.symm).map Prod.fst).nodup_iff.2 h
  ext value
  rw [lookup_eq_some_iff hreverse, lookup_eq_some_iff hreverse', List.mem_reverse,
    List.mem_reverse, hperm.mem_iff]

theorem lookup_reverse_of_not_mem {pairs : List (String × α)} {name : String}
    (h : name ∉ pairs.map Prod.fst) : pairs.reverse.lookup name = none := by
  rw [List.lookup_eq_none_iff]
  intro pair hpair
  have hne : name ≠ pair.1 := by
    rintro rfl
    exact h (List.mem_map_of_mem (List.mem_reverse.1 hpair))
  simpa using hne

/-- The last pair with a name is found. -/
theorem lookup_reverse_last (front : List (String × α)) (name : String) (value : α)
    {back : List (String × α)} (h : name ∉ back.map Prod.fst) :
    (front ++ (name, value) :: back).reverse.lookup name = some value := by
  rw [List.reverse_append, List.reverse_cons, List.append_assoc, List.lookup_append,
    lookup_reverse_of_not_mem h, Option.none_or]
  simp

/-! ### Doubles for variables -/

theorem insertEntry_of_not_mem {name : String} {entries : List (String × α)}
    (h : name ∉ entries.map Prod.fst) (value : α) :
    insertEntry name value entries = entries ++ [(name, value)] := by
  induction entries with
  | nil => rfl
  | cons entry entries ih =>
      obtain ⟨n, v⟩ := entry
      obtain ⟨hn, hrest⟩ : name ≠ n ∧ name ∉ entries.map Prod.fst := by simpa using h
      rw [insertEntry, if_neg fun e => hn e.symm, ih hrest]
      rfl

theorem entries_foldl_insert (pairs : List (String × α)) (t : Table α)
    (h : ((t.entries ++ pairs).map Prod.fst).Nodup) :
    (pairs.foldl (fun t (name, value) => t.insert name value) t).entries = t.entries ++ pairs := by
  induction pairs generalizing t with
  | nil => simp
  | cons pair pairs ih =>
      obtain ⟨n, v⟩ := pair
      have hn : n ∉ t.entries.map Prod.fst := by
        rw [List.map_append, List.map_cons] at h
        exact fun hmem => (List.nodup_append.1 h).2.2 n hmem n List.mem_cons_self rfl
      have hinsert : (t.insert n v).entries = t.entries ++ [(n, v)] := insertEntry_of_not_mem hn v
      rw [List.foldl_cons, ih, hinsert, List.append_assoc]
      · rfl
      · rw [hinsert, List.append_assoc]
        exact h

/-- A table is made of its entries. -/
theorem ofList_entries (t : Table α) : ofList t.entries = t :=
  ext (entries_foldl_insert t.entries ∅ t.nodup)

theorem insertEntry_map (f : α → β) (name : String) (value : α) (entries : List (String × α)) :
    insertEntry name (f value) (entries.map (Prod.map id f)) =
      (insertEntry name value entries).map (Prod.map id f) := by
  induction entries with
  | nil => rfl
  | cons entry entries ih =>
      obtain ⟨n, v⟩ := entry
      by_cases h : n = name
      · simp [insertEntry, h]
      · simp [insertEntry, h, ih]

theorem entries_foldl_map (f : α → β) (pairs : List (String × α)) {t : Table α} {t' : Table β}
    (h : t'.entries = t.entries.map (Prod.map id f)) :
    ((pairs.map (Prod.map id f)).foldl (fun t (name, value) => t.insert name value) t').entries =
      (pairs.foldl (fun t (name, value) => t.insert name value) t).entries.map (Prod.map id f) := by
  induction pairs generalizing t t' with
  | nil => exact h
  | cons pair pairs ih =>
      obtain ⟨n, v⟩ := pair
      rw [List.map_cons, List.foldl_cons, List.foldl_cons]
      apply ih
      show insertEntry n (f v) t'.entries = _
      rw [h, insertEntry_map]
      rfl

/-- The values of pairs may be changed before or after a table is made of them. -/
theorem entries_ofList_map (f : α → β) (pairs : List (String × α)) :
    (ofList (pairs.map (Prod.map id f))).entries = (ofList pairs).entries.map (Prod.map id f) :=
  entries_foldl_map f pairs rfl

/-! ### Writing again -/

theorem insertEntry_insertEntry (name : String) (value value' : α) (entries : List (String × α)) :
    insertEntry name value' (insertEntry name value entries) = insertEntry name value' entries := by
  induction entries with
  | nil => simp [insertEntry]
  | cons entry entries ih =>
      obtain ⟨n, v⟩ := entry
      by_cases h : n = name
      · simp [insertEntry, h]
      · simp [insertEntry, h, ih]

/-- A name that is there keeps its place, so another can be written before it or after it. -/
theorem insertEntry_comm {name other : String} (hne : other ≠ name) {entries : List (String × α)}
    (h : name ∈ entries.map Prod.fst) (value value' : α) :
    insertEntry name value (insertEntry other value' entries) =
      insertEntry other value' (insertEntry name value entries) := by
  induction entries with
  | nil => cases h
  | cons entry entries ih =>
      obtain ⟨n, v⟩ := entry
      by_cases hname : n = name
      · subst hname
        simp [insertEntry, hne.symm]
      · have hrest : name ∈ entries.map Prod.fst := by simpa [Ne.symm hname] using h
        by_cases hother : n = other
        · subst hother
          simp [insertEntry, hname]
        · simp [insertEntry, hname, hother, ih hrest]

theorem mem_insertEntry (name : String) (value : α) (entries : List (String × α)) :
    name ∈ (insertEntry name value entries).map Prod.fst := by
  rw [map_fst_insertEntry]
  split
  · assumption
  · exact List.mem_append_right _ List.mem_cons_self

theorem mem_insertEntry_of_mem {name : String} {entries : List (String × α)}
    (h : name ∈ entries.map Prod.fst) (other : String) (value : α) :
    name ∈ (insertEntry other value entries).map Prod.fst := by
  rw [map_fst_insertEntry]
  split
  · exact h
  · exact List.mem_append_left _ h

/-- The table with pairs written into it, in order. -/
def insertAll (t : Table α) (pairs : List (String × α)) : Table α :=
  pairs.foldl (fun t (name, value) => t.insert name value) t

@[simp] theorem insertAll_cons (t : Table α) (name : String) (value : α)
    (pairs : List (String × α)) :
    t.insertAll ((name, value) :: pairs) = (t.insert name value).insertAll pairs := rfl

theorem insertAll_append (t : Table α) (pairs more : List (String × α)) :
    t.insertAll (pairs ++ more) = (t.insertAll pairs).insertAll more :=
  List.foldl_append

/-- A name that is there can be written before or after pairs with other names. -/
theorem insert_insertAll {t : Table α} {name : String} (hname : name ∈ t.entries.map Prod.fst)
    {pairs : List (String × α)} (hpairs : name ∉ pairs.map Prod.fst) (value : α) :
    (t.insertAll pairs).insert name value = (t.insert name value).insertAll pairs := by
  induction pairs generalizing t with
  | nil => rfl
  | cons pair pairs ih =>
      obtain ⟨n, v⟩ := pair
      obtain ⟨hn, hrest⟩ : name ≠ n ∧ name ∉ pairs.map Prod.fst := by simpa using hpairs
      have hcomm : (t.insert n v).insert name value = (t.insert name value).insert n v :=
        ext (insertEntry_comm hn.symm hname value v)
      rw [insertAll_cons, insertAll_cons, ih (mem_insertEntry_of_mem hname n v) hrest, hcomm]

/-- Pairs with different names leave nothing to do when they are written once more. -/
theorem insertAll_insertAll_self {pairs : List (String × α)} (h : (pairs.map Prod.fst).Nodup)
    (t : Table α) : (t.insertAll pairs).insertAll pairs = t.insertAll pairs := by
  induction pairs generalizing t with
  | nil => rfl
  | cons pair pairs ih =>
      obtain ⟨n, v⟩ := pair
      obtain ⟨hn, hrest⟩ := List.nodup_cons.1 h
      have htwice : (t.insert n v).insert n v = t.insert n v :=
        ext (insertEntry_insertEntry n v v t.entries)
      rw [insertAll_cons, insertAll_cons, insert_insertAll (mem_insertEntry n v _) hn, htwice,
        ih hrest]

theorem insertAll_insertEntry {entries : List (String × α)} (h : (entries.map Prod.fst).Nodup)
    (name : String) (value : α) (t : Table α) :
    t.insertAll (insertEntry name value entries) = (t.insertAll entries).insert name value := by
  induction entries generalizing t with
  | nil => rfl
  | cons entry entries ih =>
      obtain ⟨n, v⟩ := entry
      obtain ⟨hn, hrest⟩ := List.nodup_cons.1 h
      by_cases hname : n = name
      · subst hname
        have htwice : (t.insert n v).insert n value = t.insert n value :=
          ext (insertEntry_insertEntry n v value t.entries)
        rw [insertEntry, if_pos rfl, insertAll_cons, insertAll_cons,
          insert_insertAll (mem_insertEntry n v _) hn, htwice]
      · rw [insertEntry, if_neg hname, insertAll_cons, insertAll_cons, ih hrest]

/-- The table with the entries of another written over its own. -/
def override (t t' : Table α) : Table α := t.insertAll t'.entries

/-- Writing one table and then another is writing the first with the other over it. -/
theorem insertAll_override (t a b : Table α) :
    t.insertAll (a.override b).entries = (t.insertAll a.entries).insertAll b.entries := by
  unfold override
  generalize b.entries = pairs
  induction pairs generalizing a with
  | nil => rfl
  | cons pair pairs ih =>
      obtain ⟨n, v⟩ := pair
      rw [insertAll_cons, insertAll_cons, ih, ← insertAll_insertEntry a.nodup]
      rfl

theorem mem_of_mem_insertEntry {name : String} {value : α} {entries : List (String × α)}
    {entry : String × α} (h : entry ∈ insertEntry name value entries) :
    entry = (name, value) ∨ entry ∈ entries := by
  induction entries with
  | nil => exact .inl (List.mem_singleton.1 h)
  | cons first entries ih =>
      obtain ⟨n, v⟩ := first
      by_cases hname : n = name
      · subst hname
        rw [insertEntry, if_pos rfl] at h
        exact (List.mem_cons.1 h).imp_right (List.mem_cons_of_mem _)
      · rw [insertEntry, if_neg hname] at h
        rcases List.mem_cons.1 h with rfl | hrest
        · exact .inr List.mem_cons_self
        · exact (ih hrest).imp_right (List.mem_cons_of_mem _)

theorem mem_of_mem_override {a b : Table α} {entry : String × α}
    (h : entry ∈ (a.override b).entries) : entry ∈ a.entries ∨ entry ∈ b.entries := by
  unfold override at h
  generalize b.entries = pairs at h ⊢
  induction pairs generalizing a with
  | nil => exact .inl h
  | cons pair pairs ih =>
      obtain ⟨n, v⟩ := pair
      rcases ih h with hfirst | hrest
      · rcases mem_of_mem_insertEntry hfirst with rfl | hold
        · exact .inr List.mem_cons_self
        · exact .inl hold
      · exact .inr (List.mem_cons_of_mem _ hrest)

/-- The table with other values for its names. -/
def mapValues (f : α → β) (t : Table α) : Table β :=
  ⟨t.entries.map (Prod.map id f), by
    rw [List.map_map]
    exact t.nodup⟩

theorem mapValues_override (f : α → β) (a b : Table α) :
    (a.override b).mapValues f = (a.mapValues f).override (b.mapValues f) :=
  ext (entries_foldl_map f b.entries rfl).symm

/-- Pairs of which none has the name of another can be written in either order. -/
theorem get?_insertAll_comm {pairs more : List (String × α)}
    (h : ∀ name ∈ pairs.map Prod.fst, name ∉ more.map Prod.fst) (t : Table α) (name : String) :
    ((t.insertAll pairs).insertAll more).get? name =
      ((t.insertAll more).insertAll pairs).get? name := by
  simp only [insertAll, get?_foldl_insert]
  by_cases hname : name ∈ pairs.map Prod.fst
  · rw [lookup_reverse_of_not_mem (h name hname), Option.none_or, Option.none_or]
  · rw [lookup_reverse_of_not_mem hname, Option.none_or, Option.none_or]

end Table

theorem Scope.bindAll_doubles (s : Scope) (pairs : List (String × Float)) :
    s.bindAll (pairs.map (Prod.map id Value.real)) =
      ({ s with vars := pairs.foldl (fun t (name, value) => t.insert name value) s.vars },
        none) := by
  induction pairs generalizing s with
  | nil => rfl
  | cons pair pairs ih =>
      obtain ⟨n, x⟩ := pair
      exact ih (s.setVariable n x)

/-- A table of doubles is added as it is. -/
theorem Scope.add_doubles (pairs : List (String × Float)) :
    Scope.builtin.add (Table.ofList (pairs.map (Prod.map id Value.real))) =
      ({ Scope.builtin with vars := Table.ofList pairs }, none) := by
  rw [add, Table.entries_ofList_map, bindAll_doubles]
  exact congrArg (fun vars => ({ Scope.builtin with vars }, none))
    (Table.ofList_entries (Table.ofList pairs))

theorem evaluateWith_doubles [Elementary] (limits : Limits) (pairs : List (String × Float))
    (order : PowerOrder) (text : String) :
    evaluateWith limits (Table.ofList (pairs.map (Prod.map id Value.real))) order text =
      (evaluate limits { Scope.builtin with vars := Table.ofList pairs } order text).result.mapError
        .halt := by
  simp only [evaluateWith, Scope.add_doubles]

end Reckoner
