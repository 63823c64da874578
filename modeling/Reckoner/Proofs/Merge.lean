import Reckoner.Proofs.Scope
import Reckoner.Proofs.Table

/-!
Merges of values into the variables of a scope. A merge writes the entries before the first value that
has no double, and then says what is wrong with that value. So what merges leave is told by the last
writing of each name, and neither the name of the operation nor how a call ends has a say in it.
-/

namespace Reckoner

/-- A table of values that is merged into the variables, under either name of the operation. -/
inductive Merge
  | add (values : Table Value)
  | update (values : Table Value)

namespace Merge

def values : Merge → Table Value
  | .add values | .update values => values

def apply (s : Scope) : Merge → Scope × Option ValueFault
  | .add values => s.add values
  | .update values => s.update values

end Merge

/-- Merges, one after another and whatever comes of them: the scope in the end, and the fault of each
that fails. -/
def Scope.mergeAll (s : Scope) : List Merge → Scope × List (Option ValueFault)
  | [] => (s, [])
  | m :: ms =>
    let (s, fault?) := m.apply s
    let (s, faults) := s.mergeAll ms
    (s, fault? :: faults)

namespace Value

def fault? (v : Value) : Option ValueFault :=
  match v.toFloat with
  | .ok _ => none
  | .error fault => some fault

/-- The entries before the first value that has no double. -/
def reached (entries : List (String × Value)) : List (String × Value) :=
  entries.takeWhile fun entry => entry.2.fault?.isNone

/-- What is written of entries: those that are reached, with the doubles of their values. -/
def written (entries : List (String × Value)) : List (String × Float) :=
  (reached entries).filterMap fun entry => entry.2.toFloat.toOption.map (entry.1, ·)

/-- The fault of the first value that has no double. -/
def firstFault? (entries : List (String × Value)) : Option ValueFault :=
  entries.findSome? fun entry => entry.2.fault?

variable {v : Value} {name : String} {entries : List (String × Value)}

theorem fault?_of_ok {x : Float} (h : v.toFloat = .ok x) : v.fault? = none := by
  simp only [fault?, h]

theorem fault?_of_error {fault : ValueFault} (h : v.toFloat = .error fault) :
    v.fault? = some fault := by
  simp only [fault?, h]

theorem written_cons_of_ok {x : Float} (h : v.toFloat = .ok x) :
    written ((name, v) :: entries) = (name, x) :: written entries := by
  simp [written, reached, fault?_of_ok h, h, Except.toOption]

theorem written_cons_of_error {fault : ValueFault} (h : v.toFloat = .error fault) :
    written ((name, v) :: entries) = [] := by
  simp [written, reached, fault?_of_error h]

theorem firstFault?_cons_of_ok {x : Float} (h : v.toFloat = .ok x) :
    firstFault? ((name, v) :: entries) = firstFault? entries := by
  simp [firstFault?, fault?_of_ok h]

theorem firstFault?_cons_of_error {fault : ValueFault} (h : v.toFloat = .error fault) :
    firstFault? ((name, v) :: entries) = some fault := by
  simp [firstFault?, fault?_of_error h]

end Value

/-- What a merge does is to write. -/
theorem Scope.bindAll_eq (s : Scope) (entries : List (String × Value)) :
    s.bindAll entries =
      ({ s with vars := s.vars.insertAll (Value.written entries) }, Value.firstFault? entries) := by
  induction entries generalizing s with
  | nil => rfl
  | cons entry entries ih =>
      obtain ⟨name, v⟩ := entry
      unfold bindAll
      cases hv : v.toFloat with
      | ok x =>
          rw [Value.written_cons_of_ok hv, Value.firstFault?_cons_of_ok hv]
          exact ih _
      | error fault =>
          rw [Value.written_cons_of_error hv, Value.firstFault?_cons_of_error hv]
          rfl

/-! ### Values that all have a double -/

namespace Value

/-- The double of a value that has one. -/
def double (v : Value) : Float := v.toFloat.toOption.getD 0

theorem firstFault?_eq_none_iff {entries : List (String × Value)} :
    firstFault? entries = none ↔ ∀ entry ∈ entries, entry.2.fault? = none :=
  List.findSome?_eq_none_iff

theorem written_of_firstFault? {entries : List (String × Value)} (h : firstFault? entries = none) :
    written entries = entries.map (Prod.map id double) := by
  induction entries with
  | nil => rfl
  | cons entry entries ih =>
      obtain ⟨name, v⟩ := entry
      cases hv : v.toFloat with
      | ok x =>
          rw [firstFault?_cons_of_ok hv] at h
          simp [written_cons_of_ok hv, ih h, double, hv, Except.toOption]
      | error fault => simp [firstFault?_cons_of_error hv] at h

theorem names_written (entries : List (String × Value)) :
    ((written entries).map Prod.fst).Sublist (entries.map Prod.fst) := by
  induction entries with
  | nil => exact .slnil
  | cons entry entries ih =>
      obtain ⟨name, v⟩ := entry
      cases hv : v.toFloat with
      | ok x =>
          rw [written_cons_of_ok hv]
          exact ih.cons_cons name
      | error fault =>
          rw [written_cons_of_error hv]
          exact List.nil_sublist _

end Value

namespace Merge

/-- What the merge writes. -/
def written (m : Merge) : List (String × Float) := Value.written m.values.entries

/-- Why the merge fails, if it does. -/
def fault? (m : Merge) : Option ValueFault := Value.firstFault? m.values.entries

def names (m : Merge) : List String := m.values.entries.map Prod.fst

theorem apply_eq (s : Scope) (m : Merge) :
    m.apply s = ({ s with vars := s.vars.insertAll m.written }, m.fault?) := by
  cases m <;> exact s.bindAll_eq _

theorem nodup_written (m : Merge) : (m.written.map Prod.fst).Nodup :=
  (Value.names_written m.values.entries).nodup m.values.nodup

/-- Of merges that do not fail, one of a table with another over it writes what the two do. -/
theorem insertAll_written_override {a b c : Merge} (ha : a.fault? = none) (hb : b.fault? = none)
    (hc : c.values = a.values.override b.values) :
    c.fault? = none ∧
      ∀ t : Table Float, t.insertAll c.written = (t.insertAll a.written).insertAll b.written := by
  have hfault : c.fault? = none := by
    apply Value.firstFault?_eq_none_iff.2
    intro entry hentry
    rw [hc] at hentry
    rcases Table.mem_of_mem_override hentry with hmem | hmem
    · exact Value.firstFault?_eq_none_iff.1 ha entry hmem
    · exact Value.firstFault?_eq_none_iff.1 hb entry hmem
  refine ⟨hfault, fun t => ?_⟩
  -- as tables of doubles
  have hdoubles {m : Merge} (hm : m.fault? = none) :
      m.written = (m.values.mapValues Value.double).entries :=
    Value.written_of_firstFault? hm
  rw [hdoubles ha, hdoubles hb, hdoubles hfault, hc, Table.mapValues_override,
    Table.insertAll_override]

end Merge

/-- Merges leave the tables that all their writings make, and each answers by its own values. -/
theorem Scope.mergeAll_eq (s : Scope) (calls : List Merge) :
    s.mergeAll calls =
      ({ s with vars := s.vars.insertAll (calls.flatMap Merge.written) },
        calls.map Merge.fault?) := by
  induction calls generalizing s with
  | nil => rfl
  | cons m calls ih =>
      simp only [mergeAll, Merge.apply_eq, ih, List.flatMap_cons, Table.insertAll_append,
        List.map_cons]

theorem Scope.mergeAll_congr {calls calls' : List Merge}
    (h : calls'.map Merge.values = calls.map Merge.values) (s : Scope) :
    s.mergeAll calls' = s.mergeAll calls := by
  have hwritten (ms : List Merge) : ms.flatMap Merge.written =
      (ms.map Merge.values).flatMap fun values => Value.written values.entries := by
    rw [List.flatMap_map]
    rfl
  have hfaults (ms : List Merge) : ms.map Merge.fault? =
      (ms.map Merge.values).map fun values => Value.firstFault? values.entries := by
    rw [List.map_map]
    rfl
  rw [mergeAll_eq, mergeAll_eq, hwritten, hwritten, hfaults, hfaults, h]

/-- The last calls write into what the others have left. -/
theorem Scope.mergeAll_append (s : Scope) (calls more : List Merge) :
    (s.mergeAll (calls ++ more)).1 =
      { s with
        vars := (s.vars.insertAll (calls.flatMap Merge.written)).insertAll
          (more.flatMap Merge.written) } := by
  rw [mergeAll_eq, List.flatMap_append, Table.insertAll_append]

theorem Merge.flatMap_written_pair (a b : Merge) (t : Table Float) :
    t.insertAll ([a, b].flatMap written) = (t.insertAll a.written).insertAll b.written := by
  rw [List.flatMap_cons, List.flatMap_singleton, Table.insertAll_append]

/-- Merging is a fold over what is written, across calls that fail.
- A name has the double that was written to it last; all other names, and the constants, are as they
  were. A call writes the entries before its first value without a double, and fails if there is one.
- The two names of the operation can be exchanged, call by call.
- If all values have a double, a call and another are one call of the first table with the second over
  it.
- A call that is repeated, whether it fails or not, changes nothing more.
- Calls without a name in common can change places. -/
theorem Scope.merges_last_write_wins (s : Scope) (calls : List Merge) :
    ((∀ front name x back, calls.flatMap Merge.written = front ++ (name, x) :: back →
        name ∉ back.map Prod.fst → (s.mergeAll calls).1.vars.get? name = some x) ∧
      (∀ name, name ∉ (calls.flatMap Merge.written).map Prod.fst →
        (s.mergeAll calls).1.vars.get? name = s.vars.get? name) ∧
      (s.mergeAll calls).1.constants = s.constants ∧
      (s.mergeAll calls).2 = calls.map Merge.fault?) ∧
    (∀ calls' : List Merge, calls'.map Merge.values = calls.map Merge.values →
      s.mergeAll calls' = s.mergeAll calls) ∧
    (∀ a b c : Merge, a.fault? = none → b.fault? = none → c.values = a.values.override b.values →
      c.fault? = none ∧ (s.mergeAll (calls ++ [a, b])).1 = (s.mergeAll (calls ++ [c])).1) ∧
    (∀ m : Merge, (s.mergeAll (calls ++ [m, m])).1 = (s.mergeAll (calls ++ [m])).1) ∧
    ∀ a b : Merge, (∀ name ∈ a.names, name ∉ b.names) → ∀ name,
      (s.mergeAll (calls ++ [a, b])).1.vars.get? name =
        (s.mergeAll (calls ++ [b, a])).1.vars.get? name := by
  refine ⟨⟨?_, ?_, ?_, ?_⟩, ?_, ?_, ?_, ?_⟩
  · intro front name x back hwritten hback
    rw [mergeAll_eq, hwritten]
    show (s.vars.insertAll _).get? name = some x
    rw [Table.insertAll, Table.get?_foldl_insert, Table.lookup_reverse_last front name x hback,
      Option.some_or]
  · intro name hname
    rw [mergeAll_eq]
    show (s.vars.insertAll _).get? name = s.vars.get? name
    rw [Table.insertAll, Table.get?_foldl_insert, Table.lookup_reverse_of_not_mem hname,
      Option.none_or]
  · rw [mergeAll_eq]
  · rw [mergeAll_eq]
  · intro calls' hvalues
    exact mergeAll_congr hvalues s
  · intro a b c ha hb hc
    obtain ⟨hfault, hwritten⟩ := Merge.insertAll_written_override ha hb hc
    refine ⟨hfault, ?_⟩
    rw [mergeAll_append, mergeAll_append, Merge.flatMap_written_pair, List.flatMap_singleton,
      hwritten]
  · intro m
    rw [mergeAll_append, mergeAll_append, Merge.flatMap_written_pair, List.flatMap_singleton,
      Table.insertAll_insertAll_self m.nodup_written]
  · intro a b hnames name
    rw [mergeAll_append, mergeAll_append, Merge.flatMap_written_pair, Merge.flatMap_written_pair]
    refine Table.get?_insertAll_comm (fun n ha hb => ?_) _ name
    have hinner := (Value.names_written a.values.entries).subset ha
    exact hnames n hinner ((Value.names_written b.values.entries).subset hb)

/-- The second value of the first call is no number, so the third is not reached; the second call
overwrites the first value. Two calls that do not fail are one of both tables. -/
theorem Scope.merges_last_write_wins_malformed :
    (([.add (Table.ofList [("x", .integer 1), ("y", .text "two"), ("z", .integer 3)]),
        .update (Table.ofList [("x", .text "5")])] : List Merge).flatMap Merge.written =
          [("x", 1)] ++ ("x", 5) :: [] ∧ "x" ∉ ([] : List (String × Float)).map Prod.fst ∧
      (Scope.builtin.mergeAll
        [.add (Table.ofList [("x", .integer 1), ("y", .text "two"), ("z", .integer 3)]),
          .update (Table.ofList [("x", .text "5")])]).1.vars.get? "x" = some 5) ∧
    (Merge.add (Table.ofList [("x", .integer 1)])).fault? = none ∧
      (Merge.update (Table.ofList [("y", .truth true), ("x", .text "5")])).fault? = none ∧
      (Scope.builtin.mergeAll ([] ++ [.add (Table.ofList [("x", .integer 1)]),
        .update (Table.ofList [("y", .truth true), ("x", .text "5")])])).1 =
        (Scope.builtin.mergeAll ([] ++
          [.add (Table.ofList [("x", .text "5"), ("y", .truth true)])])).1 := by
  have hwritten : ([.add (Table.ofList [("x", .integer 1), ("y", .text "two"), ("z", .integer 3)]),
      .update (Table.ofList [("x", .text "5")])] : List Merge).flatMap Merge.written =
        [("x", 1)] ++ ("x", 5) :: [] := by
    decide +kernel
  have hlast : "x" ∉ ([] : List (String × Float)).map Prod.fst := List.not_mem_nil
  have hfirst : (Merge.add (Table.ofList [("x", .integer 1)])).fault? = none := by decide +kernel
  have hsecond : (Merge.update (Table.ofList [("y", .truth true), ("x", .text "5")])).fault? =
      none := by
    decide +kernel
  refine ⟨⟨hwritten, hlast, ?_⟩, hfirst, hsecond, ?_⟩
  · exact (merges_last_write_wins .builtin _).1.1 _ _ _ _ hwritten hlast
  · exact ((merges_last_write_wins .builtin []).2.2.1 _ _ _ hfirst hsecond
      (Table.ext (by decide +kernel))).2

end Reckoner
