import Mathlib.Data.List.Nodup
import Reckoner.Session

/-!
The tables of a session. Each scope is on two tables that no other scope is on, and the constants
known from the start are on a table of their own; a scope that is made, by copying or not, gets tables
made for it. So what is written into one scope is to be seen in that scope alone.
-/

namespace Reckoner

namespace Cell

def addresses (c : Cell) : List Nat := [c.constants, c.vars]

theorem constants_mem (c : Cell) : c.constants ∈ c.addresses := List.mem_cons_self

theorem vars_mem (c : Cell) : c.vars ∈ c.addresses :=
  List.mem_cons_of_mem _ (List.mem_singleton_self _)

end Cell

/-- The built-in constants with the variables of a scope. -/
def Scope.copy (s : Scope) : Scope := { vars := s.vars }

theorem Scope.copy_eq_self {s : Scope} (h : s.constants = builtin.constants) : s.copy = s := by
  cases s
  cases h
  rfl

namespace Session

/-- Where the tables of the scopes are. -/
def addresses (s : Session) : List Nat := s.scopes.flatMap Cell.addresses

/-- Objects work on scopes that are there, and scopes on tables that are there, none of which is also
that of another scope. -/
structure WellFormed (s : Session) : Prop where
  builtin : s.tables[builtinAddress]? = some Scope.builtin.constants
  inRange : ∀ address ∈ s.addresses, address < s.tables.length
  distinct : (builtinAddress :: s.addresses).Nodup
  objects : ∀ ⦃id object⦄, s.objects.get? id = some object → object.index < s.scopes.length

variable {s next : Session} {index : Nat} {cell : Cell}

theorem wellFormed_empty (limits : Limits) : (empty limits).WellFormed where
  builtin := rfl
  inRange := nofun
  distinct := List.nodup_singleton _
  objects := nofun

/-! ### Scopes and their tables -/

theorem exists_cell (h : index < s.scopes.length) : ∃ cell, s.scopes[index]? = some cell :=
  ⟨_, List.getElem?_eq_getElem h⟩

theorem scopeAt_of_cell (h : s.scopes[index]? = some cell) :
    s.scopeAt index = ⟨s.tableAt cell.constants, s.tableAt cell.vars⟩ := by
  simp only [scopeAt, h]

theorem mem_addresses (h : s.scopes[index]? = some cell) {address : Nat}
    (haddress : address ∈ cell.addresses) : address ∈ s.addresses :=
  List.mem_flatMap.2 ⟨cell, List.mem_of_getElem? h, haddress⟩

namespace WellFormed

variable (hs : s.WellFormed)
include hs

theorem constants_ne_vars (h : s.scopes[index]? = some cell) : cell.constants ≠ cell.vars := by
  have hnodup := (List.nodup_flatMap.1 (List.nodup_cons.1 hs.distinct).2).1 cell
    (List.mem_of_getElem? h)
  simpa [Cell.addresses] using hnodup

/-- No table is that of two scopes. -/
theorem disjoint {i j : Nat} {c c' : Cell} (hc : s.scopes[i]? = some c)
    (hc' : s.scopes[j]? = some c') (h : i ≠ j) : c.addresses.Disjoint c'.addresses := by
  obtain ⟨hi, rfl⟩ := List.getElem?_eq_some_iff.1 hc
  obtain ⟨hj, rfl⟩ := List.getElem?_eq_some_iff.1 hc'
  have hpairs := List.pairwise_iff_getElem.1
    (List.nodup_flatMap.1 (List.nodup_cons.1 hs.distinct).2).2
  rcases Nat.lt_or_gt_of_ne h with hlt | hgt
  · exact hpairs i j hi hj hlt
  · exact List.disjoint_symm (hpairs j i hj hi hgt)

theorem ne_builtinAddress {address : Nat} (h : address ∈ s.addresses) :
    address ≠ builtinAddress := by
  rintro rfl
  exact (List.nodup_cons.1 hs.distinct).1 h

theorem tableAt_builtinAddress : s.tableAt builtinAddress = Scope.builtin.constants := by
  rw [tableAt, List.getD_eq_getElem?_getD, hs.builtin, Option.getD_some]

end WellFormed

/-! ### A scope is added -/

/-- One more scope is there, with given tables in it, which have been made for it; the others are as
they were. -/
structure Added (s : Session) (scope : Scope) (next : Session) : Prop where
  limits : next.limits = s.limits
  objects : next.objects = s.objects
  wellFormed : next.WellFormed
  fresh : ∃ cell, next.scopes = s.scopes ++ [cell] ∧
    ∀ address ∈ cell.addresses, s.tables.length ≤ address
  scopeAt : ∀ i, next.scopeAt i = if i = s.scopes.length then scope else s.scopeAt i

theorem Added.length {scope : Scope} (h : s.Added scope next) :
    next.scopes.length = s.scopes.length + 1 := by
  obtain ⟨cell, hscopes, -⟩ := h.fresh
  rw [hscopes, List.length_append, List.length_singleton]

section Made

variable {made : List (Table Float)} (htables : next.tables = s.tables ++ made)
  (hscopes : next.scopes = s.scopes ++ [cell])

include htables

theorem tableAt_of_lt {address : Nat} (h : address < s.tables.length) :
    next.tableAt address = s.tableAt address := by
  rw [tableAt, tableAt, htables, List.getD_eq_getElem?_getD, List.getD_eq_getElem?_getD,
    List.getElem?_append_left h]

include hscopes

theorem WellFormed.scopeAt_append (hs : s.WellFormed) (i : Nat) :
    next.scopeAt i = if i = s.scopes.length then
      ⟨next.tableAt cell.constants, next.tableAt cell.vars⟩ else s.scopeAt i := by
  rcases Nat.lt_trichotomy i s.scopes.length with hlt | rfl | hgt
  · obtain ⟨c, hc⟩ := exists_cell hlt
    have hfound : next.scopes[i]? = some c := by
      rw [hscopes, List.getElem?_append_left hlt, hc]
    have hold : ∀ address ∈ c.addresses, next.tableAt address = s.tableAt address :=
      fun address hmem => tableAt_of_lt htables (hs.inRange address (mem_addresses hc hmem))
    rw [if_neg (Nat.ne_of_lt hlt), scopeAt_of_cell hfound, scopeAt_of_cell hc,
      hold _ c.constants_mem, hold _ c.vars_mem]
  · have hfound : next.scopes[s.scopes.length]? = some cell := by
      rw [hscopes, List.getElem?_concat_length]
    rw [if_pos rfl, scopeAt_of_cell hfound]
  · have hnone : s.scopes[i]? = none := List.getElem?_eq_none (Nat.le_of_lt hgt)
    have hnone' : next.scopes[i]? = none := by
      rw [hscopes]
      refine List.getElem?_eq_none ?_
      rw [List.length_append, List.length_singleton]
      exact hgt
    rw [if_neg (Nat.ne_of_gt hgt), scopeAt, scopeAt, hnone, hnone']

/-- Tables are made, and a scope on two of them. -/
theorem WellFormed.added (hs : s.WellFormed) (hlimits : next.limits = s.limits)
    (hobjects : next.objects = s.objects)
    (hfresh : ∀ address ∈ cell.addresses, s.tables.length ≤ address)
    (hmade : ∀ address ∈ cell.addresses, address < s.tables.length + made.length)
    (hne : cell.constants ≠ cell.vars) {scope : Scope}
    (hscope : scope = ⟨next.tableAt cell.constants, next.tableAt cell.vars⟩) :
    s.Added scope next := by
  have haddresses : next.addresses = s.addresses ++ cell.addresses := by
    simp [Session.addresses, hscopes]
  have hbuiltin : builtinAddress < s.tables.length :=
    (List.getElem?_eq_some_iff.1 hs.builtin).1
  refine ⟨hlimits, hobjects, ⟨?_, ?_, ?_, ?_⟩, ⟨cell, hscopes, hfresh⟩, ?_⟩
  · rw [htables, List.getElem?_append_left hbuiltin, hs.builtin]
  · intro address haddress
    rw [htables, List.length_append]
    rcases List.mem_append.1 (haddresses ▸ haddress) with hmem | hmem
    · exact Nat.lt_add_right _ (hs.inRange address hmem)
    · exact hmade address hmem
  · have hcell : cell.addresses.Nodup := by simpa [Cell.addresses] using hne
    rw [haddresses, ← List.cons_append]
    refine hs.distinct.append hcell fun address hmem hnew => ?_
    have hlt : address < s.tables.length := by
      rcases List.mem_cons.1 hmem with rfl | hmem
      · exact hbuiltin
      · exact hs.inRange address hmem
    exact absurd (hfresh address hnew) (Nat.not_le_of_lt hlt)
  · intro id object hid
    rw [hscopes, List.length_append]
    exact Nat.lt_add_right _ (hs.objects (hobjects ▸ hid))
  · rw [hscope]
    exact hs.scopeAt_append htables hscopes

end Made

/-- A new scope has the built-in names alone. -/
theorem WellFormed.newScope (hs : s.WellFormed) : s.Added .builtin s.newScope.1 := by
  have htables : s.newScope.1.tables = s.tables ++ [Scope.builtin.constants, ∅] := by
    simp [Session.newScope, allocate, hs.tableAt_builtinAddress]
  have hscopes : s.newScope.1.scopes = s.scopes ++ [⟨s.tables.length, s.tables.length + 1⟩] := by
    simp [Session.newScope, allocate]
  refine hs.added htables hscopes rfl rfl ?_ ?_ ?_ ?_
  · simp [Cell.addresses]
  · simp [Cell.addresses]
  · exact Nat.ne_of_lt (Nat.lt_succ_self _)
  · simp [tableAt, htables, Scope.builtin]

/-- A copy is on tables of its own, the built-in constants in the one and the variables of the scope,
as they are, in the other. -/
theorem WellFormed.copyScope (hs : s.WellFormed) (hindex : index < s.scopes.length) :
    s.Added (s.scopeAt index).copy (s.copyScope index).1 := by
  have hvars : s.newScope.1.scopeAt index = s.scopeAt index := by
    rw [hs.newScope.scopeAt, if_neg (Nat.ne_of_lt hindex)]
  have htables : (s.copyScope index).1.tables =
      s.tables ++ [Scope.builtin.constants, ∅, (s.scopeAt index).vars] := by
    rw [← hvars]
    simp [Session.copyScope, Session.newScope, allocate, hs.tableAt_builtinAddress]
  have hscopes : (s.copyScope index).1.scopes =
      s.scopes ++ [⟨s.tables.length, s.tables.length + 2⟩] := by
    simp [Session.copyScope, Session.newScope, allocate, List.modify_eq_set_getElem?]
  refine hs.added htables hscopes rfl rfl ?_ ?_ ?_ ?_
  · simp [Cell.addresses]
  · simp [Cell.addresses]
  · exact Nat.ne_of_lt (Nat.lt_add_of_pos_right (Nat.succ_pos _))
  · simp [tableAt, htables, Scope.copy, Scope.builtin]

/-! ### A scope is written into -/

/-- Given tables are in a scope; the others are as they were. -/
structure Written (s : Session) (index : Nat) (scope : Scope) (next : Session) : Prop where
  limits : next.limits = s.limits
  objects : next.objects = s.objects
  wellFormed : next.WellFormed
  length : next.scopes.length = s.scopes.length
  scopeAt : ∀ i, next.scopeAt i = if i = index then scope else s.scopeAt i

theorem tableAt_write {address : Nat} (h : address < s.tables.length) (t : Table Float) (a : Nat) :
    (s.write address t).tableAt a = if a = address then t else s.tableAt a := by
  rw [tableAt, tableAt, write, List.getD_eq_getElem?_getD, List.getD_eq_getElem?_getD,
    List.getElem?_set]
  by_cases ha : a = address
  · rw [if_pos ha, if_pos ha.symm, if_pos h, Option.getD_some]
  · rw [if_neg ha, if_neg (Ne.symm ha)]

theorem WellFormed.write (hs : s.WellFormed) {address : Nat} (h : address ≠ builtinAddress)
    (t : Table Float) : (s.write address t).WellFormed where
  builtin := by rw [Session.write, List.getElem?_set_ne h, hs.builtin]
  inRange a ha := by
    rw [Session.write, List.length_set]
    exact hs.inRange a ha
  distinct := hs.distinct
  objects := hs.objects

/-- One of the tables of a scope is written. -/
theorem WellFormed.written (hs : s.WellFormed) (hcell : s.scopes[index]? = some cell) {address : Nat}
    (haddress : address ∈ cell.addresses) (t : Table Float) {scope : Scope}
    (hscope : scope =
      ⟨(s.write address t).tableAt cell.constants, (s.write address t).tableAt cell.vars⟩) :
    s.Written index scope (s.write address t) := by
  have hmem : address ∈ s.addresses := mem_addresses hcell haddress
  refine ⟨rfl, rfl, hs.write (hs.ne_builtinAddress hmem) t, rfl, fun i => ?_⟩
  by_cases hi : i = index
  · have hfound : (s.write address t).scopes[i]? = some cell := hi ▸ hcell
    rw [if_pos hi, scopeAt_of_cell hfound, hscope]
  · rw [if_neg hi]
    cases hc : s.scopes[i]? with
    | none =>
        have hnone : (s.write address t).scopes[i]? = none := hc
        rw [scopeAt, scopeAt, hc, hnone]
    | some c =>
        have hfound : (s.write address t).scopes[i]? = some c := hc
        have hother : ∀ a ∈ c.addresses, (s.write address t).tableAt a = s.tableAt a := by
          intro a ha
          have hne : a ≠ address := by
            rintro rfl
            exact hs.disjoint hc hcell hi ha haddress
          rw [tableAt_write (hs.inRange address hmem), if_neg hne]
        rw [scopeAt_of_cell hfound, scopeAt_of_cell hc, hother _ c.constants_mem,
          hother _ c.vars_mem]

theorem WellFormed.setVars (hs : s.WellFormed) (hindex : index < s.scopes.length) (t : Table Float) :
    s.Written index ⟨(s.scopeAt index).constants, t⟩ (s.setVars index t) := by
  obtain ⟨cell, hcell⟩ := exists_cell hindex
  have hlt : cell.vars < s.tables.length := hs.inRange _ (mem_addresses hcell cell.vars_mem)
  simp only [Session.setVars, hcell]
  refine hs.written hcell cell.vars_mem t ?_
  rw [tableAt_write hlt, tableAt_write hlt, if_neg (hs.constants_ne_vars hcell), if_pos rfl,
    scopeAt_of_cell hcell]

theorem WellFormed.setConstants (hs : s.WellFormed) (hindex : index < s.scopes.length)
    (t : Table Float) :
    s.Written index ⟨t, (s.scopeAt index).vars⟩ (s.setConstants index t) := by
  obtain ⟨cell, hcell⟩ := exists_cell hindex
  have hlt : cell.constants < s.tables.length :=
    hs.inRange _ (mem_addresses hcell cell.constants_mem)
  simp only [Session.setConstants, hcell]
  refine hs.written hcell cell.constants_mem t ?_
  rw [tableAt_write hlt, tableAt_write hlt, if_pos rfl, if_neg (hs.constants_ne_vars hcell).symm,
    scopeAt_of_cell hcell]

end Session
end Reckoner
