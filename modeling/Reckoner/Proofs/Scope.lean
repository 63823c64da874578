import Reckoner.Scope
import Reckoner.Token.Basic

/-!
What two scopes have in common: at a token, and at a name with the role that it has.
-/

namespace Reckoner.Scope

/-- Two scopes give a token the same value, if it names one. -/
def AgreesOn (s s' : Scope) : Token → Prop
  | .var name => s.vars.get? name = s'.vars.get? name
  | .const name => s.constants.get? name = s'.constants.get? name
  | _ => True

/-- A name means the same in two scopes: its role, and its value in that role. -/
structure SameAt (s s' : Scope) (name : String) : Prop where
  role : s.role? name = s'.role? name
  const : s.role? name = some .const → s.constants.get? name = s'.constants.get? name
  var : s.role? name = some .var → s.vars.get? name = s'.vars.get? name

/-- Two scopes have the same tables, in whatever order their names were given. -/
structure SameTables (s s' : Scope) : Prop where
  constants : ∀ name, s.constants.get? name = s'.constants.get? name
  vars : ∀ name, s.vars.get? name = s'.vars.get? name

variable {s s' : Scope} {name : String}

/-- A name with a value among the constants, or that of a function, means nothing else. -/
theorem role?_eq_var_iff :
    s.role? name = some .var ↔ Builtin.ofName? name = none ∧ s.constants.get? name = none ∧
      (s.vars.get? name).isSome := by
  unfold role? Table.contains
  cases Builtin.ofName? name <;> cases s.constants.get? name <;> cases s.vars.get? name <;> simp

theorem role?_eq_func_iff : s.role? name = some .func ↔ (Builtin.ofName? name).isSome := by
  unfold role? Table.contains
  cases Builtin.ofName? name <;> cases s.constants.get? name <;> cases s.vars.get? name <;> simp

theorem role?_eq_const_iff :
    s.role? name = some .const ↔
      Builtin.ofName? name = none ∧ (s.constants.get? name).isSome := by
  unfold role? Table.contains
  cases Builtin.ofName? name <;> cases s.constants.get? name <;> cases s.vars.get? name <;> simp

/-- A name among the variables has a role, be it that of a variable or not. -/
theorem exists_role_of_var (h : s.vars.contains name) : ∃ r, s.role? name = some r := by
  unfold role?
  rw [if_pos h]
  split
  · exact ⟨_, rfl⟩
  split
  · exact ⟨_, rfl⟩
  · exact ⟨_, rfl⟩

/-- With the same constants, a name means the same if it is a function, a constant, or has the same
value as a variable. -/
theorem sameAt_of_vars (hconstants : s.constants = s'.constants)
    (h : Builtin.ofName? name = none → s.constants.get? name = none →
      s.vars.get? name = s'.vars.get? name) : s.SameAt s' name := by
  refine ⟨?_, fun _ => by rw [hconstants], fun hrole => ?_⟩
  · unfold role? Table.contains
    rw [← hconstants]
    cases hfunction : Builtin.ofName? name with
    | some f => rfl
    | none =>
      cases hconstant : s.constants.get? name with
      | some x => rfl
      | none => rw [h hfunction hconstant]
  · obtain ⟨hfunction, hconstant, -⟩ := role?_eq_var_iff.1 hrole
    exact h hfunction hconstant

theorem SameTables.sameAt (h : s.SameTables s') (name : String) : s.SameAt s' name where
  role := by
    unfold role? Table.contains
    rw [h.constants, h.vars]
  const _ := h.constants name
  var _ := h.vars name

end Reckoner.Scope
