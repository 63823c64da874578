import Reckoner.Builtin
import Reckoner.Table
import Reckoner.Value

/-!
Scopes: the names that an expression may use. A name is a function first, then a constant, then a
variable; the functions are the same in every scope.
-/

namespace Reckoner

structure Scope where
  constants : Table Float := Table.ofList builtinConstants
  vars : Table Float := ∅

/-- What a name stands for. -/
inductive Role
  | func | const | var
  deriving DecidableEq, Repr

namespace Scope

/-- The built-in names alone. -/
def builtin : Scope := {}

def role? (s : Scope) (name : String) : Option Role :=
  if (Builtin.ofName? name).isSome then some .func
  else if s.constants.contains name then some .const
  else if s.vars.contains name then some .var
  else none

def setConstant (s : Scope) (name : String) (value : Float) : Scope :=
  { s with constants := s.constants.insert name value }

def setVariable (s : Scope) (name : String) (value : Float) : Scope :=
  { s with vars := s.vars.insert name value }

@[simp] theorem vars_setConstant (s : Scope) (name : String) (value : Float) :
    (s.setConstant name value).vars = s.vars := rfl

@[simp] theorem constants_setConstant (s : Scope) (name : String) (value : Float) :
    (s.setConstant name value).constants = s.constants.insert name value := rfl

@[simp] theorem vars_setVariable (s : Scope) (name : String) (value : Float) :
    (s.setVariable name value).vars = s.vars.insert name value := rfl

@[simp] theorem constants_setVariable (s : Scope) (name : String) (value : Float) :
    (s.setVariable name value).constants = s.constants := rfl

/-- Binds the names in order, up to the first value that has no double; what is bound before it
stays bound. -/
def bindAll (s : Scope) : List (String × Value) → Scope × Option ValueFault
  | [] => (s, none)
  | (name, value) :: rest =>
    match value.toFloat with
    | .ok x => bindAll (s.setVariable name x) rest
    | .error fault => (s, some fault)

/-- Merges a table of values into the variables. -/
def add (s : Scope) (values : Table Value) : Scope × Option ValueFault := s.bindAll values.entries

/-- Merges a table of values into the variables, of which some may be there already. -/
def update (s : Scope) (values : Table Value) : Scope × Option ValueFault := s.add values

@[simp] theorem constants_bindAll (s : Scope) (values : List (String × Value)) :
    (s.bindAll values).1.constants = s.constants := by
  induction values generalizing s with
  | nil => rfl
  | cons entry rest ih =>
      unfold bindAll
      cases entry.2.toFloat with
      | ok x => exact ih _
      | error fault => rfl

@[simp] theorem constants_add (s : Scope) (values : Table Value) :
    (s.add values).1.constants = s.constants :=
  constants_bindAll ..

@[simp] theorem constants_update (s : Scope) (values : Table Value) :
    (s.update values).1.constants = s.constants :=
  s.constants_add values

end Scope
end Reckoner
