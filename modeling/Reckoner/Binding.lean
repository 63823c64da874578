import Reckoner.Text.Character
import Reckoner.Value

/-!
Bindings `NAME=VALUE`, divided at the first equals sign; blanks around both parts do not count.
-/

namespace Reckoner

/-- Why a text is no binding. -/
inductive BindingFault
  /-- There is no equals sign, or no identifier before it. -/
  | malformed (text : String)
  | value (fault : ValueFault)
  deriving DecidableEq, Repr

namespace BindingFault

def message : BindingFault → String
  | .malformed s => "Invalid variable binding: " ++ Text.quote s ++ " (expected NAME=VALUE)"
  | .value fault => fault.message

end BindingFault

namespace Binding

/-- The identifier before the first equals sign, and the text after it. -/
def split? (text : String) : Option (String × String) :=
  match text.toList.span (· ≠ '=') with
  | (_, []) => none
  | (front, _ :: rest) =>
    let name := Text.strip Text.isBlank front
    if Text.isName name then some (String.ofList name, String.ofList rest) else none

def parse (text : String) : Except BindingFault (String × Float) :=
  match split? text with
  | none => throw (.malformed text)
  | some (name, rest) =>
    match Value.ofText (Text.trim rest) with
    | .ok x => return (name, x)
    | .error fault => throw (.value fault)

end Binding
end Reckoner
