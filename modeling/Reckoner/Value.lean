import Reckoner.Checked
import Reckoner.Decimal.Numeral
import Reckoner.Decimal.Shortest
import Reckoner.Text.Quoted

/-!
Values as they are handed in for variables: doubles, integers of any size, truth values, texts that
are to be read as numerals, and nothing at all.
-/

namespace Reckoner

inductive Value
  | real (x : Float)
  | integer (n : Int)
  | truth (b : Bool)
  | text (s : String)
  | nothing
  deriving DecidableEq

/-- Why a value has no double. -/
inductive ValueFault
  /-- An integer beyond the largest double. -/
  | tooLarge
  | nothing
  | malformed (text : String)
  deriving DecidableEq, Repr

namespace ValueFault

def message : ValueFault → String
  | .tooLarge => "int too large to convert to float"
  | .nothing => "float() argument must be a string or a real number, not 'NoneType'"
  | .malformed s => "could not convert string to float: " ++ Text.quote s

end ValueFault

namespace Value

/-- The double that a text denotes. -/
def ofText (s : String) : Except ValueFault Float :=
  match Numeral.real? s with
  | some x => return x
  | none => throw (.malformed s)

def toFloat : Value → Except ValueFault Float
  | .real x => return x
  | .integer n => (Checked.ofInteger n).mapError fun _ => .tooLarge
  | .truth b => return if b then 1 else 0
  | .text s => ofText s
  | .nothing => throw .nothing

/-- The value as a text, for one that has no double. -/
def plain : Value → String
  | .real x => Decimal.shortestText x
  | .integer n => toString n
  | .truth b => if b then "True" else "False"
  | .text s => s
  | .nothing => "None"

end Value
end Reckoner
