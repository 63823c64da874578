import Reckoner.Decimal.Basic
import Reckoner.Value

/-!
Values as they are shown: with a set number of significant digits, or as they are if they have no
double.
-/

namespace Reckoner

/-- Why a number of digits cannot be met. -/
inductive PrecisionFault
  | negative
  /-- More than can be written out. -/
  | tooBig
  /-- More than can be counted. -/
  | uncountable
  deriving DecidableEq, Repr

namespace PrecisionFault

def message : PrecisionFault → String
  | .negative => "Format specifier missing precision"
  | .tooBig => "precision too big"
  | .uncountable => "Too many decimal digits in format string"

end PrecisionFault

/-- The number of digits that a precision asks for. -/
def precisionDigits (precision : Int) : Except PrecisionFault Nat :=
  if precision < 0 then throw .negative
  else if 0x8000000000000000 ≤ precision then throw .uncountable
  else if 0x80000000 ≤ precision then throw .tooBig
  else return precision.toNat

/-- A double in significant digits; an infinity and no number are shown whatever the precision. -/
def displayFloat (precision : Int) (x : Float) : Except PrecisionFault String :=
  if x.isFinite then (precisionDigits precision).map fun p => Decimal.significantText p x
  else return Decimal.significantText 1 x

def Value.display (precision : Int) (v : Value) : Except PrecisionFault String :=
  match v.toFloat with
  | .ok x => displayFloat precision x
  | .error _ => return v.plain

end Reckoner
