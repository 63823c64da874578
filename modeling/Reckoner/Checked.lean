import Reckoner.Binary64

/-!
Operations on doubles that fail at some arguments: quotients, remainders, conversions from and to
integers, and the elementary functions. A failure is of a kind, and it is by their kind that failures
are handled.
-/

namespace Reckoner

/-- How an operation on doubles fails. -/
inductive MathFault
  /-- A division by zero. -/
  | zeroDivisor
  /-- There is no value at the argument. -/
  | outside
  /-- The value is beyond the largest double. -/
  | overflow
  /-- The integer part of an infinity was asked for, -/
  | infinitePart
  /-- or that of what is no number. -/
  | noPart
  /-- An integer is beyond the largest double. -/
  | tooLarge
  deriving DecidableEq, Repr

namespace MathFault

inductive Kind
  | division | domain | range
  deriving DecidableEq, Repr

def kind : MathFault → Kind
  | .zeroDivisor => .division
  | .outside | .noPart => .domain
  | .overflow | .infinitePart | .tooLarge => .range

def message : MathFault → String
  | .zeroDivisor => "float division by zero"
  | .outside => "math domain error"
  | .overflow => "math range error"
  | .infinitePart => "cannot convert float infinity to integer"
  | .noPart => "cannot convert float NaN to integer"
  | .tooLarge => "int too large to convert to float"

/-- Goes on with a value after a failure of a kind. -/
def handle (kind : Kind) (value : Float) : Except MathFault Float → Except MathFault Float
  | .ok x => return x
  | .error fault => if fault.kind = kind then return value else throw fault

end MathFault

/-- The elementary functions, as a platform computes them. -/
class Elementary where
  sin : Float → Float
  cos : Float → Float
  tan : Float → Float
  exp : Float → Float
  log : Float → Float
  log10 : Float → Float
  atan2 : Float → Float → Float
  pow : Float → Float → Float

/-- The platform that this runs on. -/
instance Elementary.native : Elementary :=
  ⟨Float.sin, Float.cos, Float.tan, Float.exp, Float.log, Float.log10, Float.atan2, Float.pow⟩

namespace Checked

def quotient (a b : Float) : Except MathFault Float :=
  if b == 0 then throw .zeroDivisor else return a / b

/-- The remainder with the sign of the dividend; there is none for a zero divisor or an infinite
dividend. -/
def remainder (a b : Float) : Except MathFault Float :=
  let r := Binary64.remainder a b
  if r.isNaN && !a.isNaN && !b.isNaN then throw .outside else return r

/-- An integer part; only numbers have one. -/
def part (part? : Float → Option Int) (x : Float) : Except MathFault Int :=
  match part? x with
  | some n => return n
  | none => throw (if x.isNaN then .noPart else .infinitePart)

def truncate : Float → Except MathFault Int := part Binary64.truncate?

def floor : Float → Except MathFault Int := part Binary64.floor?

def ceil : Float → Except MathFault Int := part Binary64.ceil?

/-- The double nearest to an integer, if there is a finite one. -/
def ofInteger (n : Int) : Except MathFault Float :=
  if n.natAbs.log2 < 1024 && (Float.ofInt n).isFinite then return Float.ofInt n
  else throw .tooLarge

def sqrt (x : Float) : Except MathFault Float :=
  if x < 0 then throw .outside else return x.sqrt

section Elementary

variable [Elementary]

/-- A circular function, which has no value at an infinite angle. -/
def circular (f : Float → Float) (x : Float) : Except MathFault Float :=
  if x.isInf then throw .outside else return f x

def sin : Float → Except MathFault Float := circular Elementary.sin

def cos : Float → Except MathFault Float := circular Elementary.cos

def tan : Float → Except MathFault Float := circular Elementary.tan

/-- A logarithm, which has no value but above zero. -/
def logarithm (f : Float → Float) (x : Float) : Except MathFault Float :=
  if x ≤ 0 then throw .outside else return f x

def log : Float → Except MathFault Float := logarithm Elementary.log

def log10 : Float → Except MathFault Float := logarithm Elementary.log10

/-- The exponential, refused where it is too large for a double. -/
def exp (x : Float) : Except MathFault Float :=
  let value := Elementary.exp x
  if x.isFinite && value.isInf then throw .overflow else return value

end Elementary

/-- A power as `pow` computes it, refused where finite operands give no finite one: it is too large,
or no real number, or a negative power of zero. -/
def power (pow : Float → Float → Float) (base exponent : Float) : Except MathFault Float :=
  let value := pow base exponent
  if base.isFinite && exponent.isFinite then
    if value.isNaN then throw .outside
    else if value.isInf then throw (if base == 0 then .outside else .overflow)
    else return value
  else return value

end Checked
end Reckoner
