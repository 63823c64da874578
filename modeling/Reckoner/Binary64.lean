/-!
Doubles through their exact values. A finite double is an integer over a power of two
(`Binary64.fraction?`); its integer parts, its parity and its remainders are computed there, and a
result is rounded once, to the nearest double with ties to even.
-/

namespace Reckoner.Binary64

open Float.Model (Format UnpackedFloat)
open Float.Model.UnpackedFloat (Sign)

def nan : Float := Float.ofBits 0x7FF8000000000000

def infinity : Float := Float.ofBits 0x7FF0000000000000

/-- The double nearest to the circle number. -/
def pi : Float := Float.ofBits 0x400921FB54442D18

/-- The double nearest to the base of the natural logarithm. -/
def e : Float := Float.ofBits 0x4005BF0A8B145769

/-- The sign bit, which also tells the two zeros apart. -/
def isNegative (x : Float) : Bool :=
  match x.toModel.unpack with
  | .finite .negative .. | .zero .negative | .infinity .negative => true
  | _ => false

/-- The magnitude of `x` with the sign of `y`. -/
def copySign (x y : Float) : Float :=
  if isNegative y then -x.abs else x.abs

/-- The double nearest to `± m · 2 ^ e`. -/
def ofScaled (sign : Sign) (m : Nat) (e : Int) : Float :=
  .ofModel (.pack (.round Format.binary64 sign m e))

/-- A finite double as a quotient `n / d`; `d` is a power of two. -/
def fraction? (x : Float) : Option (Int × Nat) :=
  match x.toModel.unpack with
  | .finite sign m e _ => some (sign.apply (m <<< e.toNat), 1 <<< (-e).toNat)
  | .zero _ => some (0, 1)
  | .infinity _ | .notANumber => none

/-- The integer part of a finite double. -/
def truncate? (x : Float) : Option Int :=
  (fraction? x).map fun (n, d) => n.tdiv d

def floor? (x : Float) : Option Int :=
  (fraction? x).map fun (n, d) => n.fdiv d

def ceil? (x : Float) : Option Int :=
  (fraction? x).map fun (n, d) => -(-n).fdiv d

/-- Whether a double is a given integer. -/
def isInteger (x : Float) (n : Int) : Bool :=
  match fraction? x with
  | some (m, d) => m = n * d
  | none => false

/-- What is left of `a` after taking away a whole number of times `b`, nearest to zero and with the
sign of `a`; it is exact. -/
def remainder (a b : Float) : Float :=
  match a.toModel.unpack, b.toModel.unpack with
  | .finite sign m e _, .finite _ n f _ =>
    let low := min e f
    ofScaled sign ((m <<< (e - low).toNat) % (n <<< (f - low).toNat)) low
  | .finite .., .infinity _ | .zero _, .finite .. | .zero _, .infinity _ => a
  | _, _ => nan

end Reckoner.Binary64
