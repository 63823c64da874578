import Reckoner.Checked

/-!
Arithmetic on doubles. Every operation is made of ones that may fail, guarded so that it has a result
for every pair of doubles: what has no number is "no number" or an infinity.
-/

namespace Reckoner.Arithmetic

open Binary64 (nan infinity copySign)

/-- The quotient; a zero divisor gives a signed infinity, or no number if nothing is divided. -/
def divide (a b : Float) : Except MathFault Float :=
  if b == 0 then
    if a == 0 || a.isNaN then return nan else return copySign infinity a * copySign 1 b
  else Checked.quotient a b

/-- The remainder, brought up to zero or above by one magnitude of the divisor. -/
def modulo (a b : Float) : Except MathFault Float :=
  if b == 0 || !a.isFinite then return nan
  else do
    let r ← Checked.remainder a b
    return if r < 0 then r + b.abs else r

/-- Whether `x` is finite, integral and odd. -/
def isOddInteger (x : Float) : Except MathFault Bool :=
  if x.isFinite then do
    let n ← Checked.floor x
    return Binary64.isInteger x n && n % 2 = 1
  else return false

/-- The real power, from a function that computes it where it is finite. What is refused gets its
value back: an overflow and a negative power of zero are infinite, with the sign of the base where
the exponent is odd. -/
def powerBy (pow : Float → Float → Float) (base exponent : Float) : Except MathFault Float :=
  match Checked.power pow base exponent with
  | .ok value => return value
  | .error fault =>
    match fault.kind with
    | .range => do
      if base < 0 then
        return if ← isOddInteger exponent then -infinity else infinity
      else return infinity
    | .domain => do
      if base == 0 && exponent < 0 then
        return if ← isOddInteger exponent then copySign infinity base else infinity
      else return nan
    | .division => throw fault

/-- The largest number whose factorial is finite as a double. -/
def largestFactorial : Float := 170

/-- The product `2 · 3 ⋯ n`, rounded after every step. -/
def product (n : Nat) : Except MathFault Float :=
  (List.range' 2 (n - 1)).foldlM (fun total i => return total * (← Checked.ofInteger (i : Nat))) 1

/-- The factorial of the integer part; no number below zero, infinite where it is too large. -/
def factorial (x : Float) : Except MathFault Float :=
  if x.isNaN || x < 0 then return nan
  else if x == 0 || x == 1 then return 1
  else if x ≥ largestFactorial + 1 then return infinity
  else do product (← Checked.truncate x).toNat

/-- Whether `r` of `n` things cannot be taken. -/
def outOfReach (n r : Float) : Bool := n < r || n < 0 || r < 0

def combinations (n r : Float) : Except MathFault Float :=
  if outOfReach n r then return nan
  else do divide (← factorial n) ((← factorial r) * (← factorial (n - r)))

def permutations (n r : Float) : Except MathFault Float :=
  if outOfReach n r then return nan else do divide (← factorial n) (← factorial (n - r))

section Elementary

variable [Elementary]

def power : Float → Float → Except MathFault Float := powerBy Elementary.pow

/-- The exponential, infinite where it is too large. -/
def exp (x : Float) : Except MathFault Float := MathFault.handle .range infinity (Checked.exp x)

def sinh (x : Float) : Except MathFault Float := do
  Checked.quotient ((← exp x) - (← exp (-x))) 2

def cosh (x : Float) : Except MathFault Float := do
  Checked.quotient ((← exp x) + (← exp (-x))) 2

/-- The quotient of the two; far from zero it is one, with the sign of `x`. -/
def tanh (x : Float) : Except MathFault Float :=
  if x.abs > 20 then return copySign 1 x else do Checked.quotient (← sinh x) (← cosh x)

end Elementary

end Reckoner.Arithmetic
