/-!
Decimals `coefficient · 10 ^ exponent`, and how one is laid out: with a point among its digits, or
in scientific form with a signed exponent of at least two digits. A double can be written with a set
number of significant digits, zeros at the end left away.
-/

namespace Reckoner

structure Decimal where
  coefficient : Nat
  exponent : Int
  deriving DecidableEq, Repr

/-- What is left open by the form of a written decimal. -/
structure Layout where
  /-- The largest number of digits that may stand before the point. -/
  wholeDigits : Nat
  /-- Whether a whole number is written with `.0` after it. -/
  pointKept : Bool

namespace Decimal

def digits (d : Decimal) : List Char := Nat.toDigits 10 d.coefficient

/-- How many of the digits stand before the point; negative when zeros follow the point first. -/
def point (d : Decimal) : Int := d.digits.length + d.exponent

/-- The same value without zeros at the end of its coefficient. -/
def trim (d : Decimal) : Decimal :=
  if d.coefficient ≠ 0 ∧ d.coefficient % 10 = 0 then
    trim ⟨d.coefficient / 10, d.exponent + 1⟩
  else d
termination_by d.coefficient
decreasing_by omega

/-- Digits with a point after the first `point` of them. -/
def positional (digits : List Char) (point : Int) (pointKept : Bool) : List Char :=
  if point ≤ 0 then
    '0' :: '.' :: List.replicate (-point).toNat '0' ++ digits
  else if digits.length ≤ point then
    digits ++ List.replicate (point.toNat - digits.length) '0' ++ if pointKept then ['.', '0'] else []
  else
    digits.take point.toNat ++ '.' :: digits.drop point.toNat

/-- Digits with a point after the first of them, and the power of ten that makes up for it. -/
def scientific (digits : List Char) (exponent : Int) : List Char :=
  let power := Nat.toDigits 10 exponent.natAbs
  digits.take 1 ++ (if digits.length ≤ 1 then [] else '.' :: digits.drop 1)
    ++ 'e' :: (if exponent < 0 then '-' else '+')
    :: List.replicate (2 - power.length) '0' ++ power

/-- Positional from `0.0001` up to the layout's number of whole digits, else scientific. -/
def write (layout : Layout) (d : Decimal) : List Char :=
  if -4 < d.point ∧ d.point ≤ layout.wholeDigits then
    positional d.digits d.point layout.pointKept
  else scientific d.digits (d.point - 1)

/-- Ten to a power; one for a power below zero. -/
def tens (k : Int) : Nat := Nat.pow 10 k.toNat

/-- The `k` with `10 ^ (k - 1) ≤ n / d < 10 ^ k`, for positive `n` and `d`. -/
def magnitude (n d : Nat) : Int :=
  let k : Int := (Nat.toDigits 10 n).length - (Nat.toDigits 10 d).length
  if n * tens (-k) < d * tens k then k else k + 1

/-- Writes a double from the decimal that `pick` chooses for its magnitude `m · 2 ^ e`. -/
def writeFloat (pick : Nat → Int → Decimal) (layout : Layout) (x : Float) : String :=
  let signed : Float.Model.UnpackedFloat.Sign → List Char → String
    | .negative, text => String.ofList ('-' :: text)
    | .positive, text => String.ofList text
  match x.toModel.unpack with
  | .notANumber => "nan"
  | .infinity sign => signed sign ['i', 'n', 'f']
  | .zero sign => signed sign (write layout ⟨0, 0⟩)
  | .finite sign m e _ => signed sign (write layout (pick m e))

/-! ### Significant digits -/

/-- The integer nearest to `n / d`, a half to the even one. -/
def roundHalfEven (n d : Nat) : Nat :=
  let q := n / d
  match compare (2 * (n % d)) d with
  | .lt => q
  | .eq => q + q % 2
  | .gt => q + 1

/-- `n / d` rounded to `p` significant digits. -/
def roundTo (p : Nat) (n d : Nat) : Decimal :=
  let k := magnitude n d - p
  ⟨roundHalfEven (n * tens (-k)) (d * tens k), k⟩

/-- No double has more significant digits than this. -/
def mostDigits : Nat := 767

/-- `m · 2 ^ e` rounded to `p` significant digits, at least one. -/
def significant (p : Nat) (m : Nat) (e : Int) : Decimal :=
  (roundTo (min (max p 1) mostDigits) (m <<< e.toNat) (1 <<< (-e).toNat)).trim

/-- As many whole digits as there are significant ones. -/
def significantLayout (p : Nat) : Layout := ⟨max p 1, false⟩

def significantText (p : Nat) (x : Float) : String :=
  writeFloat (significant p) (significantLayout p) x

end Decimal
end Reckoner
