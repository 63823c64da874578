import Reckoner.Decimal.Basic

/-!
The shortest decimal that reads back as a given double. A double `m · 2 ^ e` owns the reals that
round to it; the first grid of powers of ten with a point among them gives the digits, and of two
such points the nearer one.
-/

namespace Reckoner.Decimal

/-- The reals that round to one double, over a common denominator. -/
structure Rounding where
  low : Nat
  value : Nat
  high : Nat
  denominator : Nat
  /-- Whether the two ends round to the double as well. -/
  closed : Bool

namespace Rounding

/-- The reals that round to `m · 2 ^ e`: half a step on both sides, and on the lower side a quarter
where the steps get smaller; the ends belong to an even `m`. -/
def ofScaled (m : Nat) (e : Int) : Rounding :=
  let below := if m = 0x10000000000000 ∧ -1074 < e then 1 else 2
  let up := (e - 2).toNat
  { low := (4 * m - below) <<< up
    value := (4 * m) <<< up
    high := (4 * m + 2) <<< up
    denominator := 1 <<< (2 - e).toNat
    closed := m % 2 = 0 }

/-- Compares `c · 10 ^ k` with `n / d`. -/
def compareGrid (c : Nat) (k : Int) (n d : Nat) : Ordering :=
  compare (c * tens k * d) (n * tens (-k))

/-- Whether `c · 10 ^ k` rounds to the double. -/
def contains (r : Rounding) (c : Nat) (k : Int) : Bool :=
  let low := compareGrid c k r.low r.denominator
  let high := compareGrid c k r.high r.denominator
  if r.closed then low.isGE && high.isLE else low.isGT && high.isLT

/-- The multiple of `10 ^ k` at the double or just below it. -/
def floor (r : Rounding) (k : Int) : Nat :=
  r.value * tens (-k) / (r.denominator * tens k)

/-- The multiple of `10 ^ k` that rounds to the double and lies nearest to it; a tie goes to the
even one. -/
def nearest? (r : Rounding) (k : Int) : Option Decimal :=
  let c := r.floor k
  match r.contains c k, r.contains (c + 1) k with
  | false, false => none
  | true, false => some ⟨c, k⟩
  | false, true => some ⟨c + 1, k⟩
  | true, true =>
    match compareGrid (2 * c + 1) k (2 * r.value) r.denominator with
    | .gt => some ⟨c, k⟩
    | .lt => some ⟨c + 1, k⟩
    | .eq => some ⟨c + c % 2, k⟩

end Rounding

/-- The shortest decimal that rounds to `m · 2 ^ e`; seventeen digits always suffice. -/
def shortest (m : Nat) (e : Int) : Decimal :=
  let r := Rounding.ofScaled m e
  let k := magnitude r.value r.denominator
  let found := (List.range 17).findSome? fun (i : Nat) => r.nearest? (k - 1 - i)
  (found.getD ⟨r.floor (k - 17), k - 17⟩).trim

/-- Sixteen whole digits at most, and a whole number keeps its point. -/
def shortestLayout : Layout := ⟨16, true⟩

/-- A double in the fewest digits that read back as it. -/
def shortestText (x : Float) : String := writeFloat shortest shortestLayout x

end Reckoner.Decimal
