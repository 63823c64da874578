import Mathlib
import Reckoner.Decimal.Shortest
import Reckoner.Proofs.Binary64.Rounding

/-!
The reals that round to a double. They are kept over a common denominator, and a multiple of a power
of ten is compared with them in whole numbers.
-/

namespace Reckoner

namespace Binary64

variable {m : ℕ} {e : ℤ} {q x : ℚ}

/-- An integer is nearest to what is within half of it, and at half if it is even. -/
theorem halfEven_eq {z : ℤ} (hle : |q - z| ≤ 1 / 2) (heven : |q - z| = 1 / 2 → Even z) :
    halfEven q = z := by
  have hnear := abs_le.1 (abs_halfEven_sub_le q)
  rcases hle.lt_or_eq with hlt | heq
  · obtain ⟨hlow, hhigh⟩ := abs_lt.1 hlt
    have habove : (z : ℚ) < halfEven q + 1 := by linarith
    have hbelow : (halfEven q : ℚ) < z + 1 := by linarith
    have habove' : z < halfEven q + 1 := by exact_mod_cast habove
    have hbelow' : halfEven q < z + 1 := by exact_mod_cast hbelow
    omega
  · obtain ⟨k, hk⟩ := heven heq
    rcases (abs_eq (by norm_num)).1 heq with h | h
    · have hfloor : ⌊q⌋ = z := Int.floor_eq_iff.2 ⟨by linarith, by linarith⟩
      have hfract : Int.fract q = 1 / 2 := by rw [Int.fract, hfloor, h]
      rw [halfEven_of_eq hfract, hfloor]
      omega
    · have hfloor : ⌊q⌋ = z - 1 := Int.floor_eq_iff.2 ⟨by push_cast; linarith, by push_cast; linarith⟩
      have hfract : Int.fract q = 1 / 2 := by
        rw [Int.fract, hfloor]
        push_cast
        linarith
      rw [halfEven_of_eq hfract, hfloor]
      omega

/-- What uses all its digits, or reaches down to the lowest place, is rounded at its place. -/
theorem nearest_mul_zpow (hx : 0 < x) (hlt : x < 2 ^ 53) (he : -1074 ≤ e)
    (hfull : 2 ^ 52 ≤ x ∨ e = -1074) : nearest (x * 2 ^ e) = halfEven x * 2 ^ e := by
  have hpos := two_zpow_pos e
  have hq : 0 < x * 2 ^ e := mul_pos hx hpos
  have hplace : lastPlace (x * 2 ^ e) = e := by
    refine le_antisymm (lastPlace_le hq.ne' he ?_) ?_
    · rw [abs_of_pos hq, add_comm, zpow_add₀ two_ne_zero]
      exact mul_lt_mul_of_pos_right (by exact_mod_cast hlt) hpos
    · rcases hfull with hlow | rfl
      · have hsize : (2 : ℚ) ^ (52 + e) ≤ |x * 2 ^ e| := by
          rw [abs_of_pos hq, zpow_add₀ two_ne_zero]
          exact mul_le_mul_of_nonneg_right (by exact_mod_cast hlow) hpos.le
        have := le_lastPlace hsize
        omega
      · exact lastPlace_ge _
  rw [nearest, hplace, mul_div_cancel_right₀ _ hpos.ne']

/-- How far down the reals reach that round to the digits `m` at the place `e`, counted in that place:
by half, and by a quarter where the places get smaller. -/
def reach (m : ℕ) (e : ℤ) : ℚ := if m = 2 ^ 52 ∧ -1074 < e then 1 / 4 else 1 / 2

theorem reach_ge (m : ℕ) (e : ℤ) : 1 / 4 ≤ reach m e := by
  unfold reach
  split <;> norm_num

theorem reach_le (m : ℕ) (e : ℤ) : reach m e ≤ 1 / 2 := by
  unfold reach
  split <;> norm_num

/-- Whether `x` is among the reals that round to the digits `m` at the place `e`, counted in that
place. -/
structure RoundsTo (m : ℕ) (e : ℤ) (x : ℚ) : Prop where
  low : m - reach m e ≤ x
  high : x ≤ m + 1 / 2
  /-- The ends belong to an even number. -/
  ends : x = m - reach m e ∨ x = m + 1 / 2 → Even m

theorem RoundsTo.nearest_eq_of_ge (h : RoundsTo m e x) (hc : Canonical m e) (hm : 0 < m)
    (hfull : 2 ^ 52 ≤ x ∨ e = -1074) : nearest (x * 2 ^ e) = m * 2 ^ e := by
  have hlow := h.low
  have hhigh := h.high
  have hreach := reach_le m e
  have hone : (1 : ℚ) ≤ m := by exact_mod_cast hm
  have hlt : (m : ℚ) + 1 ≤ 2 ^ 53 := by exact_mod_cast hc.lt
  have hhalf : halfEven x = (m : ℤ) := by
    refine halfEven_eq ?_ fun heq => ?_
    · rw [Int.cast_natCast, abs_le]
      constructor <;> linarith
    · rw [Int.cast_natCast] at heq
      rw [Int.even_coe_nat]
      rcases (abs_eq (by norm_num)).1 heq with heq | heq
      · exact h.ends (.inr (by linarith))
      · exact h.ends (.inl (by linarith))
  rw [nearest_mul_zpow (by linarith) (by linarith) hc.lowest hfull, hhalf, Int.cast_natCast]

/-- Just below a power of two the places are smaller, and what is near to it is rounded up. -/
theorem RoundsTo.nearest_eq_of_lt (h : RoundsTo m e x) (hc : Canonical m e) (hx : x < 2 ^ 52)
    (he : -1074 < e) : nearest (x * 2 ^ e) = m * 2 ^ e := by
  have hlow := h.low
  have hge : 2 ^ 52 ≤ m := hc.full.resolve_right he.ne'
  have hm : m = 2 ^ 52 := by
    refine le_antisymm (Nat.le_of_lt_succ ?_) hge
    have hlt : (m : ℚ) < 2 ^ 52 + 1 := by linarith [reach_le m e]
    exact_mod_cast hlt
  rw [reach, if_pos ⟨hm, he⟩, hm] at hlow
  push_cast at hlow
  have hhalf : halfEven (2 * x) = 2 ^ 53 := by
    refine halfEven_eq ?_ fun _ => by decide
    rw [abs_le]
    push_cast
    constructor <;> linarith
  have hstep : (2 : ℚ) ^ e = 2 * 2 ^ (e - 1) := by
    rw [← zpow_one_add₀ two_ne_zero, add_sub_cancel]
  have hvalue : x * 2 ^ e = 2 * x * 2 ^ (e - 1) := by rw [hstep]; ring
  rw [hvalue, nearest_mul_zpow (by linarith) (by linarith) (by omega) (.inl (by linarith)), hhalf, hm,
    hstep]
  push_cast
  ring

/-- They do round to it. -/
theorem RoundsTo.nearest_eq (h : RoundsTo m e x) (hc : Canonical m e) (hm : 0 < m) :
    nearest (x * 2 ^ e) = m * 2 ^ e := by
  by_cases hfull : 2 ^ 52 ≤ x ∨ e = -1074
  · exact h.nearest_eq_of_ge hc hm hfull
  · obtain ⟨hx, he⟩ := not_or.1 hfull
    exact h.nearest_eq_of_lt hc (not_le.1 hx) (lt_of_le_of_ne hc.lowest (Ne.symm he))

end Binary64

namespace Decimal

open Binary64 (two_zpow_pos RoundsTo reach)

/-! ### Comparing with powers of ten -/

theorem tens_pos (k : ℤ) : 0 < tens k := Nat.pow_pos (by decide)

theorem tens_eq (k : ℤ) : (tens k : ℚ) = 10 ^ k * tens (-k) := by
  have hten : (10 : ℚ) ^ k * 10 ^ ((-k).toNat : ℤ) = 10 ^ (k.toNat : ℤ) := by
    rw [← zpow_add₀ (by norm_num)]
    congr 1
    omega
  have hcast (k : ℤ) : (tens k : ℚ) = 10 ^ (k.toNat : ℤ) := by
    rw [zpow_natCast]
    exact Nat.cast_pow 10 k.toNat
  rw [hcast, hcast, hten]

theorem compare_mul {a b : ℕ} {p q t : ℚ} (ht : 0 < t) (hp : p * t = a) (hq : q * t = b) :
    compare a b = compare p q := by
  rcases lt_trichotomy p q with h | rfl | h
  · have hlt : (a : ℚ) < b := by
      rw [← hp, ← hq]
      exact mul_lt_mul_of_pos_right h ht
    rw [compare_lt_iff_lt.2 h, Nat.compare_eq_lt.2 (by exact_mod_cast hlt)]
  · have heq : (a : ℚ) = b := by rw [← hp, ← hq]
    rw [compare_eq_iff_eq.2 rfl, Nat.compare_eq_eq.2 (by exact_mod_cast heq)]
  · have hlt : (b : ℚ) < a := by
      rw [← hp, ← hq]
      exact mul_lt_mul_of_pos_right h ht
    rw [compare_gt_iff_gt.2 h, Nat.compare_eq_gt.2 (by exact_mod_cast hlt)]

/-- Points of the grid are compared by their value. -/
theorem compareGrid_eq (c : ℕ) (k : ℤ) (n : ℕ) {d : ℕ} (hd : 0 < d) :
    Rounding.compareGrid c k n d = compare (c * 10 ^ k : ℚ) (n / d) := by
  have hd' : (0 : ℚ) < d := by exact_mod_cast hd
  have hk : (0 : ℚ) < tens (-k) := by exact_mod_cast tens_pos (-k)
  refine compare_mul (mul_pos hd' hk) ?_ ?_
  · push_cast
    rw [tens_eq k]
    ring
  · push_cast
    field_simp

theorem isLE_compare {p q : ℚ} : (compare p q).isLE = true ↔ p ≤ q := by
  rw [Ordering.isLE_iff_ne_gt, compare_gt_iff_gt, not_lt]

theorem isGE_compare {p q : ℚ} : (compare p q).isGE = true ↔ q ≤ p := by
  rw [Ordering.isGE_iff_ne_lt, compare_lt_iff_lt, not_lt]

namespace Rounding

variable {r : Rounding} {m : ℕ} {e : ℤ} {q : ℚ}

/-- Whether a rational is among the reals. -/
def Holds (r : Rounding) (q : ℚ) : Prop :=
  if r.closed then (r.low / r.denominator : ℚ) ≤ q ∧ q ≤ r.high / r.denominator
  else (r.low / r.denominator : ℚ) < q ∧ q < r.high / r.denominator

theorem contains_iff (hr : 0 < r.denominator) (c : ℕ) (k : ℤ) :
    r.contains c k = true ↔ r.Holds (c * 10 ^ k) := by
  unfold contains Holds
  rw [compareGrid_eq c k r.low hr, compareGrid_eq c k r.high hr]
  split
  · rw [Bool.and_eq_true, isGE_compare, isLE_compare]
  · rw [Bool.and_eq_true, Ordering.isGT_iff_eq_gt, Ordering.isLT_iff_eq_lt, compare_gt_iff_gt,
      compare_lt_iff_lt]

theorem denominator_pos (m : ℕ) (e : ℤ) : 0 < (ofScaled m e).denominator := by
  show 0 < 1 <<< (2 - e).toNat
  rw [Nat.one_shiftLeft]
  exact Nat.two_pow_pos _

/-- Quarters of the place `e` over the common denominator. -/
theorem quarters_div (n : ℕ) (m : ℕ) (e : ℤ) :
    ((n <<< (e - 2).toNat : ℕ) / (ofScaled m e).denominator : ℚ) = n / 4 * 2 ^ e := by
  have hscale : (2 : ℚ) ^ ((e - 2).toNat : ℤ) * 4 = 2 ^ e * 2 ^ ((2 - e).toNat : ℤ) := by
    have hfour : (4 : ℚ) = 2 ^ (2 : ℤ) := by norm_num
    rw [hfour, ← zpow_add₀ two_ne_zero, ← zpow_add₀ two_ne_zero]
    congr 1
    omega
  have hdenominator : ((ofScaled m e).denominator : ℚ) = 2 ^ (2 - e).toNat := by
    show ((1 <<< (2 - e).toNat : ℕ) : ℚ) = _
    rw [Nat.one_shiftLeft]
    push_cast
    rfl
  rw [hdenominator, Nat.shiftLeft_eq]
  push_cast
  rw [zpow_natCast, zpow_natCast] at hscale
  calc (n * 2 ^ (e - 2).toNat / 2 ^ (2 - e).toNat : ℚ)
      = n / 4 * (2 ^ (e - 2).toNat * 4) / 2 ^ (2 - e).toNat := by ring
    _ = n / 4 * 2 ^ e := by rw [hscale, ← mul_assoc, mul_div_cancel_right₀ _ (by positivity)]

theorem value_div (m : ℕ) (e : ℤ) :
    ((ofScaled m e).value / (ofScaled m e).denominator : ℚ) = m * 2 ^ e := by
  refine (quarters_div (4 * m) m e).trans ?_
  push_cast
  ring

theorem high_div (m : ℕ) (e : ℤ) :
    ((ofScaled m e).high / (ofScaled m e).denominator : ℚ) = (m + 1 / 2) * 2 ^ e := by
  refine (quarters_div (4 * m + 2) m e).trans ?_
  push_cast
  ring

theorem low_div (hm : 0 < m) (e : ℤ) :
    ((ofScaled m e).low / (ofScaled m e).denominator : ℚ) = (m - reach m e) * 2 ^ e := by
  refine (quarters_div (4 * m - if m = 0x10000000000000 ∧ -1074 < e then 1 else 2) m e).trans ?_
  split
  case isTrue h =>
    have hpower : m = 2 ^ 52 ∧ -1074 < e := h
    rw [reach, if_pos hpower, Nat.cast_sub (by omega)]
    push_cast
    ring
  case isFalse h =>
    have hpower : ¬(m = 2 ^ 52 ∧ -1074 < e) := h
    rw [reach, if_neg hpower, Nat.cast_sub (by omega)]
    push_cast
    ring

/-- What is held for a double rounds to it. -/
theorem Holds.nearest_eq (h : (ofScaled m e).Holds q) (hc : Binary64.Canonical m e) (hm : 0 < m) :
    Binary64.nearest q = m * 2 ^ e := by
  have hpos := two_zpow_pos e
  obtain ⟨x, rfl⟩ : ∃ x, q = x * 2 ^ e := ⟨q / 2 ^ e, (div_mul_cancel₀ _ hpos.ne').symm⟩
  refine RoundsTo.nearest_eq ?_ hc hm
  unfold Holds at h
  rw [low_div hm, high_div] at h
  split at h
  case isTrue hclosed =>
    exact {
      low := le_of_mul_le_mul_right h.1 hpos
      high := le_of_mul_le_mul_right h.2 hpos
      ends := fun _ => Nat.even_iff.2 (of_decide_eq_true hclosed) }
  case isFalse =>
    have hlow := lt_of_mul_lt_mul_right h.1 hpos.le
    have hhigh := lt_of_mul_lt_mul_right h.2 hpos.le
    exact {
      low := hlow.le
      high := hhigh.le
      ends := fun hends => hends.elim (fun heq => absurd heq hlow.ne') (fun heq => absurd heq hhigh.ne) }

end Rounding
end Decimal
end Reckoner
