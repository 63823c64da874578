import Mathlib.Algebra.Order.Ring.Pow
import Reckoner.Proofs.Binary64.Nearest

/-!
Errors of several roundings. Each rounding takes a result from the exact one by a factor of at most
`1 - 2 ^ -53`, up or down; products and quotients add up how many such factors there are.
-/

namespace Reckoner.Binary64

/-- The factor one rounding can make. -/
def shrink : ℚ := 1 - 2 ^ (-53 : ℤ)

theorem shrink_pos : 0 < shrink := by
  norm_num [shrink]

theorem shrink_pow_pos (k : ℕ) : 0 < shrink ^ k := pow_pos shrink_pos k

theorem one_sub_le_shrink_pow (k : ℕ) : 1 - k * 2 ^ (-53 : ℤ) ≤ shrink ^ k := by
  have h := one_add_mul_le_pow (a := -(2 : ℚ) ^ (-53 : ℤ)) (by norm_num) k
  rwa [mul_neg, ← sub_eq_add_neg, ← sub_eq_add_neg] at h

/-- Whether two numbers are as near as a count of roundings leaves them. -/
structure Within (k : ℕ) (x y : ℚ) : Prop where
  lower : shrink ^ k * y ≤ x
  upper : shrink ^ k * x ≤ y

namespace Within

variable {k l : ℕ} {x x' y y' z : ℚ}

theorem refl (x : ℚ) : Within 0 x x := ⟨by simp, by simp⟩

theorem trans (h : Within k x y) (h' : Within l y z) : Within (k + l) x z := by
  have hk := (shrink_pow_pos k).le
  have hl := (shrink_pow_pos l).le
  constructor
  · calc shrink ^ (k + l) * z = shrink ^ k * (shrink ^ l * z) := by rw [pow_add, mul_assoc]
      _ ≤ shrink ^ k * y := mul_le_mul_of_nonneg_left h'.lower hk
      _ ≤ x := h.lower
  · calc shrink ^ (k + l) * x = shrink ^ l * (shrink ^ k * x) := by rw [pow_add]; ring
      _ ≤ shrink ^ l * y := mul_le_mul_of_nonneg_left h.upper hl
      _ ≤ z := h'.upper

theorem mul (h : Within k x y) (h' : Within l x' y') (hx : 0 ≤ x) (hx' : 0 ≤ x') (hy : 0 ≤ y)
    (hy' : 0 ≤ y') : Within (k + l) (x * x') (y * y') := by
  have hk := (shrink_pow_pos k).le
  have hl := (shrink_pow_pos l).le
  constructor
  · calc shrink ^ (k + l) * (y * y') = (shrink ^ k * y) * (shrink ^ l * y') := by rw [pow_add]; ring
      _ ≤ x * x' := mul_le_mul h.lower h'.lower (by positivity) hx
  · calc shrink ^ (k + l) * (x * x') = (shrink ^ k * x) * (shrink ^ l * x') := by rw [pow_add]; ring
      _ ≤ y * y' := mul_le_mul h.upper h'.upper (by positivity) hy

theorem inv (h : Within k x y) (hx : 0 < x) (hy : 0 < y) : Within k x⁻¹ y⁻¹ := by
  constructor
  · rw [← div_eq_mul_inv, div_le_iff₀ hy, inv_mul_eq_div, le_div_iff₀ hx]
    exact h.upper
  · rw [← div_eq_mul_inv, div_le_iff₀ hx, inv_mul_eq_div, le_div_iff₀ hy]
    exact h.lower

theorem div (h : Within k x y) (h' : Within l x' y') (hx : 0 ≤ x) (hx' : 0 < x') (hy : 0 ≤ y)
    (hy' : 0 < y') : Within (k + l) (x / x') (y / y') := by
  rw [div_eq_mul_inv, div_eq_mul_inv]
  exact h.mul (h'.inv hx' hy') hx (inv_pos.2 hx').le hy (inv_pos.2 hy').le

/-- One rounding, of a number whose digits are not lost at the lowest place. -/
theorem nearest (h : 2 ^ (-1022 : ℤ) ≤ x) : Within 1 (nearest x) x := by
  have hpos : 0 < x := (two_zpow_pos _).trans_le h
  obtain ⟨hlow, hhigh⟩ := abs_le.1 (abs_nearest_sub_le_mul (by rwa [abs_of_pos hpos]))
  rw [abs_of_pos hpos] at hlow hhigh
  rw [neg_le_sub_iff_le_add] at hlow
  constructor
  · rw [pow_one, shrink, sub_mul, one_mul]
    linarith
  · calc shrink ^ 1 * Binary64.nearest x ≤ shrink ^ 1 * (x + 2 ^ (-53 : ℤ) * x) :=
          mul_le_mul_of_nonneg_left (by linarith) (shrink_pow_pos 1).le
      _ = (1 - 2 ^ (-53 : ℤ) * 2 ^ (-53 : ℤ)) * x := by rw [pow_one, shrink]; ring
      _ ≤ 1 * x := mul_le_mul_of_nonneg_right (by norm_num) hpos.le
      _ = x := one_mul x

/-- The error of a few hundred roundings is their number, and one more, times the error of one. -/
theorem abs_sub_le (h : Within k x y) (hk : k ≤ 500) (hx : 0 ≤ x) (hy : 0 ≤ y) :
    |x - y| ≤ (k + 1) * 2 ^ (-53 : ℤ) * y := by
  have hk' : (k : ℚ) ≤ 500 := by exact_mod_cast hk
  have hk0 : (0 : ℚ) ≤ k := k.cast_nonneg
  have hlower := (mul_le_mul_of_nonneg_right (one_sub_le_shrink_pow k) hy).trans h.lower
  have hupper := (mul_le_mul_of_nonneg_right (one_sub_le_shrink_pow k) hx).trans h.upper
  have hmargin : (k * (k + 1) * 2 ^ (-53 : ℤ) : ℚ) ≤ 1 := by
    have : (k * (k + 1) : ℚ) ≤ 500 * 501 := by gcongr; linarith
    refine (mul_le_mul_of_nonneg_right this (two_zpow_pos _).le).trans (by norm_num)
  have hpos := two_zpow_pos (-53)
  generalize (2 : ℚ) ^ (-53 : ℤ) = u at *
  have hone : 1 ≤ (1 + (k + 1) * u) * (1 - k * u) := by
    have : 0 ≤ u * (1 - k * (k + 1) * u) := mul_nonneg hpos.le (by linarith)
    linarith
  have hup : x ≤ (1 + (k + 1) * u) * y := by
    calc x = 1 * x := (one_mul x).symm
      _ ≤ (1 + (k + 1) * u) * (1 - k * u) * x := mul_le_mul_of_nonneg_right hone hx
      _ = (1 + (k + 1) * u) * ((1 - k * u) * x) := mul_assoc ..
      _ ≤ (1 + (k + 1) * u) * y := mul_le_mul_of_nonneg_left hupper (by positivity)
  have hu : 0 ≤ u * y := mul_nonneg hpos.le hy
  rw [abs_le]
  constructor <;> linarith

end Within
end Reckoner.Binary64
