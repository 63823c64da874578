import Mathlib
import Reckoner.Decimal.Numeral
import Reckoner.Proofs.Binary64.Operations

/-!
Decimals as doubles. A coefficient with a power of ten is read as the double nearest to it; large powers
are cut off only where there is no finite double, or none but zero.
-/

namespace Reckoner.Binary64

open Float.Model (UnpackedFloat)
open Float.Model.UnpackedFloat (Sign divCore)

/-- Digits that are all used, and perhaps more, reach down to the last place. -/
theorem le_lastPlace_of_full {m : ℕ} {e : ℤ} (h : 2 ^ 52 ≤ m) : e ≤ lastPlace (m * 2 ^ e) := by
  have hpos := two_zpow_pos e
  have hsize : (2 : ℚ) ^ (52 + e) ≤ |(m * 2 ^ e : ℚ)| := by
    rw [abs_of_nonneg (by positivity), zpow_add₀ two_ne_zero]
    exact mul_le_mul_of_nonneg_right (by exact_mod_cast h) hpos.le
  have := le_lastPlace hsize
  omega

/-- What is less than half of the least double is rounded to zero. -/
theorem nearest_eq_zero_of_lt {q : ℚ} (hq : 0 ≤ q) (h : q < 2 ^ (-1075 : ℤ)) : nearest q = 0 := by
  rcases hq.eq_or_lt with rfl | hpos
  · exact nearest_zero
  have hplace : lastPlace q = -1074 := by
    refine le_antisymm (lastPlace_le hpos.ne' le_rfl ?_) (lastPlace_ge q)
    rw [abs_of_pos hpos]
    exact h.trans (zpow_lt_zpow_right₀ one_lt_two (by norm_num))
  have hhalf : q / 2 ^ (-1074 : ℤ) < 1 / 2 := by
    have hstep : (2 : ℚ) ^ (-1074 : ℤ) = 2 ^ (-1075 : ℤ) * 2 := zpow_add_one₀ two_ne_zero (-1075)
    rw [div_lt_iff₀ (two_zpow_pos _), hstep]
    linarith
  have hfloor : ⌊q / 2 ^ (-1074 : ℤ)⌋ = 0 := by
    rw [Int.floor_eq_zero_iff]
    exact ⟨div_nonneg hq (two_zpow_pos _).le, hhalf.trans (by norm_num)⟩
  have hfract : Int.fract (q / 2 ^ (-1074 : ℤ)) < 1 / 2 := by
    rwa [Int.fract, hfloor, Int.cast_zero, sub_zero]
  rw [nearest, hplace, halfEven_of_lt hfract, hfloor]
  simp

/-- A power of ten below the cut is so small that nothing is left. -/
theorem mul_ten_zpow_lt {c : ℕ} (hc : c ≠ 0) {k : ℤ} (hk : k < -(2048 + c.log2)) :
    (c * 10 ^ k : ℚ) < 2 ^ (-1075 : ℤ) := by
  have hlog : (c : ℚ) < 2 ^ ((c.log2 : ℤ) + 1) := by
    exact_mod_cast Nat.lt_log2_self (n := c)
  have hten : (10 : ℚ) ^ k ≤ 2 ^ k := by
    have hpow : (2 : ℚ) ^ (-k).toNat ≤ 10 ^ (-k).toNat := pow_le_pow_left₀ (by norm_num) (by norm_num) _
    have hk' : k = -((-k).toNat : ℤ) := by omega
    rw [hk', zpow_neg, zpow_neg, zpow_natCast, zpow_natCast]
    exact inv_anti₀ (by positivity) hpow
  calc (c * 10 ^ k : ℚ) ≤ c * 2 ^ k := mul_le_mul_of_nonneg_left hten (by positivity)
    _ < 2 ^ ((c.log2 : ℤ) + 1) * 2 ^ k := mul_lt_mul_of_pos_right hlog (two_zpow_pos k)
    _ = 2 ^ ((c.log2 : ℤ) + 1 + k) := (zpow_add₀ two_ne_zero _ _).symm
    _ ≤ 2 ^ (-1075 : ℤ) := two_zpow_le (by omega)

theorem is_ofScientific {c : ℕ} {k : ℤ} (hk : k ≤ 2048) :
    Is (UnpackedFloat.ofScientific .binary64 c k) (nearest (c * 10 ^ k)) := by
  unfold UnpackedFloat.ofScientific
  split
  case isTrue hzero =>
    rw [hzero, Nat.cast_zero, zero_mul, nearest_zero]
    exact rfl
  case isFalse hc =>
    have hpos : 0 < c := Nat.pos_of_ne_zero hc
    rw [if_neg (by simpa using hk)]
    split
    case isTrue hlow =>
      rw [nearest_eq_zero_of_lt (by positivity) (mul_ten_zpow_lt hc (by simpa using hlow))]
      exact rfl
    case isFalse =>
      split
      case isTrue hnonneg =>
        have hten : 0 < 10 ^ k.toNat := Nat.pow_pos (by decide)
        have hfull : 2 ^ 52 ≤ c <<< 53 * 10 ^ k.toNat := by
          rw [Nat.shiftLeft_eq]
          calc 2 ^ 52 ≤ 2 ^ 53 := by norm_num
            _ ≤ c * 2 ^ 53 := Nat.le_mul_of_pos_left _ hpos
            _ ≤ c * 2 ^ 53 * 10 ^ k.toNat := Nat.le_mul_of_pos_right _ hten
        have hround := is_roundWithAccuracy (e := -53 + 0) .positive
          (by exact_mod_cast (by omega : 0 < c <<< 53 * 10 ^ k.toNat))
          (tells_exact (c <<< 53 * 10 ^ k.toNat)) (le_lastPlace_of_full hfull)
        have hvalue : ((c <<< 53 * 10 ^ k.toNat : ℕ) * 2 ^ (-53 + 0 : ℤ) : ℚ) = c * 10 ^ k := by
          have hk' : (10 : ℚ) ^ k = 10 ^ k.toNat := by
            rw [← zpow_natCast, Int.toNat_of_nonneg hnonneg]
          rw [hk', Nat.shiftLeft_eq]
          push_cast
          norm_num
          ring
        rw [hvalue] at hround
        exact hround
      case isFalse hneg =>
        have hround := is_divCore (m := c) (n := 10 ^ (-k).toNat) (e := 0) (f := 0) .positive hpos
          (Nat.pow_pos (by decide))
        have hvalue : (c * 2 ^ (0 : ℤ) / ((10 ^ (-k).toNat : ℕ) * 2 ^ (0 : ℤ)) : ℚ) = c * 10 ^ k := by
          have hk' : (10 : ℚ) ^ k = (10 ^ (-k).toNat)⁻¹ := by
            rw [← zpow_natCast, ← zpow_neg, Int.toNat_of_nonneg (by omega), neg_neg]
          rw [hk']
          push_cast
          rw [mul_one, mul_one, div_eq_mul_inv]
        rw [hvalue] at hround
        exact hround

/-- A decimal numeral is read as the double nearest to it, if there is a finite one. -/
theorem denotes_numeral {c : ℕ} {k : ℤ} (hlt : |nearest (c * 10 ^ k)| < 2 ^ 1024) :
    Denotes (Numeral.nearest c k) (nearest (c * 10 ^ k)) := by
  rcases Nat.eq_zero_or_pos c with rfl | hpos
  · have hzero : Numeral.nearest 0 k = Numeral.nearest 0 0 := rfl
    rw [Nat.cast_zero, zero_mul, nearest_zero, hzero]
    exact ⟨by rfl⟩
  · refine (is_ofScientific ?_).denotes hlt
    by_contra! hlarge
    -- the power alone is too large
    have hsize : (2 : ℚ) ^ (1024 : ℤ) ≤ c * 10 ^ k := by
      have hc : (1 : ℚ) ≤ c := by exact_mod_cast hpos
      calc (2 : ℚ) ^ (1024 : ℤ) ≤ 10 ^ (1024 : ℤ) :=
            zpow_le_zpow_left₀ (by norm_num) (by norm_num) (by norm_num)
        _ ≤ 10 ^ k := zpow_le_zpow_right₀ (by norm_num) (by omega)
        _ ≤ c * 10 ^ k := le_mul_of_one_le_left (by positivity) hc
    have hrepresentable : Representable (2 ^ (1024 : ℤ)) := ⟨1, 1024, by norm_num, by norm_num, by simp⟩
    have hnearest := nearest_mono hsize
    rw [hrepresentable.nearest_eq] at hnearest
    rw [abs_of_nonneg (le_trans (by positivity) hnearest)] at hlt
    exact absurd hlt (by exact_mod_cast hnearest.not_gt)

end Reckoner.Binary64
