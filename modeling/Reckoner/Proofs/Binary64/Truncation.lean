import Mathlib
import Reckoner.Binary64
import Reckoner.Proofs.Binary64.Integral
import Reckoner.Proofs.Binary64.Scientific
import Reckoner.Proofs.Binary64.Special

/-!
Doubles cut off toward zero. The integer part of a double is a double again, however large it is.
Doubles from zero up are numbers or the infinity, which stands above all of them.
-/

namespace Reckoner.Binary64

open Float.Model (UnpackedFloat)

variable {x y : Float} {q : ℚ}

/-! ### Integer parts -/

/-- The integer next to a rational on the side of zero. -/
def towardZero (q : ℚ) : ℤ := if 0 ≤ q then ⌊q⌋ else ⌈q⌉

theorem towardZero_of_nonneg (h : 0 ≤ q) : towardZero q = ⌊q⌋ := if_pos h

theorem towardZero_of_neg (h : q < 0) : towardZero q = ⌈q⌉ := if_neg h.not_ge

theorem abs_towardZero_sub_lt (q : ℚ) : |(towardZero q : ℚ) - q| < 1 := by
  rcases le_or_gt 0 q with h | h
  · rw [towardZero_of_nonneg h, abs_sub_lt_iff]
    constructor <;> linarith [Int.floor_le q, Int.lt_floor_add_one q]
  · rw [towardZero_of_neg h, abs_sub_lt_iff]
    constructor <;> linarith [Int.le_ceil q, Int.ceil_lt_add_one q]

theorem abs_floor_sub_lt (q : ℚ) : |(⌊q⌋ : ℚ) - q| < 1 := by
  rw [abs_sub_lt_iff]
  constructor <;> linarith [Int.floor_le q, Int.lt_floor_add_one q]

theorem abs_ceil_sub_lt (q : ℚ) : |(⌈q⌉ : ℚ) - q| < 1 := by
  rw [abs_sub_lt_iff]
  constructor <;> linarith [Int.le_ceil q, Int.ceil_lt_add_one q]

/-- A double is an integer, or it is so small that the integers next to it have few digits. -/
theorem Representable.eq_or_abs_lt (h : Representable q) {z : ℤ} (hz : |(z : ℚ) - q| < 1) :
    (z : ℚ) = q ∨ |(z : ℚ)| < 2 ^ 53 := by
  obtain ⟨m, p, hm, hp, rfl⟩ := h
  rcases le_or_gt 0 p with hnonneg | hneg
  · left
    have hinteger : (m * 2 ^ p : ℚ) = ((m * 2 ^ p.toNat : ℤ) : ℚ) := by
      push_cast
      rw [← zpow_natCast, Int.toNat_of_nonneg hnonneg]
    rw [hinteger] at hz ⊢
    have hsame : |z - m * 2 ^ p.toNat| < 1 := by exact_mod_cast hz
    exact_mod_cast sub_eq_zero.1 (Int.abs_lt_one_iff.1 hsame)
  · right
    have hhalf : (2 : ℚ) ^ p ≤ 1 / 2 := by
      calc (2 : ℚ) ^ p ≤ 2 ^ (-1 : ℤ) := two_zpow_le (by omega)
        _ = 1 / 2 := by norm_num
    have hm' : |(m : ℚ)| < 2 ^ 53 := by exact_mod_cast hm
    have hsize : |(m : ℚ) * 2 ^ p| ≤ 2 ^ 53 * (1 / 2) := by
      rw [abs_mul, abs_of_pos (two_zpow_pos p)]
      exact mul_le_mul hm'.le hhalf (two_zpow_pos p).le (by norm_num)
    calc |(z : ℚ)| = |(z : ℚ) - m * 2 ^ p + m * 2 ^ p| := by rw [sub_add_cancel]
      _ ≤ |(z : ℚ) - m * 2 ^ p| + |(m : ℚ) * 2 ^ p| := abs_add_le _ _
      _ < 1 + 2 ^ 53 * (1 / 2) := add_lt_add_of_lt_of_le hz hsize
      _ ≤ 2 ^ 53 := by norm_num

theorem towardZero_div (n : ℤ) {d : ℕ} (hd : 0 < d) : towardZero (n / d) = n.tdiv d := by
  have hd' : (0 : ℚ) < d := by exact_mod_cast hd
  rcases le_or_gt 0 n with hn | hn
  · rw [towardZero_of_nonneg (div_nonneg (by exact_mod_cast hn) hd'.le),
      Rat.floor_intCast_div_natCast, Int.tdiv_eq_ediv_of_nonneg hn]
  · rw [towardZero_of_neg (div_neg_of_neg_of_pos (by exact_mod_cast hn) hd'),
      Rat.ceil_intCast_div_natCast, ← Int.tdiv_eq_ediv_of_nonneg (by omega), Int.neg_tdiv, neg_neg]

theorem Denotes.truncate? (h : Denotes x q) : truncate? x = some (towardZero q) := by
  obtain ⟨n, d, heq, hd, rfl⟩ := h.fraction?
  rw [Binary64.truncate?, heq, Option.map_some, towardZero_div n hd]

theorem denotes_ofNat_nearest {n : ℕ} (hlt : |nearest n| < 2 ^ 1024) :
    Denotes (Float.ofNat n) (nearest n) := by
  by_cases h : n < 2 ^ 53
  · rw [(representable_natCast h).nearest_eq]
    exact denotes_ofNat h
  · have hread : Float.ofNat n = Numeral.nearest n 0 := dif_neg fun hsmall => h hsmall.1
    have hvalue : (n * 10 ^ (0 : ℤ) : ℚ) = n := by rw [zpow_zero, mul_one]
    have hdenotes := denotes_numeral (c := n) (k := 0) (by rwa [hvalue])
    rwa [hvalue, ← hread] at hdenotes

theorem denotes_ofInt {z : ℤ} (h : Representable z) (hlt : |(z : ℚ)| < 2 ^ 1024) :
    Denotes (Float.ofInt z) z := by
  have hnearest := h.nearest_eq
  cases z with
  | ofNat n =>
      have hcast : ((Int.ofNat n : ℤ) : ℚ) = n := Int.cast_natCast n
      rw [hcast] at hnearest hlt ⊢
      have hn := denotes_ofNat_nearest (n := n) (by rwa [hnearest])
      rwa [hnearest] at hn
  | negSucc n =>
      have hcast : ((Int.negSucc n : ℤ) : ℚ) = -((n + 1 : ℕ) : ℚ) := Int.cast_negSucc n
      rw [hcast, nearest_neg, neg_inj] at hnearest
      rw [hcast, abs_neg] at hlt
      rw [hcast]
      have hn := denotes_ofNat_nearest (n := n + 1) (by rwa [hnearest])
      rw [hnearest] at hn
      exact hn.neg

/-- An integer next to a double is a double. -/
theorem Denotes.representable_and_lt (h : Denotes x q) {z : ℤ} (hz : |(z : ℚ) - q| < 1) :
    Representable z ∧ |(z : ℚ)| < 2 ^ 1024 := by
  rcases h.representable.eq_or_abs_lt hz with heq | hlt
  · rw [heq]
    exact ⟨h.representable, h.abs_lt⟩
  · refine ⟨⟨z, 0, by exact_mod_cast hlt, by norm_num, by simp⟩, hlt.trans_le ?_⟩
    exact pow_le_pow_right₀ one_le_two (by norm_num)

theorem Denotes.ofInt (h : Denotes x q) {z : ℤ} (hz : |(z : ℚ) - q| < 1) :
    Denotes (Float.ofInt z) z :=
  denotes_ofInt (h.representable_and_lt hz).1 (h.representable_and_lt hz).2

/-- The integer part as a double; infinities, and no number, stay. -/
def truncated (x : Float) : Float :=
  match truncate? x with
  | some n => Float.ofInt n
  | none => x

theorem Denotes.truncated (h : Denotes x q) : Denotes (truncated x) (towardZero q) := by
  rw [Binary64.truncated, h.truncate?]
  exact h.ofInt (abs_towardZero_sub_lt q)

theorem Denotes.truncated_floor (h : Denotes x q) (hq : 0 ≤ q) :
    Denotes (Binary64.truncated x) (⌊q⌋₊ : ℕ) := by
  have htruncated := h.truncated
  rwa [towardZero_of_nonneg hq, ← Int.natCast_floor_eq_floor hq, Int.cast_natCast] at htruncated

theorem truncated_infinity : truncated infinity = infinity := by rfl

theorem truncated_neg_infinity : truncated (-infinity) = -infinity := by rfl

/-! ### The order beyond the numbers -/

theorem le_iff_compare :
    x ≤ y ↔ (x.toModel.unpack.compare y.toModel.unpack).any (·.isLE) = true :=
  decide_eq_true_iff

theorem unpack_infinity : infinity.toModel.unpack = .infinity .positive :=
  unpack_signedInfinity .positive

theorem unpack_neg_infinity : (-infinity).toModel.unpack = .infinity .negative :=
  unpack_signedInfinity .negative

theorem not_le_nan (x : Float) : ¬x ≤ nan := by
  rw [le_iff_compare, unpack_nan]
  cases x.toModel.unpack with
  | finite s | zero s | infinity s => cases s <;> exact Bool.false_ne_true
  | notANumber => exact Bool.false_ne_true

theorem not_nan_le (x : Float) : ¬nan ≤ x := by
  rw [le_iff_compare, unpack_nan]
  exact Bool.false_ne_true

section Denotes

variable (h : Denotes x q)

include h

/-- A number stands between the infinities. -/
theorem Denotes.compare_infinity :
    x.toModel.unpack.compare (.infinity .positive) = some .lt ∧
      (UnpackedFloat.infinity .positive).compare x.toModel.unpack = some .gt ∧
      x.toModel.unpack.compare (.infinity .negative) = some .gt := by
  have h := h.is
  generalize x.toModel.unpack = u at h ⊢
  cases u with
  | infinity | notANumber => exact h.elim
  | zero s | finite s => cases s <;> exact ⟨rfl, rfl, rfl⟩

theorem Denotes.le_infinity : x ≤ infinity := by
  rw [le_iff_compare, unpack_infinity, h.compare_infinity.1]
  rfl

theorem Denotes.not_infinity_le : ¬infinity ≤ x := by
  rw [le_iff_compare, unpack_infinity, h.compare_infinity.2.1]
  exact Bool.false_ne_true

theorem Denotes.not_le_neg_infinity : ¬x ≤ -infinity := by
  rw [le_iff_compare, unpack_neg_infinity, h.compare_infinity.2.2]
  exact Bool.false_ne_true

/-- What is not below a number is the infinity, or a number that is as large. -/
theorem Denotes.eq_infinity_or_denotes (hle : x ≤ y) :
    y = infinity ∨ ∃ r, q ≤ r ∧ Denotes y r := by
  rcases nan_or_infinity_or_finite y with rfl | ⟨s, rfl⟩ | hy
  · exact absurd hle (not_le_nan x)
  · cases s with
    | positive => exact .inl rfl
    | negative => exact absurd hle h.not_le_neg_infinity
  · obtain ⟨r, hr⟩ := isFinite_iff.1 hy
    exact .inr ⟨r, (h.le_iff hr).1 hle, hr⟩

/-- What is not above a number is the negative infinity, or a number that is as small. -/
theorem Denotes.eq_neg_infinity_or_denotes (hle : y ≤ x) :
    y = -infinity ∨ ∃ r, r ≤ q ∧ Denotes y r := by
  rcases nan_or_infinity_or_finite y with rfl | ⟨s, rfl⟩ | hy
  · exact absurd hle (not_nan_le x)
  · cases s with
    | positive => exact absurd hle h.not_infinity_le
    | negative => exact .inl rfl
  · obtain ⟨r, hr⟩ := isFinite_iff.1 hy
    exact .inr ⟨r, (hr.le_iff h).1 hle, hr⟩

end Denotes

theorem infinity_le_iff : infinity ≤ y ↔ y = infinity := by
  constructor
  · intro hle
    rcases nan_or_infinity_or_finite y with rfl | ⟨s, rfl⟩ | hy
    · exact absurd hle (not_le_nan infinity)
    · cases s with
      | positive => rfl
      | negative => exact absurd hle (by decide +kernel)
    · obtain ⟨r, hr⟩ := isFinite_iff.1 hy
      exact absurd hle hr.not_infinity_le
  · rintro rfl
    decide +kernel

end Reckoner.Binary64
