import Mathlib
import Reckoner.Arithmetic
import Reckoner.Proofs.Binary64.Relative
import Reckoner.Proofs.Checked

/-!
Factorials, which are rounded after every step. Up to 22 they are doubles, as is every number that
divides one of them. Up to 170 each step adds the error of one rounding. From 171 on the factorial is
infinite.
-/

namespace Reckoner.Arithmetic

open Binary64

/-! ### The product, step by step -/

/-- The factorial, rounded after every step. -/
def roundedFactorial : ℕ → ℚ
  | 0 => 1
  | n + 1 => nearest (roundedFactorial n * (n + 1 : ℕ))

theorem nearest_one : nearest 1 = 1 := by
  have h := (representable_natCast (n := 1) (by norm_num)).nearest_eq
  rwa [Nat.cast_one] at h

theorem one_le_nearest {q : ℚ} (h : 1 ≤ q) : 1 ≤ nearest q := by
  have := nearest_mono h
  rwa [nearest_one] at this

theorem one_le_roundedFactorial (n : ℕ) : 1 ≤ roundedFactorial n := by
  induction n with
  | zero => exact le_rfl
  | succ n ih =>
    refine one_le_nearest (one_le_mul_of_one_le_of_one_le ih ?_)
    exact_mod_cast Nat.succ_pos n

/-- What is one or above keeps its digits. -/
theorem within_nearest {q : ℚ} (h : 1 ≤ q) : Within 1 (nearest q) q :=
  .nearest (((two_zpow_le (by norm_num)).trans_eq (zpow_zero 2)).trans h)

theorem within_roundedFactorial (n : ℕ) : Within n (roundedFactorial n) n.factorial := by
  induction n with
  | zero => simpa [roundedFactorial] using Within.refl 1
  | succ n ih =>
    have hpos := one_le_roundedFactorial n
    have hstep : (1 : ℚ) ≤ (n + 1 : ℕ) := by exact_mod_cast Nat.succ_pos n
    have hproduct := ih.mul (Within.refl ((n + 1 : ℕ) : ℚ)) (by linarith) (by linarith)
      (Nat.cast_nonneg _) (by linarith)
    have h := (within_nearest (one_le_mul_of_one_le_of_one_le hpos hstep)).trans hproduct
    rw [add_zero, add_comm, mul_comm (n.factorial : ℚ), ← Nat.cast_mul, ← Nat.factorial_succ] at h
    exact h

/-- Every divisor of the largest exact factorial is a double: it has a power of two and an odd
part. -/
theorem representable_of_dvd {n : ℕ} (h : n ∣ Nat.factorial 22) : Representable n := by
  have hfactorial : Nat.factorial 22 = 2 ^ 19 * 2143861251406875 := by decide +kernel
  have hcoprime : Nat.Coprime (2 ^ 19) 2143861251406875 := by decide +kernel
  obtain ⟨i, hi, htwo⟩ := (Nat.dvd_prime_pow Nat.prime_two).1 (Nat.gcd_dvd_right n (2 ^ 19))
  have hle : n.gcd 2143861251406875 ≤ 2143861251406875 := Nat.gcd_le_right n (by norm_num)
  have hsplit : n = n.gcd 2143861251406875 * 2 ^ i := by
    rw [← htwo, mul_comm, ← hcoprime.gcd_mul n, ← hfactorial, Nat.gcd_eq_left h]
  refine ⟨n.gcd 2143861251406875, i, ?_, by omega, ?_⟩
  · rw [abs_of_nonneg (Int.natCast_nonneg _)]
    exact_mod_cast hle.trans_lt (by norm_num : 2143861251406875 < 2 ^ 53)
  · conv_lhs => rw [hsplit]
    push_cast
    rw [zpow_natCast]

theorem roundedFactorial_eq {n : ℕ} (h : n ≤ 22) : roundedFactorial n = n.factorial := by
  induction n with
  | zero => simp [roundedFactorial]
  | succ n ih =>
    rw [roundedFactorial, ih (by omega), mul_comm, ← Nat.cast_mul, ← Nat.factorial_succ]
    exact (representable_of_dvd (Nat.factorial_dvd_factorial h)).nearest_eq

/-- No result that belongs to a count of at most 170 things is too large. -/
theorem abs_lt_of_within {k : ℕ} {x y : ℚ} (h : Within k x y) (hk : k ≤ 500) (hx : 0 ≤ x)
    (hy : 0 ≤ y) (hle : y ≤ Nat.factorial 170) : |x| < 2 ^ 1024 := by
  have hlarge : (Nat.factorial 170 : ℚ) < 2 ^ 1023 := by
    exact_mod_cast (by decide +kernel : Nat.factorial 170 < 2 ^ 1023)
  have herror := (abs_le.1 (h.abs_sub_le hk hx hy)).2
  have hfactor : (k + 1) * 2 ^ (-53 : ℤ) < (1 : ℚ) := by
    have hk' : (k : ℚ) ≤ 500 := by exact_mod_cast hk
    norm_num
    linarith
  have hsmall : (k + 1) * 2 ^ (-53 : ℤ) * y ≤ 1 * y := mul_le_mul_of_nonneg_right hfactor.le hy
  rw [abs_of_nonneg hx, pow_succ]
  generalize (2 : ℚ) ^ 1023 = bound at *
  linarith

theorem factorial_le {n : ℕ} (h : n ≤ 170) : (n.factorial : ℚ) ≤ Nat.factorial 170 := by
  exact_mod_cast Nat.factorial_le h

theorem product_succ {n : ℕ} (h : 0 < n) :
    product (n + 1) = product n >>= fun total =>
      Checked.ofInteger (n + 1 : ℕ) >>= fun x => .ok (total * x) := by
  have hrange : List.range' 2 n = List.range' 2 (n - 1) ++ [n + 1] := by
    conv_lhs => rw [← Nat.sub_add_cancel h, List.range'_1_concat]
    congr 2
    omega
  rw [product, Nat.add_sub_cancel, hrange, List.foldlM_append, ← product]
  simp only [List.foldlM_cons, List.foldlM_nil, bind_pure]
  rfl

/-- The factors are small, so that they are doubles and the product is finite. -/
theorem denotes_product {n : ℕ} (h : n ≤ 170) :
    ∃ x, product n = .ok x ∧ Denotes x (roundedFactorial n) := by
  induction n with
  | zero => exact ⟨1, rfl, denotes_one⟩
  | succ n ih =>
    rcases Nat.eq_zero_or_pos n with rfl | hpos
    · have : roundedFactorial 1 = 1 := roundedFactorial_eq (by norm_num)
      rw [zero_add, this]
      exact ⟨1, rfl, denotes_one⟩
    · obtain ⟨total, htotal, hdenotes⟩ := ih (by omega)
      rw [product_succ hpos, htotal, Checked.ofInteger_natCast (by omega)]
      refine ⟨total * Float.ofNat (n + 1), rfl, hdenotes.mul (denotes_ofNat (by omega)) ?_⟩
      exact abs_lt_of_within (within_roundedFactorial (n + 1)) (by omega)
        (zero_le_one.trans (one_le_roundedFactorial (n + 1))) (Nat.cast_nonneg _) (factorial_le h)

/-! ### Factorials of doubles -/

section Factorial

variable {x : Float} {n : ℕ}

theorem denotes_cut : Denotes (largestFactorial + 1) (171 : ℕ) := by
  have hsum : ((170 : ℕ) + 1 : ℚ) = (171 : ℕ) := by norm_num
  have hexact := (representable_natCast (n := 171) (by norm_num)).nearest_eq
  have hlargest : Denotes largestFactorial (170 : ℕ) := denotes_ofNat (n := 170) (by norm_num)
  have h := hlargest.add denotes_one (by
    rw [hsum, hexact]
    exact abs_natCast_lt (by norm_num))
  rwa [hsum, hexact] at h

/-- From zero on a factorial is the product up to the integer part, or up to the cut. -/
theorem factorial_eq_floor {q : ℚ} (hx : Denotes x q) (hq : 0 ≤ q) :
    factorial x = if ⌊q⌋₊ ≤ 170 then product ⌊q⌋₊ else .ok Binary64.infinity := by
  have hnegative : ¬x < 0 := by
    rw [hx.lt_iff denotes_zero]
    exact hq.not_gt
  have hcut : largestFactorial + 1 ≤ x ↔ 171 ≤ ⌊q⌋₊ := by
    rw [denotes_cut.le_iff hx, Nat.le_floor_iff hq]
  have hsmall : (x == 0 || x == 1) = true → ⌊q⌋₊ ≤ 1 := by
    rw [Bool.or_eq_true, hx.beq_iff denotes_zero, hx.beq_iff denotes_one]
    rintro (rfl | rfl) <;> simp
  have htruncate : Checked.truncate x = .ok (⌊q⌋₊ : ℤ) := by
    rw [Checked.truncate_eq hx, towardZero_of_nonneg hq, Int.natCast_floor_eq_floor hq]
  rw [factorial, hx.isNaN_eq_false, htruncate]
  simp only [hnegative, decide_false, Bool.or_self, Bool.false_eq_true, if_false, ge_iff_le, hcut]
  split
  case isTrue h =>
    have hone := hsmall h
    rw [if_pos (by omega)]
    rcases Nat.le_one_iff_eq_zero_or_eq_one.1 hone with h | h <;> rw [h] <;> rfl
  case isFalse =>
    by_cases h : ⌊q⌋₊ ≤ 170
    · rw [if_pos h, if_neg (by omega)]
      rfl
    · rw [if_neg h, if_pos (by omega)]
      rfl

/-- On the integers from zero a factorial is the product, up to the cut. -/
theorem factorial_eq (hx : Denotes x n) :
    factorial x = if n ≤ 170 then product n else .ok Binary64.infinity := by
  have h := factorial_eq_floor hx n.cast_nonneg
  rwa [Nat.floor_natCast] at h

theorem denotes_factorial (hx : Denotes x n) (h : n ≤ 170) :
    ∃ y, factorial x = .ok y ∧ Denotes y (roundedFactorial n) := by
  rw [factorial_eq hx, if_pos h]
  exact denotes_product h

theorem factorial_of_large (hx : Denotes x n) (h : 171 ≤ n) :
    factorial x = .ok Binary64.infinity := by
  rw [factorial_eq hx, if_neg (by omega)]

theorem factorial_of_neg (h : x < 0) : factorial x = .ok Binary64.nan := by
  rw [factorial, if_pos (by simp [h])]
  rfl

theorem factorial_infinity : factorial Binary64.infinity = .ok Binary64.infinity := by
  decide +kernel

/-- An integer part is asked for only of numbers from zero up to the cut. -/
theorem factorial_total (x : Float) : ∃ y, factorial x = .ok y := by
  rcases nan_or_infinity_or_finite x with rfl | ⟨s, rfl⟩ | hfinite
  · exact ⟨Binary64.nan, by decide +kernel⟩
  · cases s with
    | positive => exact ⟨_, factorial_infinity⟩
    | negative => exact ⟨_, factorial_of_neg (by decide +kernel)⟩
  · obtain ⟨q, hq⟩ := isFinite_iff.1 hfinite
    rcases le_or_gt 0 q with hnonneg | hneg
    · rw [factorial_eq_floor hq hnonneg]
      split
      case isTrue hsmall =>
        obtain ⟨y, hy, -⟩ := denotes_product hsmall
        exact ⟨y, hy⟩
      case isFalse => exact ⟨_, rfl⟩
    · exact ⟨_, factorial_of_neg ((hq.lt_iff denotes_zero).2 hneg)⟩

end Factorial
end Reckoner.Arithmetic
