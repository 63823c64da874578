import Mathlib
import Reckoner.Proofs.Arithmetic.Division
import Reckoner.Proofs.Arithmetic.Factorial

/-!
Combinations and permutations of whole numbers. Up to 22 they are exact. Factorials are rounded from
23 on, and the results are near, with an error that grows with the number of factors. From 171 on an
infinite factorial leaves no finite result.
-/

namespace Reckoner.Arithmetic

open Binary64 (Denotes Within Representable nearest)
open Float.Model (UnpackedFloat)

/-! ### The rounded quotients -/

/-- A quotient of factorials, rounded as it is computed. -/
def roundedCombinations (n r : ℕ) : ℚ :=
  nearest (roundedFactorial n / nearest (roundedFactorial r * roundedFactorial (n - r)))

def roundedPermutations (n r : ℕ) : ℚ :=
  nearest (roundedFactorial n / roundedFactorial (n - r))

section Rounded

variable {n r k : ℕ} {x y : ℚ}

/-- Rounding what is still near a number of one or above takes one more factor. -/
theorem within_nearest_of_within (h : Within k x y) (hk : k ≤ 500) (hy : 1 ≤ y) :
    Within (1 + k) (nearest x) y := by
  refine (Within.nearest ?_).trans h
  have hk' : (k : ℚ) ≤ 500 := by exact_mod_cast hk
  have hshrink : (1 / 2 : ℚ) ≤ Binary64.shrink ^ k := by
    refine le_trans ?_ (Binary64.one_sub_le_shrink_pow k)
    norm_num
    linarith
  calc (2 : ℚ) ^ (-1022 : ℤ) ≤ 2 ^ (-1 : ℤ) := Binary64.two_zpow_le (by norm_num)
    _ = 1 / 2 * 1 := by norm_num
    _ ≤ Binary64.shrink ^ k * y := mul_le_mul hshrink hy zero_le_one (by linarith)
    _ ≤ x := h.lower

theorem cast_descFactorial (h : r ≤ n) :
    (n.factorial / (n - r).factorial : ℚ) = n.descFactorial r := by
  rw [div_eq_iff (by exact_mod_cast (n - r).factorial_ne_zero), mul_comm]
  exact_mod_cast (Nat.factorial_mul_descFactorial h).symm

theorem choose_dvd_factorial (h : r ≤ n) : n.choose r ∣ n.factorial :=
  ⟨r.factorial * (n - r).factorial, by
    rw [← mul_assoc, Nat.choose_mul_factorial_mul_factorial h]⟩

theorem descFactorial_dvd_factorial (h : r ≤ n) : n.descFactorial r ∣ n.factorial :=
  ⟨(n - r).factorial, by rw [mul_comm, Nat.factorial_mul_descFactorial h]⟩

theorem one_le_factorial_mul (n r : ℕ) : (1 : ℚ) ≤ r.factorial * (n - r).factorial := by
  exact_mod_cast Nat.mul_pos r.factorial_pos (n - r).factorial_pos

theorem within_denominator (h : r ≤ n) :
    Within (n + 1) (nearest (roundedFactorial r * roundedFactorial (n - r)))
      (r.factorial * (n - r).factorial) := by
  have hr := one_le_roundedFactorial r
  have hrest := one_le_roundedFactorial (n - r)
  have hproduct := (within_roundedFactorial r).mul (within_roundedFactorial (n - r))
    (by linarith) (by linarith) (Nat.cast_nonneg _) (Nat.cast_nonneg _)
  have h' := (within_nearest (one_le_mul_of_one_le_of_one_le hr hrest)).trans hproduct
  rwa [show 1 + (r + (n - r)) = n + 1 by omega] at h'

theorem one_le_denominator (n r : ℕ) :
    1 ≤ nearest (roundedFactorial r * roundedFactorial (n - r)) :=
  one_le_nearest (one_le_mul_of_one_le_of_one_le (one_le_roundedFactorial r)
    (one_le_roundedFactorial (n - r)))

theorem within_roundedCombinations (h : r ≤ n) (hn : n ≤ 170) :
    Within (2 * n + 2) (roundedCombinations n r) (n.choose r) := by
  have hnum := one_le_roundedFactorial n
  have hden := one_le_denominator n r
  have hquotient := (within_roundedFactorial n).div (within_denominator h) (by linarith)
    (by linarith) (Nat.cast_nonneg _) (by linarith [one_le_factorial_mul n r])
  rw [← Nat.cast_choose ℚ h] at hquotient
  have h' := within_nearest_of_within hquotient (by omega)
    (by exact_mod_cast Nat.choose_pos h)
  rwa [show 1 + (n + (n + 1)) = 2 * n + 2 by omega] at h'

theorem within_roundedPermutations (h : r ≤ n) (hn : n ≤ 170) :
    Within (1 + (n + (n - r))) (roundedPermutations n r) (n.descFactorial r) := by
  have hnum := one_le_roundedFactorial n
  have hden := one_le_roundedFactorial (n - r)
  have hquotient := (within_roundedFactorial n).div (within_roundedFactorial (n - r)) (by linarith)
    (by linarith) (Nat.cast_nonneg _) (by exact_mod_cast (n - r).factorial_pos)
  rw [cast_descFactorial h] at hquotient
  exact within_nearest_of_within hquotient (by omega) (by exact_mod_cast Nat.descFactorial_pos.2 h)

theorem roundedCombinations_nonneg (n r : ℕ) : 0 ≤ roundedCombinations n r :=
  Binary64.nearest_nonneg (div_nonneg (zero_le_one.trans (one_le_roundedFactorial n))
    (zero_le_one.trans (one_le_denominator n r)))

theorem roundedPermutations_nonneg (n r : ℕ) : 0 ≤ roundedPermutations n r :=
  Binary64.nearest_nonneg (div_nonneg (zero_le_one.trans (one_le_roundedFactorial n))
    (zero_le_one.trans (one_le_roundedFactorial (n - r))))

theorem roundedCombinations_eq (h : r ≤ n) (hn : n ≤ 22) : roundedCombinations n r = n.choose r := by
  have hdvd := Nat.factorial_dvd_factorial hn
  have hden : nearest (r.factorial * (n - r).factorial) = r.factorial * (n - r).factorial := by
    have := representable_of_dvd ((Nat.factorial_mul_factorial_dvd_factorial h).trans hdvd)
    rw [← Nat.cast_mul]
    exact this.nearest_eq
  rw [roundedCombinations, roundedFactorial_eq hn, roundedFactorial_eq (h.trans hn),
    roundedFactorial_eq ((Nat.sub_le n r).trans hn), hden, ← Nat.cast_choose ℚ h]
  exact (representable_of_dvd ((choose_dvd_factorial h).trans hdvd)).nearest_eq

theorem roundedPermutations_eq (h : r ≤ n) (hn : n ≤ 22) :
    roundedPermutations n r = n.descFactorial r := by
  rw [roundedPermutations, roundedFactorial_eq hn, roundedFactorial_eq ((Nat.sub_le n r).trans hn),
    cast_descFactorial h]
  exact (representable_of_dvd ((descFactorial_dvd_factorial h).trans
    (Nat.factorial_dvd_factorial hn))).nearest_eq

end Rounded

/-! ### Combinations and permutations of doubles -/

section Doubles

variable {a b x y : Float} {p q : ℚ} {n r : ℕ}

theorem denotes_divide (ha : Denotes a p) (hb : Denotes b q) (hq : q ≠ 0)
    (hlt : |nearest (p / q)| < 2 ^ 1024) :
    ∃ c, divide a b = .ok c ∧ Denotes c (nearest (p / q)) :=
  ⟨a / b, divide_eq a b, ha.div hb hq hlt⟩

theorem outOfReach_eq_false (hx : Denotes x n) (hy : Denotes y r) (h : r ≤ n) :
    outOfReach x y = false := by
  have hless : ¬x < y := by
    rw [hx.lt_iff hy]
    exact_mod_cast h.not_gt
  have hx' : ¬x < 0 := by
    rw [hx.lt_iff Binary64.denotes_zero]
    exact_mod_cast n.not_lt_zero
  have hy' : ¬y < 0 := by
    rw [hy.lt_iff Binary64.denotes_zero]
    exact_mod_cast r.not_lt_zero
  simp [outOfReach, hless, hx', hy']

theorem denotes_rest (hx : Denotes x n) (hy : Denotes y r) (h : r ≤ n) (hn : n ≤ 170) :
    Denotes (x - y) (n - r : ℕ) := by
  have hexact := (Binary64.representable_natCast (n := n - r) (by omega)).nearest_eq
  have hsub := hx.sub hy
  rw [← Nat.cast_sub h, hexact] at hsub
  exact hsub (Binary64.abs_natCast_lt (by omega))

/-- A number that divides the factorial is small enough. -/
theorem cast_le_of_dvd_factorial {m : ℕ} (h : m ∣ n.factorial) (hn : n ≤ 170) :
    (m : ℚ) ≤ Nat.factorial 170 :=
  le_trans (by exact_mod_cast Nat.le_of_dvd n.factorial_pos h) (factorial_le hn)

theorem combinations_eq (h : outOfReach x y = false) (hx : factorial x = .ok a)
    (hy : factorial y = .ok b) {c : Float} (hrest : factorial (x - y) = .ok c) :
    combinations x y = divide a (b * c) := by
  rw [combinations, h, if_neg Bool.false_ne_true, hx, hy, hrest]
  rfl

theorem permutations_eq (h : outOfReach x y = false) (hx : factorial x = .ok a)
    (hrest : factorial (x - y) = .ok b) : permutations x y = divide a b := by
  rw [permutations, h, if_neg Bool.false_ne_true, hx, hrest]
  rfl

theorem denotes_combinations (hx : Denotes x n) (hy : Denotes y r) (h : r ≤ n) (hn : n ≤ 170) :
    ∃ c, combinations x y = .ok c ∧ Denotes c (roundedCombinations n r) := by
  have hden := one_le_denominator n r
  have hsmall : (r.factorial * (n - r).factorial : ℚ) ≤ Nat.factorial 170 := by
    rw [← Nat.cast_mul]
    exact cast_le_of_dvd_factorial (Nat.factorial_mul_factorial_dvd_factorial h) hn
  obtain ⟨a, ha, hnum⟩ := denotes_factorial hx hn
  obtain ⟨b, hb, hleft⟩ := denotes_factorial hy (h.trans hn)
  obtain ⟨c, hc, hright⟩ := denotes_factorial (denotes_rest hx hy h hn) (by omega)
  have hproduct := hleft.mul hright
    (abs_lt_of_within (within_denominator h) (by omega) (by linarith)
      (by linarith [one_le_factorial_mul n r]) hsmall)
  rw [combinations_eq (outOfReach_eq_false hx hy h) ha hb hc]
  refine denotes_divide hnum hproduct (by linarith) ?_
  exact abs_lt_of_within (within_roundedCombinations h hn) (by omega)
    (roundedCombinations_nonneg n r) (Nat.cast_nonneg _)
    (cast_le_of_dvd_factorial (choose_dvd_factorial h) hn)

theorem denotes_permutations (hx : Denotes x n) (hy : Denotes y r) (h : r ≤ n) (hn : n ≤ 170) :
    ∃ p, permutations x y = .ok p ∧ Denotes p (roundedPermutations n r) := by
  have hden := one_le_roundedFactorial (n - r)
  obtain ⟨a, ha, hnum⟩ := denotes_factorial hx hn
  obtain ⟨b, hb, hrest⟩ := denotes_factorial (denotes_rest hx hy h hn) (by omega)
  rw [permutations_eq (outOfReach_eq_false hx hy h) ha hb]
  refine denotes_divide hnum hrest (by linarith) ?_
  exact abs_lt_of_within (within_roundedPermutations h hn) (by omega)
    (roundedPermutations_nonneg n r) (Nat.cast_nonneg _)
    (cast_le_of_dvd_factorial (descFactorial_dvd_factorial h) hn)

/-- An infinity is not divided to a number. -/
theorem isFinite_infinity_div (b : Float) : (Binary64.infinity / b).isFinite = false := by
  have hunpack : Binary64.infinity.toModel.unpack = .infinity .positive := by rfl
  have hread : (Binary64.infinity / b).isFinite = (UnpackedFloat.unpack .binary64
    (UnpackedFloat.pack .binary64 (.div .binary64 Binary64.infinity.toModel.unpack
      b.toModel.unpack))).isFinite := rfl
  rw [hread, hunpack]
  cases b.toModel.unpack with
  | infinity | notANumber =>
    show (UnpackedFloat.unpack .binary64 (UnpackedFloat.packedNaN .binary64)).isFinite = false
    rw [UnpackedFloat.unpack_packedNaN]
    rfl
  | zero s | finite s =>
    show (UnpackedFloat.unpack .binary64
      (UnpackedFloat.packedInfinity .binary64 (.positive / s))).isFinite = false
    rw [Binary64.unpack_special]
    rfl

/-- Both counts are quotients of factorials, which are there for every double. -/
theorem combinations_total (x y : Float) : ∃ c, combinations x y = .ok c := by
  by_cases hreach : outOfReach x y = true
  · exact ⟨Binary64.nan, by rw [combinations, if_pos hreach]; rfl⟩
  · obtain ⟨a, ha⟩ := factorial_total x
    obtain ⟨b, hb⟩ := factorial_total y
    obtain ⟨c, hc⟩ := factorial_total (x - y)
    rw [combinations_eq (Bool.not_eq_true _ ▸ hreach) ha hb hc]
    exact ⟨_, divide_eq a (b * c)⟩

theorem permutations_total (x y : Float) : ∃ p, permutations x y = .ok p := by
  by_cases hreach : outOfReach x y = true
  · exact ⟨Binary64.nan, by rw [permutations, if_pos hreach]; rfl⟩
  · obtain ⟨a, ha⟩ := factorial_total x
    obtain ⟨b, hb⟩ := factorial_total (x - y)
    rw [permutations_eq (Bool.not_eq_true _ ▸ hreach) ha hb]
    exact ⟨_, divide_eq a b⟩

theorem isFinite_combinations (hx : Denotes x n) (hy : Denotes y r) (h : r ≤ n) (hn : 171 ≤ n) :
    ∃ c, combinations x y = .ok c ∧ c.isFinite = false := by
  obtain ⟨b, hb⟩ := factorial_total y
  obtain ⟨c, hc⟩ := factorial_total (x - y)
  rw [combinations_eq (outOfReach_eq_false hx hy h) (factorial_of_large hx hn) hb hc, divide_eq]
  exact ⟨_, rfl, isFinite_infinity_div _⟩

theorem isFinite_permutations (hx : Denotes x n) (hy : Denotes y r) (h : r ≤ n) (hn : 171 ≤ n) :
    ∃ p, permutations x y = .ok p ∧ p.isFinite = false := by
  obtain ⟨b, hb⟩ := factorial_total (x - y)
  rw [permutations_eq (outOfReach_eq_false hx hy h) (factorial_of_large hx hn) hb, divide_eq]
  exact ⟨_, rfl, isFinite_infinity_div _⟩

/-- Both counts have a value. It is exact up to 22 things, near up to 170, and beyond that not
finite. -/
theorem combinations_permutations_near (hx : Denotes x n) (hy : Denotes y r) (h : r ≤ n) :
    ∃ c p, combinations x y = .ok c ∧ permutations x y = .ok p ∧
      (n ≤ 22 → Denotes c (n.choose r) ∧ Denotes p (n.descFactorial r)) ∧
      (n ≤ 170 → ∃ c' p', Denotes c c' ∧ Denotes p p' ∧
        |c' - n.choose r| ≤ (2 * n + 3) * 2 ^ (-53 : ℤ) * n.choose r ∧
        |p' - n.descFactorial r| ≤ (2 * n + 3) * 2 ^ (-53 : ℤ) * n.descFactorial r) ∧
      (171 ≤ n → c.isFinite = false ∧ p.isFinite = false) := by
  rcases Nat.lt_or_ge 170 n with hn | hn
  · obtain ⟨c, hc, hc'⟩ := isFinite_combinations hx hy h hn
    obtain ⟨p, hp, hp'⟩ := isFinite_permutations hx hy h hn
    exact ⟨c, p, hc, hp, fun _ => by omega, fun _ => by omega, fun _ => ⟨hc', hp'⟩⟩
  · obtain ⟨c, hc, hc'⟩ := denotes_combinations hx hy h hn
    obtain ⟨p, hp, hp'⟩ := denotes_permutations hx hy h hn
    refine ⟨c, p, hc, hp, fun hexact => ⟨?_, ?_⟩, fun _ => ⟨_, _, hc', hp', ?_, ?_⟩, fun _ => by omega⟩
    · rwa [roundedCombinations_eq h hexact] at hc'
    · rwa [roundedPermutations_eq h hexact] at hp'
    · refine ((within_roundedCombinations h hn).abs_sub_le (by omega)
        (roundedCombinations_nonneg n r) (Nat.cast_nonneg _)).trans_eq ?_
      push_cast
      ring
    · refine ((within_roundedPermutations h hn).abs_sub_le (by omega)
        (roundedPermutations_nonneg n r) (Nat.cast_nonneg _)).trans ?_
      have hcount : ((1 + (n + (n - r)) : ℕ) + 1 : ℚ) ≤ 2 * n + 3 := by
        exact_mod_cast (by omega : 1 + (n + (n - r)) + 1 ≤ 2 * n + 3)
      exact mul_le_mul_of_nonneg_right
        (mul_le_mul_of_nonneg_right hcount (Binary64.two_zpow_pos _).le) (Nat.cast_nonneg _)

/-- One of 24 things, where the factorials are already rounded. -/
theorem combinations_permutations_near_twentyFour :
    Denotes 24 (24 : ℕ) ∧ Denotes 1 (1 : ℕ) ∧ 1 ≤ 24 ∧ 24 ≤ 170 ∧
      ∃ c p c' p', combinations 24 1 = .ok c ∧ permutations 24 1 = .ok p ∧
        Denotes c c' ∧ Denotes p p' ∧
        |c' - Nat.choose 24 1| ≤ (2 * (24 : ℕ) + 3) * 2 ^ (-53 : ℤ) * Nat.choose 24 1 ∧
        |p' - Nat.descFactorial 24 1| ≤
          (2 * (24 : ℕ) + 3) * 2 ^ (-53 : ℤ) * Nat.descFactorial 24 1 := by
  have hx : Denotes 24 (24 : ℕ) := Binary64.denotes_ofNat (n := 24) (by norm_num)
  have hy : Denotes 1 (1 : ℕ) := Binary64.denotes_ofNat (n := 1) (by norm_num)
  obtain ⟨c, p, hc, hp, -, hnear, -⟩ := combinations_permutations_near hx hy (by norm_num)
  obtain ⟨c', p', h⟩ := hnear (by norm_num)
  exact ⟨hx, hy, by norm_num, by norm_num, c, p, c', p', hc, hp, h⟩

/-- One of 24 things can be taken in 24 ways, but the rounded quotients fall short of it. -/
theorem not_combinations_permutations_exact :
    ¬∀ (n r : ℕ) (x y : Float), Denotes x n → Denotes y r → r ≤ n →
      (n.choose r ≤ 2 ^ 53 → ∃ c, combinations x y = .ok c ∧ Denotes c (n.choose r)) ∧
      (n.descFactorial r ≤ 2 ^ 53 →
        ∃ p, permutations x y = .ok p ∧ Denotes p (n.descFactorial r)) := fun h => by
  have hx : Denotes 24 (24 : ℕ) := Binary64.denotes_ofNat (n := 24) (by norm_num)
  have hy : Denotes 1 (1 : ℕ) := Binary64.denotes_ofNat (n := 1) (by norm_num)
  have hsmall : Nat.choose 24 1 ≤ 2 ^ 53 := by rw [Nat.choose_one_right]; norm_num
  obtain ⟨c, hc, hexact⟩ := (h 24 1 24 1 hx hy (by norm_num)).1 hsmall
  rw [Nat.choose_one_right] at hexact
  have hequal : (c == 24) = true := (hexact.beq_iff hx).2 rfl
  have hshort : (combinations 24 1).map (· == 24) = .ok false := by decide +kernel
  rw [hc] at hshort
  exact Bool.false_ne_true ((Except.ok.inj hshort).symm.trans hequal)

end Doubles
end Reckoner.Arithmetic
