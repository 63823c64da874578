import Mathlib
import Reckoner.Arithmetic
import Reckoner.Proofs.Checked

/-!
The modulo is the Euclidean remainder, rounded to the nearest double. It lies between zero and the
size of the divisor. The size itself is reached where a dividend below zero is so small that bringing
its remainder up is not seen.
-/

namespace Reckoner.Arithmetic

open Binary64

/-- What a Euclidean division leaves over, which is zero or above. -/
def euclidean (p q : ℚ) : ℚ := |q| * Int.fract (p / |q|)

section Euclidean

variable {p q : ℚ}

theorem euclidean_nonneg (p q : ℚ) : 0 ≤ euclidean p q :=
  mul_nonneg (abs_nonneg q) (Int.fract_nonneg _)

theorem euclidean_lt (hq : q ≠ 0) : euclidean p q < |q| := by
  have h := mul_lt_mul_of_pos_left (Int.fract_lt_one (p / |q|)) (abs_pos.2 hq)
  rwa [mul_one] at h

theorem euclidean_of_nonneg (hp : 0 ≤ p) (q : ℚ) : euclidean p q = leftOver p q := by
  rw [euclidean, leftOver, if_neg hp.not_gt, abs_of_nonneg hp]

/-- One size of the divisor brings what is left over up to zero or above. -/
theorem euclidean_eq (p : ℚ) (hq : q ≠ 0) :
    euclidean p q = if leftOver p q < 0 then leftOver p q + |q| else leftOver p q := by
  have hnonneg := euclidean_nonneg |p| q
  rcases le_or_gt 0 p with hp | hp
  · rw [← euclidean_of_nonneg hp, if_neg (euclidean_nonneg p q).not_gt]
  · have hleft : leftOver p q = -euclidean |p| q := if_pos hp
    have hquotient : p / |q| = -(|p| / |q|) := by rw [abs_of_neg hp, neg_div, neg_neg]
    rw [hleft]
    by_cases hzero : Int.fract (|p| / |q|) = 0
    · rw [euclidean, euclidean, hquotient, Int.fract_neg_eq_zero.2 hzero, hzero]
      simp
    · have hpos : 0 < euclidean |p| q :=
        mul_pos (abs_pos.2 hq) ((Int.fract_nonneg _).lt_of_ne' hzero)
      rw [if_pos (neg_neg_of_pos hpos), euclidean, euclidean, hquotient, Int.fract_neg hzero]
      ring

end Euclidean

section Modulo

variable {a b : Float} {p q : ℚ}

theorem abs_nearest_euclidean_lt (p : ℚ) (hb : Denotes b q) (hq : q ≠ 0) :
    nearest (euclidean p q) ≤ |q| ∧ |nearest (euclidean p q)| < 2 ^ 1024 := by
  have hle : nearest (euclidean p q) ≤ |q| := by
    rw [← hb.abs.representable.nearest_eq]
    exact nearest_mono (euclidean_lt hq).le
  refine ⟨hle, ?_⟩
  rw [abs_of_nonneg (nearest_nonneg (euclidean_nonneg p q))]
  exact hle.trans_lt hb.abs_lt

theorem denotes_modulo (ha : Denotes a p) (hb : Denotes b q) (hq : q ≠ 0) :
    ∃ r, modulo a b = .ok r ∧ Denotes r (nearest (euclidean p q)) := by
  have hzero : (b == 0) = false := by
    rw [← Bool.not_eq_true, hb.beq_iff denotes_zero]
    exact hq
  have hfinite : a.isFinite = true := isFinite_iff.2 ⟨p, ha⟩
  have hleft := ha.remainder hb hq
  have hbound := (abs_nearest_euclidean_lt p hb hq).2
  rw [modulo, Checked.remainder_eq hfinite hzero, hzero, hfinite]
  refine ⟨_, rfl, ?_⟩
  simp only [hleft.lt_iff denotes_zero]
  rw [euclidean_eq p hq] at hbound ⊢
  split at hbound
  case isTrue h =>
    rw [if_pos h, if_pos h]
    exact hleft.add hb.abs hbound
  case isFalse h =>
    rw [if_neg h, if_neg h, hleft.representable.nearest_eq]
    exact hleft

/-- No remainder is asked for but of a finite dividend by what is not zero. -/
theorem modulo_total (a b : Float) : ∃ r, modulo a b = .ok r := by
  rw [modulo]
  by_cases h : (b == 0 || !a.isFinite) = true
  · rw [if_pos h]
    exact ⟨_, rfl⟩
  · obtain ⟨hzero, hfinite⟩ : (b == 0) = false ∧ a.isFinite = true := by simpa using h
    rw [if_neg h, Checked.remainder_eq hfinite hzero]
    exact ⟨_, rfl⟩

/-- The modulo of finite doubles is the Euclidean remainder rounded, which may round up to the size
of the divisor. What is a double stays below, and a dividend of zero or above always leaves one. -/
theorem modulo_rounds_euclidean (ha : a.isFinite = true) (hb : b.isFinite = true)
    (hzero : (b == 0) = false) :
    ∃ p q r, Denotes a p ∧ Denotes b q ∧ q ≠ 0 ∧ modulo a b = .ok r ∧
      Denotes r (nearest (euclidean p q)) ∧ 0 ≤ r ∧ r ≤ b.abs ∧
      (Representable (euclidean p q) → r < b.abs) ∧
      (0 ≤ a → Representable (euclidean p q)) := by
  obtain ⟨p, hp⟩ := isFinite_iff.1 ha
  obtain ⟨q, hq⟩ := isFinite_iff.1 hb
  have hne : q ≠ 0 := by
    rwa [← Bool.not_eq_true, hq.beq_iff denotes_zero] at hzero
  obtain ⟨r, hr, hmodulo⟩ := denotes_modulo hp hq hne
  refine ⟨p, q, r, hp, hq, hne, hr, hmodulo, ?_, ?_, fun h => ?_, fun h => ?_⟩
  · exact (denotes_zero.le_iff hmodulo).2 (nearest_nonneg (euclidean_nonneg p q))
  · exact (hmodulo.le_iff hq.abs).2 (abs_nearest_euclidean_lt p hq hne).1
  · rw [hmodulo.lt_iff hq.abs, h.nearest_eq]
    exact euclidean_lt hne
  · rw [euclidean_of_nonneg ((denotes_zero.le_iff hp).1 h)]
    exact (hp.remainder hq hne).representable

/-- A dividend below zero, at a divisor of the other sign. -/
theorem modulo_rounds_euclidean_negative :
    (-7 : Float).isFinite = true ∧ (3 : Float).isFinite = true ∧ ((3 : Float) == 0) = false ∧
      ∃ p q r, Denotes (-7) p ∧ Denotes 3 q ∧ q ≠ 0 ∧ modulo (-7) 3 = .ok r ∧
        Denotes r (nearest (euclidean p q)) ∧ 0 ≤ r ∧ r ≤ (3 : Float).abs ∧
        (Representable (euclidean p q) → r < (3 : Float).abs) ∧
        ((0 : Float) ≤ -7 → Representable (euclidean p q)) :=
  ⟨by decide +kernel, by decide +kernel, by decide +kernel,
    modulo_rounds_euclidean (by decide +kernel) (by decide +kernel) (by decide +kernel)⟩

/-- A hundred-quadrillionth below zero is brought up to one itself, not to less than one. -/
theorem not_modulo_lt_abs :
    ¬∀ a b : Float, a.isFinite = true → b.isFinite = true → (b == 0) = false →
      ∃ r, modulo a b = .ok r ∧ 0 ≤ r ∧ r < b.abs := fun h => by
  obtain ⟨r, hr, -, hlt⟩ :=
    h (-1e-17) 1 (by decide +kernel) (by decide +kernel) (by decide +kernel)
  have hone : modulo (-1e-17) 1 = .ok 1 := by decide +kernel
  obtain rfl : 1 = r := Except.ok.inj (hone.symm.trans hr)
  revert hlt
  decide +kernel

end Modulo
end Reckoner.Arithmetic
