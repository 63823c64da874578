import Mathlib
import Reckoner.Checked
import Reckoner.Proofs.Binary64.Truncation

/-!
Where the operations that may fail do not: each succeeds under the guard that its users have put before
it. An integer part of a double is a double again, so that it can always be converted back.
-/

namespace Reckoner.Checked

open Binary64

variable {a b x : Float} {q : ℚ}

theorem quotient_eq (hb : (b == 0) = false) (a : Float) : quotient a b = .ok (a / b) := by
  rw [quotient, hb]
  rfl

/-- A finite dividend leaves a remainder for every divisor but zero. -/
theorem remainder_eq (ha : a.isFinite = true) (hb : (b == 0) = false) :
    remainder a b = .ok (Binary64.remainder a b) := by
  obtain ⟨p, hp⟩ := isFinite_iff.1 ha
  have hnumber : (Binary64.remainder a b).isNaN = false ∨ b.isNaN = true := by
    rcases nan_or_infinity_or_finite b with rfl | ⟨s, rfl⟩ | hfinite
    · exact .inr rfl
    · left
      have hself : Binary64.remainder a (signedInfinity s) = a := by
        have his := hp.is
        rw [Binary64.remainder, unpack_signedInfinity]
        cases hunpack : a.toModel.unpack with
        | zero | finite => rfl
        | infinity | notANumber =>
          rw [hunpack] at his
          exact his.elim
      rw [hself]
      exact hp.isNaN_eq_false
    · left
      obtain ⟨q, hq⟩ := isFinite_iff.1 hfinite
      have hne : q ≠ 0 := by
        rwa [← Bool.not_eq_true, hq.beq_iff denotes_zero] at hb
      exact (hp.remainder hq hne).isNaN_eq_false
  rw [remainder]
  rcases hnumber with h | h
  · simp only [h, Bool.false_and, Bool.false_eq_true, if_false]
    rfl
  · simp only [h, Bool.not_true, Bool.and_false, Bool.false_eq_true, if_false]
    rfl

theorem sqrt_eq (hx : ¬x < 0) : sqrt x = .ok x.sqrt := if_neg hx

theorem logarithm_eq (f : Float → Float) (hx : ¬x ≤ 0) : logarithm f x = .ok (f x) := if_neg hx

theorem circular_eq (f : Float → Float) (hx : ¬x.isInf) : circular f x = .ok (f x) := if_neg hx

theorem circular_of_isInf (f : Float → Float) (hx : x.isInf) : circular f x = .error .outside :=
  if_pos hx

/-! ### Integer parts -/

theorem truncate_eq (h : Denotes x q) : truncate x = .ok (towardZero q) := by
  rw [truncate, part, h.truncate?]
  rfl

theorem floor_eq (h : Denotes x q) : floor x = .ok ⌊q⌋ := by
  rw [floor, part, h.floor?]
  rfl

theorem ceil_eq (h : Denotes x q) : ceil x = .ok ⌈q⌉ := by
  rw [ceil, part, h.ceil?]
  rfl

theorem natAbs_log2_lt {n : ℤ} {k : ℕ} (hk : 0 < k) (h : |(n : ℚ)| < 2 ^ k) :
    n.natAbs.log2 < k := by
  rcases eq_or_ne n.natAbs 0 with hzero | hzero
  · rw [hzero]
    exact hk
  · rw [Nat.log2_lt hzero, ← @Nat.cast_lt ℚ, Nat.cast_pow, Nat.cast_ofNat, Nat.cast_natAbs,
      Int.cast_abs]
    exact h

/-- A double that is an integer is converted back to itself. -/
theorem ofInteger_eq {n : ℤ} (h : Representable n) (hlt : |(n : ℚ)| < 2 ^ 1024) :
    ofInteger n = .ok (Float.ofInt n) := by
  have hfinite := isFinite_iff.2 ⟨_, denotes_ofInt h hlt⟩
  rw [ofInteger, hfinite, decide_eq_true (natAbs_log2_lt (by norm_num) hlt)]
  rfl

theorem ofInteger_natCast {n : ℕ} (h : n < 2 ^ 53) : ofInteger n = .ok (Float.ofNat n) := by
  have hcast : ((n : ℤ) : ℚ) = n := Int.cast_natCast n
  refine ofInteger_eq ?_ ?_
  · rw [hcast]
    exact representable_natCast h
  · rw [hcast]
    exact abs_natCast_lt h

end Reckoner.Checked
