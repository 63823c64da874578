import Mathlib
import Reckoner.Builtin
import Reckoner.Proofs.Arithmetic.Combinations
import Reckoner.Proofs.Arithmetic.Hyperbolic

/-!
What each function may fail with. Outside of the restricted ones no failure of a part gets out. A
restricted function refuses its domain's holes, and its parts have values for all the rest, except at
an infinite angle: the reciprocals of the circular functions let that failure through.
-/

namespace Reckoner

namespace Unary

open Binary64

variable {x : Float}

theorem circular_total (f : Float → Float) (x : Float) :
    ∃ y, circular (Checked.circular f) x = .ok y := by
  rw [circular, Checked.circular]
  split
  · exact ⟨_, rfl⟩
  · exact ⟨_, rfl⟩

/-- An integer part less than one away from the number can be converted back. -/
theorem whole_total {part : Float → Except MathFault Int} {n : ℚ → ℤ}
    (hpart : ∀ {x q}, Denotes x q → part x = .ok (n q)) (hnear : ∀ q, |(n q : ℚ) - q| < 1)
    (x : Float) : ∃ y, whole part x = .ok y := by
  rw [whole]
  split
  case isTrue hfinite =>
    obtain ⟨q, hq⟩ := isFinite_iff.1 hfinite
    obtain ⟨hrepresentable, hlt⟩ := hq.representable_and_lt (hnear q)
    rw [hpart hq]
    exact ⟨_, Checked.ofInteger_eq hrepresentable hlt⟩
  case isFalse => exact ⟨x, rfl⟩

/-- A function of one argument that is not restricted has a value for every double. -/
theorem apply_total [Elementary] (h : Elementary.Documented) (f : Unary) (x : Float) :
    ∃ y, f.apply x = .ok y := by
  cases f with
  | sin | cos | tan => exact circular_total _ x
  | abs => exact ⟨_, rfl⟩
  | exp => exact Arithmetic.exp_total x
  | fac => exact Arithmetic.factorial_total x
  | ceil => exact whole_total Checked.ceil_eq abs_ceil_sub_lt x
  | floor => exact whole_total Checked.floor_eq abs_floor_sub_lt x
  | sinh => exact Arithmetic.sinh_total x
  | cosh => exact Arithmetic.cosh_total x
  | tanh => exact Arithmetic.tanh_total h x

end Unary

theorem Binary.apply_total [Elementary] (f : Binary) (x y : Float) : ∃ z, f.apply x y = .ok z := by
  cases f with
  | atan2 => exact ⟨_, rfl⟩
  | ncr => exact Arithmetic.combinations_total x y
  | npr => exact Arithmetic.permutations_total x y

namespace Binary64

theorem beq_eq (x y : Float) : (x == y) = x.toModel.unpack.beq y.toModel.unpack := rfl

theorem exists_unpack_eq_infinity {x : Float} (h : x.isInf) :
    ∃ sign, x.toModel.unpack = .infinity sign := by
  replace h : x.toModel.unpack.isInf = true := h
  cases hx : x.toModel.unpack with
  | infinity sign => exact ⟨sign, rfl⟩
  | notANumber | zero | finite =>
    rw [hx] at h
    exact absurd h Bool.false_ne_true

theorem not_isInf_zero : ¬(0 : Float).isInf := by decide

theorem not_isInf_quarter : ¬(pi / 2).isInf ∧ ¬(-pi / 2).isInf := by decide

/-- An infinity is equal to infinities alone. -/
theorem isInf_of_beq {x y : Float} (hx : x.isInf) (h : x == y) : y.isInf := by
  obtain ⟨sign, hx⟩ := exists_unpack_eq_infinity hx
  rw [beq_eq, hx] at h
  show y.toModel.unpack.isInf = true
  cases hy : y.toModel.unpack with
  | infinity sign' => rfl
  | notANumber | zero | finite =>
    rw [hy] at h
    cases sign <;> exact absurd h Bool.false_ne_true

end Binary64

namespace Restricted

/-- Whether the function is the reciprocal of a circular one. -/
def isReciprocal : Restricted → Bool
  | .cosec | .sec | .cot => true
  | .log | .ln | .sqrt => false

theorem not_refuses_of_isInf {f : Restricted} (hf : f.isReciprocal) {x : Float} (hx : x.isInf) :
    f.refuses x = false := by
  have hne {y : Float} (hy : ¬y.isInf) : (x == y) = false := by
    cases h : x == y with
    | false => rfl
    | true => exact absurd (Binary64.isInf_of_beq hx h) hy
  -- what these functions refuse are finite angles
  obtain ⟨hquarter, hquarter'⟩ := Binary64.not_isInf_quarter
  cases f with
  | cosec => exact hne Binary64.not_isInf_zero
  | cot => exact hne Binary64.not_isInf_zero
  | sec => simp only [refuses, hne hquarter, hne hquarter', Bool.or_false]
  | log => simp [isReciprocal] at hf
  | ln => simp [isReciprocal] at hf
  | sqrt => simp [isReciprocal] at hf

section Compute

variable {f : Restricted} {x : Float}

theorem reciprocal_of_isInf (g : Float → Float) (hx : x.isInf) :
    (Checked.circular g x >>= Arithmetic.divide 1) = .error .outside := by
  rw [Checked.circular_of_isInf g hx]
  rfl

theorem reciprocal_total (g : Float → Float) (hx : ¬x.isInf) :
    ∃ y, (Checked.circular g x >>= Arithmetic.divide 1) = .ok y := by
  rw [Checked.circular_eq g hx]
  exact ⟨_, Arithmetic.divide_eq 1 (g x)⟩

variable [Elementary]

theorem compute_of_isInf (hf : f.isReciprocal) (hx : x.isInf) :
    f.compute x = .error .outside := by
  cases f with
  | cosec | sec | cot => exact reciprocal_of_isInf _ hx
  | log | ln | sqrt => cases hf

/-- Outside of what the function refuses there is one more failure, that of an infinite angle. -/
theorem compute_total (hx : f.refuses x = false) (hfinite : f.isReciprocal → ¬x.isInf) :
    ∃ y, f.compute x = .ok y := by
  cases f with
  | cosec | sec | cot => exact reciprocal_total _ (hfinite rfl)
  | log | ln => exact ⟨_, Checked.logarithm_eq _ (of_decide_eq_false hx)⟩
  | sqrt => exact ⟨_, Checked.sqrt_eq (of_decide_eq_false hx)⟩

/-- What the function refuses, and why. -/
theorem apply_eq_error_iff {r : Refusal} :
    f.apply x = .error r ↔
      r = .outside f ∧ f.refuses x ∨ r = .raised .outside ∧ f.isReciprocal ∧ x.isInf := by
  rw [apply]
  by_cases hx : f.refuses x
  · rw [if_pos hx]
    constructor
    · intro h
      exact .inl ⟨(Except.error.inj h).symm, hx⟩
    · rintro (⟨rfl, -⟩ | ⟨-, hf, hinf⟩)
      · rfl
      · simp [not_refuses_of_isInf hf hinf] at hx
  · rw [if_neg hx]
    by_cases hangle : f.isReciprocal ∧ x.isInf
    · rw [compute_of_isInf hangle.1 hangle.2]
      constructor
      · intro h
        exact .inr ⟨(Except.error.inj h).symm, hangle⟩
      · rintro (⟨-, habsurd⟩ | ⟨rfl, -⟩)
        · exact absurd habsurd hx
        · rfl
    · obtain ⟨y, hy⟩ := compute_total (Bool.not_eq_true _ ▸ hx) fun hf hinf => hangle ⟨hf, hinf⟩
      rw [hy]
      refine iff_of_false (fun h => by cases h) ?_
      rintro (⟨-, habsurd⟩ | ⟨-, habsurd⟩)
      · exact hx habsurd
      · exact hangle habsurd

end Compute

end Restricted
end Reckoner
