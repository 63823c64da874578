import Mathlib
import Reckoner.Arithmetic
import Reckoner.Proofs.Checked

/-!
Quotients for every pair of doubles. A zero divisor is told apart, and gets the value back that the
division of doubles has.
-/

namespace Reckoner.Arithmetic

open Binary64 (HasSign copySign infinity isNegative signedInfinity)
open Float.Model (UnpackedFloat)
open Float.Model.UnpackedFloat (Sign)

variable {a b : Float} {s t : Sign}

theorem div_eq (a b : Float) :
    a / b = .ofModel (.pack (.div .binary64 a.toModel.unpack b.toModel.unpack)) := rfl

theorem ofModel_pack_infinity (s : Sign) :
    Float.ofModel (.pack (.infinity s)) = signedInfinity s := by
  cases s <;> rfl

/-- An infinity and a one with given signs, multiplied. -/
theorem copySign_mul_copySign (ha : HasSign a.toModel.unpack s) (hb : HasSign b.toModel.unpack t) :
    copySign infinity a * copySign 1 b = signedInfinity (s / t) := by
  rw [copySign, copySign, ha.isNegative, hb.isNegative]
  cases s <;> cases t <;> decide +kernel

/-- A zero divides what is neither zero nor no number to an infinity. -/
theorem divide_zero (ha : HasSign a.toModel.unpack s) (hne : (a == 0) = false)
    (hb : b.toModel.unpack = .zero t) : divide a b = .ok (signedInfinity (s / t)) := by
  have hnan : a.isNaN = false := by
    have hread : a.isNaN = a.toModel.unpack.isNaN := rfl
    rw [hread]
    generalize a.toModel.unpack = u at ha
    cases ha <;> rfl
  rw [divide, if_pos (Binary64.beq_zero_iff.2 ⟨t, hb⟩), hne, hnan]
  exact congrArg Except.ok (copySign_mul_copySign ha (hb ▸ .zero t))

/-- The quotient is that of doubles, for a zero divisor as well: no division by it is tried. -/
theorem divide_eq (a b : Float) : divide a b = .ok (a / b) := by
  by_cases hzero : (b == 0) = true
  · obtain ⟨t, ht⟩ := Binary64.beq_zero_iff.1 hzero
    rw [div_eq, ht]
    cases ha : a.toModel.unpack with
    | notANumber =>
      have hread : a.isNaN = a.toModel.unpack.isNaN := rfl
      have hnone : (a == 0 || a.isNaN) = true := by
        rw [hread, ha]
        exact Bool.or_true _
      rw [divide, if_pos hzero, if_pos hnone]
      rfl
    | zero s =>
      rw [divide, if_pos hzero, Binary64.beq_zero_iff.2 ⟨s, ha⟩, Bool.true_or, if_pos rfl]
      rfl
    | infinity s =>
      have hsign : HasSign a.toModel.unpack s := ha ▸ .infinity s
      rw [divide_zero hsign (Binary64.beq_zero_eq_false (by simp [ha])) ht]
      exact congrArg Except.ok (ofModel_pack_infinity (s / t)).symm
    | finite s m e hm =>
      have hsign : HasSign a.toModel.unpack s := ha ▸ .finite s m e hm
      rw [divide_zero hsign (Binary64.beq_zero_eq_false (by simp [ha])) ht]
      exact congrArg Except.ok (ofModel_pack_infinity (s / t)).symm
  · rw [divide, if_neg hzero, Checked.quotient_eq (Bool.not_eq_true _ ▸ hzero)]

/-- A quotient by zero is an infinity, negative if the signs differ. -/
theorem isNegative_divide_zero (hne : (a == 0) = false) (hnan : a.isNaN = false)
    (hb : (b == 0) = true) :
    ∃ x, divide a b = .ok x ∧ x.isInf = true ∧ isNegative x = (isNegative a != isNegative b) := by
  obtain ⟨s, hs⟩ := Binary64.exists_hasSign hnan
  obtain ⟨t, ht⟩ := Binary64.beq_zero_iff.1 hb
  have hsign : HasSign (signedInfinity (s / t)).toModel.unpack (s / t) := by
    rw [Binary64.unpack_signedInfinity]
    exact .infinity _
  have hzero : HasSign b.toModel.unpack t := ht ▸ .zero t
  refine ⟨_, divide_zero hs hne ht, Binary64.isInf_signedInfinity _, ?_⟩
  rw [hsign.isNegative, hs.isNegative, hzero.isNegative]
  cases s <;> cases t <;> rfl

end Reckoner.Arithmetic
