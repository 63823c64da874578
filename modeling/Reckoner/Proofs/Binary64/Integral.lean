import Mathlib
import Reckoner.Binary64
import Reckoner.Proofs.Binary64.Operations

/-!
Integer parts and remainders of doubles. They are computed on the exact values and lose nothing.
-/

namespace Reckoner.Binary64

open Float.Model (Format UnpackedFloat)
open Float.Model.UnpackedFloat (Sign)

variable {a b x : Float} {p q : ℚ}

/-! ### Integer parts -/

/-- The quotient read out of a double is its value. -/
theorem Denotes.fraction? (h : Denotes x q) :
    ∃ n d, fraction? x = some (n, d) ∧ 0 < d ∧ (n / d : ℚ) = q := by
  have h := h.is
  rw [Binary64.fraction?]
  generalize x.toModel.unpack = u at h ⊢
  cases u with
  | infinity | notANumber => exact h.elim
  | zero s => exact ⟨0, 1, rfl, one_pos, by rw [show q = 0 from h]; simp⟩
  | finite s m e hm =>
    refine ⟨_, _, rfl, ?_, ?_⟩
    · rw [Nat.shiftLeft_eq, one_mul]
      exact Nat.two_pow_pos _
    · have hsplit : (2 : ℚ) ^ e = 2 ^ e.toNat / 2 ^ (-e).toNat := by
        rw [← zpow_natCast, ← zpow_natCast, ← zpow_sub₀ two_ne_zero]
        congr 1
        omega
      rw [h.2, signed_natCast_mul, hsplit, Nat.shiftLeft_eq, Nat.shiftLeft_eq, one_mul]
      cases s <;> simp only [Sign.apply] <;> push_cast <;> ring

/-- Only of a number a quotient is read out, and it is its value. -/
theorem denotes_of_fraction? {n : ℤ} {d : ℕ} (h : fraction? x = some (n, d)) :
    0 < d ∧ Denotes x (n / d) := by
  have hfinite : x.isFinite = true := by
    have hread : x.isFinite = x.toModel.unpack.isFinite := rfl
    rw [hread]
    rw [fraction?] at h
    generalize x.toModel.unpack = u at h ⊢
    cases u with
    | zero | finite => rfl
    | infinity | notANumber => cases h
  obtain ⟨q, hq⟩ := isFinite_iff.1 hfinite
  obtain ⟨n', d', heq, hd, hquotient⟩ := hq.fraction?
  obtain ⟨rfl, rfl⟩ : n = n' ∧ d = d' := by simpa using h.symm.trans heq
  exact ⟨hd, hquotient ▸ hq⟩

/-- What is infinite or no number has no quotient. -/
theorem fraction?_eq_none (h : x.isFinite = false) : fraction? x = none := by
  cases hfraction : fraction? x with
  | none => rfl
  | some quotient =>
    have hfinite := isFinite_iff.2 ⟨_, (denotes_of_fraction? hfraction).2⟩
    rw [h] at hfinite
    cases hfinite

theorem Denotes.floor? (h : Denotes x q) : floor? x = some ⌊q⌋ := by
  obtain ⟨n, d, heq, hd, rfl⟩ := h.fraction?
  rw [Binary64.floor?, heq, Option.map_some, Rat.floor_intCast_div_natCast,
    ← Int.fdiv_eq_ediv_of_nonneg n (Int.natCast_nonneg d)]

theorem Denotes.ceil? (h : Denotes x q) : ceil? x = some ⌈q⌉ := by
  obtain ⟨n, d, heq, hd, rfl⟩ := h.fraction?
  rw [Binary64.ceil?, heq, Option.map_some, Rat.ceil_intCast_div_natCast,
    ← Int.fdiv_eq_ediv_of_nonneg (-n) (Int.natCast_nonneg d)]

theorem Denotes.isInteger_iff (h : Denotes x q) {z : ℤ} : isInteger x z = true ↔ q = z := by
  obtain ⟨n, d, heq, hd, rfl⟩ := h.fraction?
  have hd' : (d : ℚ) ≠ 0 := by exact_mod_cast hd.ne'
  rw [Binary64.isInteger, heq, div_eq_iff hd']
  exact decide_eq_true_iff.trans (by norm_cast)

/-- Whether a double is an odd integer. -/
def IsOdd (x : Float) : Prop := ∃ z : ℤ, Odd z ∧ Denotes x z

/-- The same, decided by the quotient. -/
def isOddInteger (x : Float) : Bool :=
  match fraction? x with
  | some (n, d) => n % d = 0 && n / d % 2 = 1
  | none => false

theorem Denotes.isOdd_iff (h : Denotes x q) : IsOdd x ↔ ∃ z : ℤ, Odd z ∧ q = z := by
  constructor
  · rintro ⟨z, hodd, hz⟩
    exact ⟨z, hodd, h.unique hz⟩
  · rintro ⟨z, hodd, rfl⟩
    exact ⟨z, hodd, h⟩

/-- A quotient without a remainder is odd where its value is an odd integer. -/
theorem isOddInteger_iff : isOddInteger x = true ↔ IsOdd x := by
  rw [isOddInteger]
  cases hfraction : fraction? x with
  | none =>
    refine iff_of_false Bool.false_ne_true ?_
    rintro ⟨z, -, hz⟩
    obtain ⟨n, d, heq, -⟩ := hz.fraction?
    cases hfraction.symm.trans heq
  | some quotient =>
    obtain ⟨n, d⟩ := quotient
    obtain ⟨hd, hdenotes⟩ := denotes_of_fraction? hfraction
    have hd' : (d : ℚ) ≠ 0 := by exact_mod_cast hd.ne'
    simp only [Bool.and_eq_true, decide_eq_true_eq]
    constructor
    · rintro ⟨hdvd, hodd⟩
      refine ⟨n / d, Int.odd_iff.2 hodd, ?_⟩
      rw [Int.cast_div (Int.dvd_of_emod_eq_zero hdvd) (by exact_mod_cast hd'), Int.cast_natCast]
      exact hdenotes
    · rintro ⟨z, hodd, hz⟩
      have hn : n = z * d := by
        have hquotient := hdenotes.unique hz
        rw [div_eq_iff hd'] at hquotient
        exact_mod_cast hquotient
      rw [hn, Int.mul_emod_left, Int.mul_ediv_cancel z (by exact_mod_cast hd.ne')]
      exact ⟨rfl, Int.odd_iff.1 hodd⟩

/-! ### Remainders -/

theorem denotes_ofScaled {s : Sign} {m : ℕ} {e : ℤ} (hq : signed s (m * 2 ^ e) = q)
    (hexact : Representable q) (hlt : |q| < 2 ^ 1024) : Denotes (ofScaled s m e) q := by
  have h := is_round s m e
  rw [← nearest_signed, hq, hexact.nearest_eq] at h
  exact h.denotes hlt

/-- What a division toward zero leaves over. -/
def leftOver (p q : ℚ) : ℚ :=
  if p < 0 then -(|q| * Int.fract (|p| / |q|)) else |q| * Int.fract (|p| / |q|)

theorem abs_leftOver (p q : ℚ) : |leftOver p q| = |q| * Int.fract (|p| / |q|) := by
  have := Int.fract_nonneg (|p| / |q|)
  rw [leftOver]
  split
  · rw [abs_neg, abs_of_nonneg (by positivity)]
  · rw [abs_of_nonneg (by positivity)]

theorem leftOver_signed {s : Sign} {r : ℚ} (hr : 0 < r) (q : ℚ) :
    leftOver (signed s r) q = signed s (|q| * Int.fract (r / |q|)) := by
  rw [leftOver, abs_signed, abs_of_pos hr]
  cases s
  · exact if_pos (neg_neg_of_pos hr)
  · exact if_neg hr.not_gt

/-- On digits at one place what is left over is their remainder. -/
theorem leftOver_digits {m n : ℕ} {e : ℤ} (s : Sign) (hm : 0 < m) (hn : 0 < n)
    (hq : |q| = n * 2 ^ e) :
    leftOver (signed s (m * 2 ^ e)) q = signed s ((m % n : ℕ) * 2 ^ e) := by
  have hpos := two_zpow_pos e
  rw [leftOver_signed (by positivity), hq, mul_div_mul_right _ _ hpos.ne',
    Int.fract_div_natCast_eq_div_natCast_mod]
  congr 1
  field_simp

/-- One of two doubles has its digits at the lower place, and they bound those left over. -/
theorem Canonical.mod_lt {m n : ℕ} {e f : ℤ} (hme : Canonical m e) (hnf : Canonical n f)
    (hn : 0 < n) :
    m * 2 ^ (e - min e f).toNat % (n * 2 ^ (f - min e f).toNat) < 2 ^ 53 := by
  rcases min_choice e f with h | h
  · rw [h, sub_self, Int.toNat_zero, pow_zero, mul_one]
    exact (Nat.mod_le ..).trans_lt hme.lt
  · rw [h, sub_self, Int.toNat_zero, pow_zero, mul_one]
    exact (Nat.mod_lt _ hn).trans hnf.lt

/-- The remainder is exact. -/
theorem Denotes.remainder (ha : Denotes a p) (hb : Denotes b q) (hq : q ≠ 0) :
    Denotes (remainder a b) (leftOver p q) := by
  have hle : |leftOver p q| < 2 ^ 1024 := by
    rw [abs_leftOver]
    calc |q| * Int.fract (|p| / |q|) ≤ |q| * 1 :=
          mul_le_mul_of_nonneg_left (Int.fract_lt_one _).le (abs_nonneg q)
      _ < 2 ^ 1024 := by rw [mul_one]; exact hb.abs_lt
  have hu := ha.is
  have hv := hb.is
  rw [Binary64.remainder]
  generalize a.toModel.unpack = u at hu ⊢
  generalize b.toModel.unpack = v at hv ⊢
  cases v with
  | infinity | notANumber => exact hv.elim
  | zero t => exact absurd hv hq
  | finite t n f hn =>
    cases u with
    | infinity | notANumber => exact hu.elim
    | zero s =>
      obtain rfl : p = 0 := hu
      simpa [leftOver] using ha
    | finite s m e hm =>
      simp only [Nat.shiftLeft_eq]
      have hq' : |q| = (n * 2 ^ (f - min e f).toNat : ℕ) * 2 ^ min e f := by
        rw [hv.2, abs_signed, mul_zpow_lower n (min_le_right e f), abs_of_nonneg (by positivity)]
      have hvalue := leftOver_digits s (Nat.mul_pos hm (Nat.two_pow_pos (e - min e f).toNat))
        (Nat.mul_pos hn (Nat.two_pow_pos _)) hq'
      rw [mul_zpow_lower m (min_le_left e f), ← hu.2] at hvalue
      refine denotes_ofScaled hvalue.symm ?_ hle
      rw [hvalue]
      exact representable_signed s (hu.1.mod_lt hv.1 hn) (le_min hu.1.lowest hv.1.lowest)

end Reckoner.Binary64
