import Mathlib
import Reckoner.Proofs.Binary64.Packing

/-!
Arithmetic on doubles is arithmetic on rationals, rounded once: sums, differences, products and
quotients stand for the double nearest to the exact result, as long as that is finite. Comparisons
compare the rationals.
-/

namespace Reckoner.Binary64

open Float.Model (Format UnpackedFloat totalExponent)
open Float.Model.UnpackedFloat

/-! ### Digits -/

section Is

variable {u v : UnpackedFloat} {p q : ℚ}

theorem signed_natCast_mul (s : Sign) (m : ℕ) (r : ℚ) : signed s (m * r) = (s.apply m : ℤ) * r := by
  cases s <;> simp [signed, Sign.apply]

theorem Is.nearest_eq (h : Is u q) : nearest q = q := h.representable.nearest_eq

theorem Is.neg (h : Is u q) : Is u.neg (-q) := by
  cases u with
  | zero s => exact neg_eq_zero.2 h
  | finite s m e hm =>
    obtain ⟨hcanonical, rfl⟩ := h
    refine ⟨hcanonical, ?_⟩
    cases s
    · exact neg_neg _
    · rfl
  | infinity | notANumber => exact h.elim

theorem Is.abs (h : Is u q) : Is u.abs |q| := by
  cases u with
  | zero s => exact abs_eq_zero.2 h
  | finite s m e hm =>
    obtain ⟨hcanonical, rfl⟩ := h
    have hpos := two_zpow_pos e
    exact ⟨hcanonical, by rw [abs_signed, abs_of_nonneg (by positivity)]; rfl⟩
  | infinity | notANumber => exact h.elim

/-- An integer over a power of two, from digits brought to a lower place. -/
theorem signed_eq_lower (s : Sign) (m : ℕ) (e p : ℤ) (h : p ≤ e) :
    signed s (m * 2 ^ e) = (s.apply (m * 2 ^ (e - p).toNat : ℕ) : ℤ) * 2 ^ p := by
  rw [← signed_natCast_mul, mul_zpow_lower m h]

theorem Is.add (hu : Is u p) (hv : Is v q) :
    Is (UnpackedFloat.add .binary64 u v) (nearest (p + q)) := by
  cases u with
  | infinity | notANumber => exact hu.elim
  | zero s =>
    rw [show p = 0 from hu, zero_add, hv.nearest_eq]
    cases v with
    | infinity | notANumber => exact hv.elim
    | zero t =>
      rw [UnpackedFloat.add]
      split <;> exact hv
    | finite t n f hn => exact hv
  | finite s m e hm =>
    cases v with
    | infinity | notANumber => exact hv.elim
    | zero t =>
      rw [show q = 0 from hv, add_zero, hu.nearest_eq]
      exact hu
    | finite t n f hn =>
      rw [hu.2, hv.2, signed_eq_lower s m e (min e f) (min_le_left ..),
        signed_eq_lower t n f (min e f) (min_le_right ..), ← add_mul, ← Int.cast_add]
      simp only [UnpackedFloat.add, decreaseExponent_eq]
      exact is_normalize ..

theorem Is.sub (hu : Is u p) (hv : Is v q) :
    Is (UnpackedFloat.sub .binary64 u v) (nearest (p - q)) := by
  cases u with
  | infinity | notANumber => exact hu.elim
  | zero s =>
    rw [show p = 0 from hu, zero_sub, nearest_neg, hv.nearest_eq]
    cases v with
    | infinity | notANumber => exact hv.elim
    | zero t =>
      rw [UnpackedFloat.sub]
      split <;> exact neg_eq_zero.2 hv
    | finite t n f hn => exact hv.neg
  | finite s m e hm =>
    cases v with
    | infinity | notANumber => exact hv.elim
    | zero t =>
      rw [show q = 0 from hv, sub_zero, hu.nearest_eq]
      exact hu
    | finite t n f hn =>
      rw [hu.2, hv.2, signed_eq_lower s m e (min e f) (min_le_left ..),
        signed_eq_lower t n f (min e f) (min_le_right ..), ← sub_mul, ← Int.cast_sub]
      simp only [UnpackedFloat.sub, decreaseExponent_eq]
      exact is_normalize ..

theorem Canonical.le_lastPlace_mul {m n : ℕ} {e f : ℤ} (hm : 0 < m) (hn : 0 < n)
    (hme : Canonical m e) (hnf : Canonical n f) :
    e + f ≤ lastPlace ((m * n : ℕ) * 2 ^ (e + f)) := by
  rw [← targetExponent_eq_lastPlace (Nat.mul_pos hm hn) le_rfl (lt_add_one _),
    targetExponent_binary64, totalExponent]
  have hfull : 2 ^ 52 ≤ m * n ∨ e + f ≤ -1074 := by
    rcases hme.full with h | rfl
    · exact .inl (h.trans (Nat.le_mul_of_pos_right m hn))
    rcases hnf.full with h | rfl
    · exact .inl (h.trans (Nat.le_mul_of_pos_left n hm))
    · exact .inr (by norm_num)
  rcases hfull with h | h
  · have : 52 ≤ (m * n).log2 := (Nat.le_log2 (Nat.mul_pos hm hn).ne').2 h
    omega
  · omega

theorem signed_mul_signed (s t : Sign) (p q : ℚ) : signed s p * signed t q = signed (s * t) (p * q) := by
  cases s <;> cases t
  · exact neg_mul_neg p q
  · exact neg_mul p q
  · exact mul_neg p q
  · rfl

theorem signed_div_signed (s t : Sign) (p q : ℚ) : signed s p / signed t q = signed (s / t) (p / q) := by
  cases s <;> cases t
  · exact neg_div_neg_eq p q
  · exact neg_div q p
  · exact div_neg p
  · rfl

theorem Is.mul (hu : Is u p) (hv : Is v q) :
    Is (UnpackedFloat.mul .binary64 u v) (nearest (p * q)) := by
  cases u with
  | infinity | notANumber => exact hu.elim
  | zero s =>
    rw [show p = 0 from hu, zero_mul, nearest_zero]
    cases v with
    | infinity | notANumber => exact hv.elim
    | zero | finite => exact rfl
  | finite s m e hm =>
    cases v with
    | infinity | notANumber => exact hv.elim
    | zero t =>
      rw [show q = 0 from hv, mul_zero, nearest_zero]
      exact rfl
    | finite t n f hn =>
      have hproduct : p * q = signed (s * t) ((m * n : ℕ) * 2 ^ (e + f)) := by
        rw [hu.2, hv.2, signed_mul_signed, zpow_add₀ two_ne_zero]
        push_cast
        congr 1
        ring
      rw [hproduct, nearest_signed]
      exact is_roundWithAccuracy _ (by exact_mod_cast Nat.mul_pos hm hn) (tells_exact _)
        (hu.1.le_lastPlace_mul hm hn hv.1)

theorem is_divCore {m n : ℕ} {e f : ℤ} (s : Sign) (hm : 0 < m) (hn : 0 < n) :
    Is (roundWithAccuracy .binary64 s (divCore .binary64 m e n f).1 (divCore .binary64 m e n f).2.1
      (divCore .binary64 m e n f).2.2) (signed s (nearest (m * 2 ^ e / (n * 2 ^ f)))) := by
  have hm' : (0 : ℚ) < m := by exact_mod_cast hm
  have hn' : (0 : ℚ) < n := by exact_mod_cast hn
  simp only [divCore]
  generalize ht : min (e - f) (Format.binary64.targetExponent
    (totalExponent m e - totalExponent n f)) = t
  have hdigits : m <<< (e - f - t).toNat = m * 2 ^ (e - f - t).toNat := Nat.shiftLeft_eq ..
  rw [hdigits]
  generalize hk : m * 2 ^ (e - f - t).toNat = k
  -- the quotient and the remainder together are the exact result, at a lower place
  have hx : ((k / n : ℕ) + (k % n : ℕ) / n : ℚ) = k / n := by
    rw [eq_div_iff hn'.ne', add_mul, div_mul_cancel₀ _ hn'.ne']
    exact_mod_cast Nat.div_add_mod' k n
  have htells := tells_accuracyOfFraction (m := k / n) (Nat.mod_lt k hn)
  rw [hx] at htells
  have hkpos : 0 < k := hk ▸ Nat.mul_pos hm (Nat.two_pow_pos _)
  have hvalue : (k / n * 2 ^ t : ℚ) = m * 2 ^ e / (n * 2 ^ f) := by
    rw [div_mul_eq_mul_div, ← hk, mul_zpow_lower m (by omega), zpow_sub₀ two_ne_zero]
    field_simp
  have hplace : t ≤ lastPlace (m * 2 ^ e / (n * 2 ^ f)) := by
    have hsize : (2 : ℚ) ^ (m.log2 + e - (n.log2 + 1 + f)) ≤ |(m * 2 ^ e / (n * 2 ^ f) : ℚ)| := by
      rw [abs_of_pos (by positivity), zpow_sub₀ two_ne_zero, zpow_add₀ two_ne_zero,
        zpow_add₀ two_ne_zero (n.log2 + 1)]
      gcongr
      · exact_mod_cast Nat.log2_self_le hm.ne'
      · exact_mod_cast (Nat.lt_log2_self (n := n)).le
    have := le_lastPlace hsize
    rw [targetExponent_binary64, totalExponent, totalExponent] at ht
    omega
  rw [← hvalue] at hplace ⊢
  exact is_roundWithAccuracy s (by positivity) htells hplace

theorem Is.div (hu : Is u p) (hv : Is v q) (hq : q ≠ 0) :
    Is (UnpackedFloat.div .binary64 u v) (nearest (p / q)) := by
  cases v with
  | infinity | notANumber => exact hv.elim
  | zero t => exact absurd hv hq
  | finite t n f hn =>
    cases u with
    | infinity | notANumber => exact hu.elim
    | zero s =>
      rw [show p = 0 from hu, zero_div, nearest_zero]
      exact rfl
    | finite s m e hm =>
      rw [hu.2, hv.2, signed_div_signed, nearest_signed]
      exact is_divCore (s / t) hm hn

/-- Of the digits of two doubles those with the higher place are larger. -/
theorem Canonical.lt_of_exponent_lt {m n : ℕ} {e f : ℤ} (hme : Canonical m e) (hnf : Canonical n f)
    (h : e < f) : (m * 2 ^ e : ℚ) < n * 2 ^ f := by
  have hn : 2 ^ 52 ≤ n := hnf.full.resolve_right (by have := hme.lowest; omega)
  calc (m * 2 ^ e : ℚ) < 2 ^ 53 * 2 ^ e :=
        mul_lt_mul_of_pos_right (by exact_mod_cast hme.lt) (two_zpow_pos e)
    _ = 2 ^ 52 * 2 ^ (e + 1) := by rw [zpow_add_one₀ two_ne_zero]; ring
    _ ≤ 2 ^ 52 * 2 ^ f := mul_le_mul_of_nonneg_left (two_zpow_le h) (by norm_num)
    _ ≤ n * 2 ^ f := mul_le_mul_of_nonneg_right (by exact_mod_cast hn) (two_zpow_pos f).le

theorem Canonical.compare_eq {m n : ℕ} {e f : ℤ} (hme : Canonical m e) (hnf : Canonical n f) :
    compare (m * 2 ^ e : ℚ) (n * 2 ^ f) = (compare e f).then (compare m n) := by
  rcases lt_trichotomy e f with h | rfl | h
  · rw [Int.compare_eq_lt.2 h, compare_lt_iff_lt.2 (hme.lt_of_exponent_lt hnf h)]
    rfl
  · have hpos := two_zpow_pos e
    rw [Int.compare_eq_eq.2 rfl]
    rcases lt_trichotomy m n with h | rfl | h
    · rw [Nat.compare_eq_lt.2 h, compare_lt_iff_lt.2]
      · rfl
      · exact mul_lt_mul_of_pos_right (by exact_mod_cast h) hpos
    · rw [Nat.compare_eq_eq.2 rfl, compare_eq_iff_eq.2 rfl]
      rfl
    · rw [Nat.compare_eq_gt.2 h, compare_gt_iff_gt.2]
      · rfl
      · exact mul_lt_mul_of_pos_right (by exact_mod_cast h) hpos
  · rw [Int.compare_eq_gt.2 h, compare_gt_iff_gt.2 (hnf.lt_of_exponent_lt hme h)]
    rfl

theorem compare_neg_neg (p q : ℚ) : compare (-p) (-q) = (compare p q).swap := by
  rcases lt_trichotomy p q with h | rfl | h
  · rw [compare_lt_iff_lt.2 h, compare_gt_iff_gt.2 (neg_lt_neg h)]
    rfl
  · rw [compare_eq_iff_eq.2 rfl, compare_eq_iff_eq.2 rfl]
    rfl
  · rw [compare_gt_iff_gt.2 h, compare_lt_iff_lt.2 (neg_lt_neg h)]
    rfl

/-- The order of two numbers is that of their values. -/
theorem Is.compare_eq (hu : Is u p) (hv : Is v q) : u.compare v = some (compare p q) := by
  cases u with
  | infinity | notANumber => exact hu.elim
  | zero s =>
    obtain rfl : p = 0 := hu
    cases v with
    | infinity | notANumber => exact hv.elim
    | zero t =>
      obtain rfl : q = 0 := hv
      rw [compare_eq_iff_eq.2 rfl]
      rfl
    | finite t n f hn =>
      have hpos : (0 : ℚ) < n * 2 ^ f := mul_pos (by exact_mod_cast hn) (two_zpow_pos f)
      rw [hv.2]
      cases t <;> simp only [signed, UnpackedFloat.compare]
      · rw [compare_gt_iff_gt.2 (neg_neg_of_pos hpos)]
      · rw [compare_lt_iff_lt.2 hpos]
  | finite s m e hm =>
    have hpos : (0 : ℚ) < m * 2 ^ e := mul_pos (by exact_mod_cast hm) (two_zpow_pos e)
    cases v with
    | infinity | notANumber => exact hv.elim
    | zero t =>
      obtain rfl : q = 0 := hv
      rw [hu.2]
      cases s <;> simp only [signed, UnpackedFloat.compare]
      · rw [compare_lt_iff_lt.2 (neg_neg_of_pos hpos)]
      · rw [compare_gt_iff_gt.2 hpos]
    | finite t n f hn =>
      have hpos' : (0 : ℚ) < n * 2 ^ f := mul_pos (by exact_mod_cast hn) (two_zpow_pos f)
      rw [hu.2, hv.2]
      cases s <;> cases t <;> simp only [signed, UnpackedFloat.compare]
      · rw [compare_neg_neg, hu.1.compare_eq hv.1]
      · rw [compare_lt_iff_lt.2 (by linarith)]
      · rw [compare_gt_iff_gt.2 (by linarith)]
      · rw [hu.1.compare_eq hv.1]

end Is

/-! ### Doubles -/

section Denotes

variable {x y : Float} {p q : ℚ}

theorem Denotes.neg (h : Denotes x p) : Denotes (-x) (-p) :=
  h.is.neg.denotes (by rw [abs_neg]; exact h.abs_lt)

theorem Denotes.abs (h : Denotes x p) : Denotes x.abs |p| :=
  h.is.abs.denotes (by rw [abs_abs]; exact h.abs_lt)

theorem Denotes.add (hx : Denotes x p) (hy : Denotes y q) (hlt : |nearest (p + q)| < 2 ^ 1024) :
    Denotes (x + y) (nearest (p + q)) := (hx.is.add hy.is).denotes hlt

theorem Denotes.sub (hx : Denotes x p) (hy : Denotes y q) (hlt : |nearest (p - q)| < 2 ^ 1024) :
    Denotes (x - y) (nearest (p - q)) := (hx.is.sub hy.is).denotes hlt

theorem Denotes.mul (hx : Denotes x p) (hy : Denotes y q) (hlt : |nearest (p * q)| < 2 ^ 1024) :
    Denotes (x * y) (nearest (p * q)) := (hx.is.mul hy.is).denotes hlt

theorem Denotes.div (hx : Denotes x p) (hy : Denotes y q) (hq : q ≠ 0)
    (hlt : |nearest (p / q)| < 2 ^ 1024) : Denotes (x / y) (nearest (p / q)) :=
  (hx.is.div hy.is hq).denotes hlt

theorem Denotes.lt_iff (hx : Denotes x p) (hy : Denotes y q) : x < y ↔ p < q := by
  have hlt : x < y ↔ (x.toModel.unpack.compare y.toModel.unpack == some .lt) = true :=
    decide_eq_true_iff
  rw [hlt, hx.is.compare_eq hy.is, beq_iff_eq, Option.some_inj, compare_lt_iff_lt]

theorem Denotes.le_iff (hx : Denotes x p) (hy : Denotes y q) : x ≤ y ↔ p ≤ q := by
  have hle : x ≤ y ↔ ((x.toModel.unpack.compare y.toModel.unpack).any (·.isLE)) = true :=
    decide_eq_true_iff
  rw [hle, hx.is.compare_eq hy.is, Option.any_some, Ordering.isLE_iff_ne_gt]
  exact compare_le_iff_le

theorem Denotes.beq_iff (hx : Denotes x p) (hy : Denotes y q) : (x == y) = true ↔ p = q := by
  have hbeq : (x == y) = (x.toModel.unpack.compare y.toModel.unpack == some .eq) := rfl
  rw [hbeq, hx.is.compare_eq hy.is, beq_iff_eq, Option.some_inj, compare_eq_iff_eq]

theorem Denotes.isNaN_eq_false (h : Denotes x p) : x.isNaN = false := by
  have hnan : x.isNaN = x.toModel.unpack.isNaN := rfl
  have h := h.is
  rw [hnan]
  generalize x.toModel.unpack = u at h ⊢
  cases u with
  | zero | finite | infinity => rfl
  | notANumber => exact h.elim

/-- An integer with few enough digits is a double. -/
theorem representable_natCast {n : ℕ} (h : n < 2 ^ 53) : Representable n :=
  ⟨n, 0, by rw [abs_of_nonneg (Int.natCast_nonneg n)]; exact_mod_cast h, by norm_num, by simp⟩

theorem abs_natCast_lt {n : ℕ} (h : n < 2 ^ 53) : |(n : ℚ)| < 2 ^ 1024 := by
  rw [abs_of_nonneg n.cast_nonneg]
  calc (n : ℚ) < 2 ^ 53 := by exact_mod_cast h
    _ ≤ 2 ^ 1024 := pow_le_pow_right₀ one_le_two (by norm_num)

theorem denotes_ofBits_one : Denotes (Float.ofBits 0x3FF0000000000000) 1 := by
  have hunpack : (Float.ofBits 0x3FF0000000000000).toModel.unpack =
      .finite .positive (2 ^ 52) (-52) (by norm_num) := by rfl
  constructor
  rw [hunpack]
  exact ⟨⟨by norm_num, by norm_num, .inl le_rfl⟩, by norm_num [signed]⟩

theorem denotes_ofNat {n : ℕ} (h : n < 2 ^ 53) : Denotes (Float.ofNat n) n := by
  have hnearest : nearest n = n := (representable_natCast h).nearest_eq
  have hlt := abs_natCast_lt h
  have hword : n.toUInt64.toNat = n := by
    rw [Nat.toUInt64, UInt64.toNat_ofNat']
    omega
  have hinteger : Denotes n.toUInt64.toFloat n := by
    have hread : n.toUInt64.toFloat =
      .ofModel (.pack (.normalize .binary64 n.toUInt64.toNat 0 .positive)) := rfl
    have h := is_normalize n 0 .positive
    rw [zpow_zero, mul_one, Int.cast_natCast, hnearest] at h
    rw [hread, hword]
    exact h.denotes hlt
  have hproduct := hinteger.mul denotes_ofBits_one (by rwa [mul_one, hnearest])
  rw [mul_one, hnearest] at hproduct
  have hread : Float.ofNat n = n.toUInt64.toFloat * Float.ofBits 0x3FF0000000000000 :=
    dif_pos ⟨h, by norm_num⟩
  rwa [hread]

theorem denotes_zero : Denotes 0 0 := by
  have h := denotes_ofNat (n := 0) (by norm_num)
  rwa [Nat.cast_zero] at h

theorem denotes_one : Denotes 1 1 := by
  have h := denotes_ofNat (n := 1) (by norm_num)
  rwa [Nat.cast_one] at h

end Denotes
end Reckoner.Binary64
