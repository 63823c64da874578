import Mathlib
import Reckoner.Proofs.Binary64.Nearest

/-!
Rounding as it is done on integers: digits are shifted out to a last place, and of those that are
lost two bits are kept. The two bits suffice to find the nearest double, and the digits that come
out are those of a double.
-/

namespace Reckoner.Binary64

open Float.Model
open Float.Model.UnpackedFloat

/-! ### Two bits beside the digits -/

/-- Whether digits and the two bits beside them tell a rational: the first bit is its half, the
second whether anything is left. -/
def Tells (em : ExtendedMantissa) (x : ℚ) : Prop :=
  ∃ rest : ℚ, 0 ≤ rest ∧ rest < 1 / 2 ∧ (em.stickyBit = true ↔ 0 < rest) ∧
    x = em.mantissa + (if em.roundBit then 1 / 2 else 0) + rest

section Tells

variable {em : ExtendedMantissa} {x : ℚ}

theorem tells_exact (m : ℕ) : Tells (.ofMantissaAndAccuracy m .exact) m :=
  ⟨0, le_rfl, by norm_num, by simp [ExtendedMantissa.ofMantissaAndAccuracy],
    by simp [ExtendedMantissa.ofMantissaAndAccuracy]⟩

theorem tells_accuracyOfFraction {m num den : ℕ} (h : num < den) :
    Tells (.ofMantissaAndAccuracy m (accuracyOfFraction num den)) (m + num / den) := by
  have hden : (0 : ℚ) < den := by exact_mod_cast Nat.zero_lt_of_lt h
  rcases Nat.eq_zero_or_pos num with rfl | hnum
  · simpa [accuracyOfFraction] using tells_exact m
  have hnum' : (0 : ℚ) < num / den := by positivity
  rw [accuracyOfFraction, if_neg hnum.ne']
  rcases lt_trichotomy (2 * num) den with hlt | heq | hgt
  · rw [Nat.compare_eq_lt.2 hlt]
    refine ⟨num / den, hnum'.le, ?_, by simpa [ExtendedMantissa.ofMantissaAndAccuracy], ?_⟩
    · have : (2 * num : ℚ) < den := by exact_mod_cast hlt
      rw [div_lt_div_iff₀ hden two_pos]
      linarith
    · simp [ExtendedMantissa.ofMantissaAndAccuracy]
  · rw [Nat.compare_eq_eq.2 heq]
    refine ⟨0, le_rfl, by norm_num, by simp [ExtendedMantissa.ofMantissaAndAccuracy], ?_⟩
    have : (den : ℚ) = 2 * num := by exact_mod_cast heq.symm
    have hne : (num : ℚ) ≠ 0 := by exact_mod_cast hnum.ne'
    rw [this]
    simp only [ExtendedMantissa.ofMantissaAndAccuracy, if_true]
    field_simp
    ring
  · rw [Nat.compare_eq_gt.2 hgt]
    have hhalf : (1 / 2 : ℚ) < num / den := by
      have : (den : ℚ) < 2 * num := by exact_mod_cast hgt
      rw [div_lt_div_iff₀ two_pos hden]
      linarith
    have hone : (num / den : ℚ) < 1 := by
      rw [div_lt_one hden]
      exact_mod_cast h
    refine ⟨num / den - 1 / 2, by linarith, by linarith, ?_, ?_⟩
    · simpa [ExtendedMantissa.ofMantissaAndAccuracy] using hhalf
    · simp only [ExtendedMantissa.ofMantissaAndAccuracy, if_true]
      ring

theorem Tells.floor (h : Tells em x) : ⌊x⌋ = em.mantissa := by
  obtain ⟨rest, hnonneg, hlt, -, rfl⟩ := h
  rw [Int.floor_eq_iff]
  push_cast
  split <;> constructor <;> linarith

/-- The two bits decide how the digits round. -/
theorem Tells.roundedMantissa (h : Tells em x) : (em.roundedMantissa : ℤ) = halfEven x := by
  have hfloor := h.floor
  obtain ⟨rest, hnonneg, hlt, hsticky, hx⟩ := h
  have hfract : Int.fract x = (if em.roundBit then 1 / 2 else 0) + rest := by
    rw [Int.fract, hfloor, hx]
    push_cast
    ring
  obtain ⟨m, half, sticky⟩ := em
  dsimp only at *
  cases half <;> cases sticky
  · have : rest = 0 := le_antisymm (not_lt.1 (by simpa using hsticky)) hnonneg
    rw [halfEven_of_lt (by rw [hfract, this]; norm_num), hfloor]
    rfl
  · rw [halfEven_of_lt (by rw [hfract]; simpa using hlt), hfloor]
    rfl
  · have : rest = 0 := le_antisymm (not_lt.1 (by simpa using hsticky)) hnonneg
    rw [halfEven_of_eq (by rw [hfract, this]; norm_num), hfloor]
    rfl
  · have : 0 < rest := by simpa using hsticky
    rw [halfEven_of_gt (by rw [hfract]; simpa using this), hfloor]
    rfl

theorem Tells.shiftRightOne (h : Tells em x) : Tells em.shiftRightOne (x / 2) := by
  obtain ⟨rest, hnonneg, hlt, hsticky, rfl⟩ := h
  obtain ⟨m, half, sticky⟩ := em
  dsimp only at hsticky
  refine ⟨(if half then 1 / 4 else 0) + rest / 2, ?_, ?_, ?_, ?_⟩
  · split <;> linarith
  · split <;> linarith
  · rw [ExtendedMantissa.shiftRightOne, Bool.or_eq_true, hsticky]
    cases half
    · simp
    · simp only [true_or, true_iff, if_true]
      linarith
  · have hm : (m : ℚ) = 2 * (m / 2 : ℕ) + (m % 2 : ℕ) := by exact_mod_cast (Nat.div_add_mod m 2).symm
    rw [ExtendedMantissa.shiftRightOne, hm]
    rcases Nat.mod_two_eq_zero_or_one m with hmod | hmod <;> rw [hmod] <;> cases half <;> simp <;> ring

theorem Tells.shiftRight (h : Tells em x) (n : ℕ) : Tells (em >>> n) (x / 2 ^ n) := by
  induction n with
  | zero =>
    rw [pow_zero, div_one]
    exact h
  | succ n ih =>
    rw [pow_succ, ← div_div]
    exact ih.shiftRightOne

end Tells

/-! ### Digits and their value -/

/-- A rational with a sign. -/
def signed (s : Sign) (q : ℚ) : ℚ :=
  match s with
  | .negative => -q
  | .positive => q

/-- The digits of a double: all 53 of them, unless the last place is the lowest. -/
structure Canonical (m : ℕ) (e : ℤ) : Prop where
  lt : m < 2 ^ 53
  lowest : -1074 ≤ e
  full : 2 ^ 52 ≤ m ∨ e = -1074

/-- Whether an unpacked number has the digits of a double, which may be a large one, and a rational
as its value. -/
def Is : UnpackedFloat → ℚ → Prop
  | .zero _, q => q = 0
  | .finite s m e _, q => Canonical m e ∧ q = signed s (m * 2 ^ e)
  | .infinity _, _ | .notANumber, _ => False

@[simp] theorem signed_zero (s : Sign) : signed s 0 = 0 := by
  cases s <;> simp [signed]

@[simp] theorem nearest_signed (s : Sign) (q : ℚ) : nearest (signed s q) = signed s (nearest q) := by
  cases s <;> simp [signed]

@[simp] theorem abs_signed (s : Sign) (q : ℚ) : |signed s q| = |q| := by
  cases s <;> simp [signed]

/-! ### To the place of the last digit -/

/-- A number in `[1, 2)` times a power of two has its last place 52 places below. -/
theorem lastPlace_eq {q : ℚ} {p : ℤ} (hlow : 2 ^ p ≤ q) (hhigh : q < 2 ^ (p + 1)) :
    lastPlace q = max (p - 52) (-1074) := by
  have hpos : 0 < q := (two_zpow_pos p).trans_le hlow
  have hlog : Int.log 2 q = p := by
    have hle := (Int.zpow_le_iff_le_log (b := 2) one_lt_two hpos).1 (by exact_mod_cast hlow)
    have hlt := (Int.lt_zpow_iff_log_lt (b := 2) one_lt_two hpos).1 (by exact_mod_cast hhigh)
    omega
  rw [lastPlace, abs_of_pos hpos, hlog]

theorem targetExponent_binary64 (t : ℤ) : Format.binary64.targetExponent t = max (t - 53) (-1074) :=
  rfl

theorem targetExponent_eq_lastPlace {m : ℕ} {e : ℤ} {x : ℚ} (hm : 0 < m) (hlow : m ≤ x)
    (hhigh : x < m + 1) :
    Format.binary64.targetExponent (totalExponent m e) = lastPlace (x * 2 ^ e) := by
  have hpos := two_zpow_pos e
  have hlog : 2 ^ m.log2 ≤ x := le_trans (by exact_mod_cast Nat.log2_self_le hm.ne') hlow
  have hlog' : x < 2 ^ (m.log2 + 1) := by
    refine hhigh.trans_le ?_
    exact_mod_cast Nat.succ_le_of_lt (Nat.lt_log2_self (n := m))
  rw [targetExponent_binary64, totalExponent, lastPlace_eq (p := m.log2 + e)]
  · congr 1
    omega
  · rw [zpow_add₀ two_ne_zero]
    exact mul_le_mul_of_nonneg_right (by exact_mod_cast hlog) hpos.le
  · rw [add_right_comm, zpow_add₀ two_ne_zero]
    exact mul_lt_mul_of_pos_right (by exact_mod_cast hlog') hpos

/-- Where there are digits, or none are left to come. -/
theorem targetExponent_of_le {m : ℕ} {e : ℤ} {x : ℚ} (hx : 0 < x) (hlow : m ≤ x)
    (hhigh : x < m + 1) (he : e ≤ lastPlace (x * 2 ^ e)) :
    Format.binary64.targetExponent (totalExponent m e) = lastPlace (x * 2 ^ e) := by
  rcases Nat.eq_zero_or_pos m with rfl | hm
  · have hpos := two_zpow_pos e
    have hle : lastPlace (x * 2 ^ e) ≤ max (e - 53) (-1074) := by
      refine lastPlace_le (mul_pos hx hpos).ne' (le_max_right ..) ?_
      rw [abs_of_pos (mul_pos hx hpos)]
      calc x * 2 ^ e < 1 * 2 ^ e := mul_lt_mul_of_pos_right (by simpa using hhigh) hpos
        _ = 2 ^ e := one_mul _
        _ ≤ 2 ^ (max (e - 53) (-1074) + 53) := two_zpow_le (by omega)
    have hge := lastPlace_ge (x * 2 ^ e)
    rw [targetExponent_binary64, totalExponent, Nat.log2_zero]
    omega
  · exact targetExponent_eq_lastPlace hm hlow hhigh

/-! ### Shifting, rounding, and the carry -/

theorem shiftToExponent_of_le {m : ℕ} {e p : ℤ} (acc : Accuracy) (h : e ≤ p) :
    shiftToExponent m e acc p =
      (ExtendedMantissa.ofMantissaAndAccuracy m acc >>> (p - e).toNat, p) := by
  rw [shiftToExponent, Int.toNat_of_nonneg (by omega)]
  congr 1
  omega

theorem shiftToTargetExponent_of_lt {m : ℕ} {e : ℤ} (hm : m < 2 ^ 53) (he : -1074 ≤ e) :
    shiftToTargetExponent .binary64 m e .exact = (.ofMantissaAndAccuracy m .exact, e) := by
  have hlog : m.log2 < 53 := by
    rcases Nat.eq_zero_or_pos m with rfl | hpos
    · decide
    · exact (Nat.log2_lt hpos.ne').2 hm
  have htarget : Format.binary64.targetExponent (totalExponent m e) ≤ e := by
    rw [targetExponent_binary64, totalExponent]
    omega
  rw [shiftToTargetExponent, shiftToExponent, Int.toNat_of_nonpos (by omega)]
  simp only [Nat.cast_zero, add_zero]
  rfl

theorem shiftToTargetExponent_carry {e : ℤ} (he : -1074 ≤ e) :
    shiftToTargetExponent .binary64 (2 ^ 53) e .exact =
      (.ofMantissaAndAccuracy (2 ^ 52) .exact, e + 1) := by
  have htarget : Format.binary64.targetExponent (totalExponent (2 ^ 53) e) = e + 1 := by
    rw [targetExponent_binary64, totalExponent, Nat.log2_two_pow]
    omega
  rw [shiftToTargetExponent, htarget, shiftToExponent_of_le _ (by omega), add_sub_cancel_left]
  rfl

/-- Rounded digits become those of a double without another loss. -/
theorem shiftToTargetExponent_exact {m : ℕ} {e : ℤ} (hm : m ≤ 2 ^ 53) (he : -1074 ≤ e)
    (hfull : 2 ^ 52 ≤ m ∨ e = -1074) :
    ∃ m' e', shiftToTargetExponent .binary64 m e .exact = (.ofMantissaAndAccuracy m' .exact, e') ∧
      Canonical m' e' ∧ (m' * 2 ^ e' : ℚ) = m * 2 ^ e := by
  rcases hm.lt_or_eq with hlt | rfl
  · exact ⟨m, e, shiftToTargetExponent_of_lt hlt he, ⟨hlt, he, hfull⟩, rfl⟩
  · refine ⟨2 ^ 52, e + 1, shiftToTargetExponent_carry he, ⟨by norm_num, by omega, .inl le_rfl⟩, ?_⟩
    rw [zpow_add_one₀ two_ne_zero]
    push_cast
    ring

/-- The digits a rational is rounded to are as many as a double has, or one more. -/
theorem full_of_halfEven {m : ℕ} {q : ℚ} (hq : 0 < q) (hm : (m : ℤ) = halfEven (q / 2 ^ lastPlace q)) :
    m ≤ 2 ^ 53 ∧ (2 ^ 52 ≤ m ∨ lastPlace q = -1074) := by
  constructor
  · have := (abs_le.1 (abs_halfEven_le q)).2
    omega
  · rcases (lastPlace_ge q).lt_or_eq with hlt | heq
    · have := le_halfEven_lastPlace hq hlt
      rw [← hm] at this
      exact .inl (by exact_mod_cast this)
    · exact .inr heq.symm

/-- A number told by digits and two bits is rounded to the nearest double. -/
theorem is_roundWithAccuracy {m : ℕ} {e : ℤ} {acc : Accuracy} {x : ℚ} (s : Sign) (hx : 0 < x)
    (htells : Tells (.ofMantissaAndAccuracy m acc) x) (he : e ≤ lastPlace (x * 2 ^ e)) :
    Is (roundWithAccuracy .binary64 s m e acc) (signed s (nearest (x * 2 ^ e))) := by
  have hpos := two_zpow_pos e
  have hfloor : ⌊x⌋ = m := by
    have := htells.floor
    cases acc with
    | exact => exact this
    | inexact side => cases side <;> exact this
  obtain ⟨hlow, hhigh⟩ := Int.floor_eq_iff.1 hfloor
  have htarget := targetExponent_of_le hx (by exact_mod_cast hlow) (by exact_mod_cast hhigh) he
  -- the first shift ends at the last place
  have hshift : x / 2 ^ (lastPlace (x * 2 ^ e) - e).toNat =
      x * 2 ^ e / 2 ^ lastPlace (x * 2 ^ e) := by
    rw [← zpow_natCast, Int.toNat_of_nonneg (by omega), zpow_sub₀ two_ne_zero, div_div_eq_mul_div]
  have hrounded := (htells.shiftRight (lastPlace (x * 2 ^ e) - e).toNat).roundedMantissa
  rw [hshift] at hrounded
  obtain ⟨hle, hfull⟩ := full_of_halfEven (mul_pos hx hpos) hrounded
  obtain ⟨m', e', heq, hcanonical, hvalue⟩ := shiftToTargetExponent_exact hle (lastPlace_ge _) hfull
  have hnearest : nearest (x * 2 ^ e) = m' * 2 ^ e' := by
    rw [hvalue, nearest, ← hrounded]
    rfl
  rw [roundWithAccuracy, shiftToTargetExponent, htarget, shiftToExponent_of_le _ he]
  simp only [heq]
  split
  case isTrue hzero =>
    have : m' = 0 := hzero
    rw [hnearest, this]
    simp [Is]
  case isFalse =>
    exact ⟨hcanonical, by rw [hnearest]; rfl⟩

theorem decreaseExponent_eq (m : ℕ) (e p : ℤ) :
    decreaseExponent m e p = (m * 2 ^ (e - p).toNat, min e p) := by
  rw [decreaseExponent, Nat.shiftLeft_eq]
  congr 1
  omega

theorem mul_zpow_decreaseExponent (m : ℕ) (e p : ℤ) :
    ((m * 2 ^ (e - p).toNat : ℕ) : ℚ) * 2 ^ min e p = m * 2 ^ e := by
  push_cast
  rw [mul_assoc, ← zpow_natCast, ← zpow_add₀ two_ne_zero]
  congr 2
  omega

theorem mul_zpow_lower (m : ℕ) {e p : ℤ} (h : p ≤ e) :
    ((m * 2 ^ (e - p).toNat : ℕ) : ℚ) * 2 ^ p = m * 2 ^ e := by
  rw [← mul_zpow_decreaseExponent m e p, min_eq_right h]

theorem roundWithAccuracy_zero (s : Sign) (e : ℤ) :
    roundWithAccuracy .binary64 s 0 e .exact = .zero s := by
  have hshift (n : ℕ) : ExtendedMantissa.ofMantissaAndAccuracy 0 .exact >>> n =
      ExtendedMantissa.ofMantissaAndAccuracy 0 .exact := by
    induction n with
    | zero => rfl
    | succ n ih => exact congrArg ExtendedMantissa.shiftRightOne ih
  have hrounded : (ExtendedMantissa.ofMantissaAndAccuracy 0 .exact).roundedMantissa = 0 := rfl
  simp only [roundWithAccuracy, shiftToTargetExponent, shiftToExponent, hshift, hrounded]
  rfl

/-- Digits at any place are rounded to the nearest double. -/
theorem is_round (s : Sign) (m : ℕ) (e : ℤ) :
    Is (UnpackedFloat.round .binary64 s m e) (signed s (nearest (m * 2 ^ e))) := by
  rw [UnpackedFloat.round, decreaseExponent_eq]
  rcases Nat.eq_zero_or_pos m with rfl | hm
  · simp only [zero_mul, roundWithAccuracy_zero]
    simp [Is]
  · have htarget := targetExponent_eq_lastPlace (e := e) hm le_rfl (lt_add_one (m : ℚ))
    rw [htarget]
    have hvalue := mul_zpow_decreaseExponent m e (lastPlace (m * 2 ^ e))
    have h := is_roundWithAccuracy (e := min e (lastPlace (m * 2 ^ e))) s (by positivity)
      (tells_exact (m * 2 ^ (e - lastPlace (m * 2 ^ e)).toNat))
      (by rw [hvalue]; exact min_le_right ..)
    rwa [hvalue] at h

theorem is_normalize (z : ℤ) (e : ℤ) (s : Sign) :
    Is (UnpackedFloat.normalize .binary64 z e s) (nearest (z * 2 ^ e)) := by
  rw [UnpackedFloat.normalize]
  rcases lt_trichotomy z 0 with h | rfl | h
  · rw [Int.compare_eq_lt.2 h]
    have hcast : (((-z).toNat : ℕ) : ℚ) = -z := by
      exact_mod_cast Int.toNat_of_nonneg (by omega : 0 ≤ -z)
    have hround := is_round .negative (-z).toNat e
    rw [hcast, neg_mul, nearest_neg] at hround
    simpa [signed] using hround
  · simp [Is]
  · rw [Int.compare_eq_gt.2 h]
    have hcast : ((z.toNat : ℕ) : ℚ) = z := by
      exact_mod_cast Int.toNat_of_nonneg h.le
    have hround := is_round .positive z.toNat e
    rwa [hcast] at hround

end Reckoner.Binary64
