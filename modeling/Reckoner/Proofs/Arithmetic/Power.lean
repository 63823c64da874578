import Mathlib
import Reckoner.Arithmetic
import Reckoner.Proofs.Arithmetic.Division
import Reckoner.Proofs.Binary64.Integral

/-!
Powers for every pair of doubles. What the computation of a power refuses - an overflow, a negative power
of zero, and what is no real number - gets the value back that the power of doubles has there.
-/

namespace Reckoner.Arithmetic

open Binary64 (Denotes HasSign IsOdd copySign denotes_of_beq_zero denotes_one denotes_zero infinity
  isFinite_iff isNegative isOddInteger_iff nan nearest signed)
open Float.Model (UnpackedFloat)
open Float.Model.UnpackedFloat (Sign)

/-- What is relied on of a function that computes powers of doubles, besides its values. -/
structure ComputesPowers (pow : Float → Float → Float) : Prop where
  /-- With a zero for the exponent the power is one. -/
  one : ∀ {b x : Float}, (x == 0) = true → pow b x = 1
  /-- A negative odd power of a zero is an infinity with its sign, -/
  pole_odd : ∀ {b x : Float}, (b == 0) = true → x < 0 → IsOdd x → pow b x = copySign infinity b
  /-- another negative power is the positive infinity. -/
  pole : ∀ {b x : Float}, (b == 0) = true → x < 0 → ¬IsOdd x → pow b x = infinity
  /-- A positive odd power of a zero is that zero, -/
  zero_odd : ∀ {b x : Float}, (b == 0) = true → 0 < x → IsOdd x → pow b x = b
  /-- another positive power is the positive zero. -/
  zero : ∀ {b x : Float}, (b == 0) = true → 0 < x → ¬IsOdd x → pow b x = 0
  /-- A negative number has no real power but for whole exponents. -/
  undefined : ∀ {b x : Float} {p q : ℚ}, Denotes b p → Denotes x q → p < 0 → (¬∃ z : ℤ, q = z) →
    (pow b x).isNaN = true
  /-- A power of a number that is not finite is the infinity with the sign of the real power. -/
  overflow : ∀ {b x : Float} {p q : ℚ}, Denotes b p → Denotes x q → p ≠ 0 →
    (pow b x).isInf = true → pow b x = if (p : ℝ) ^ (q : ℝ) < 0 then -infinity else infinity

section Power

variable {pow : Float → Float → Float} {b x : Float} {p q : ℚ}

/-- A real power is negative only for an odd power of a negative number. -/
theorem rpow_lt_zero_iff (hp : p ≠ 0) (hwhole : p < 0 → ∃ z : ℤ, q = z) :
    (p : ℝ) ^ (q : ℝ) < 0 ↔ p < 0 ∧ ∃ z : ℤ, Odd z ∧ q = z := by
  rcases hp.lt_or_gt with hneg | hpos
  · have hneg' : (p : ℝ) < 0 := by exact_mod_cast hneg
    obtain ⟨z, rfl⟩ := hwhole hneg
    rw [Rat.cast_intCast, Real.rpow_intCast]
    rcases Int.even_or_odd z with heven | hodd
    · refine iff_of_false (heven.zpow_pos hneg'.ne).le.not_gt ?_
      rintro ⟨-, z', hodd, hz⟩
      obtain rfl : z = z' := by exact_mod_cast hz
      exact Int.not_even_iff_odd.2 hodd heven
    · exact iff_of_true (hodd.zpow_neg hneg') ⟨hneg, z, hodd, rfl⟩
  · have hpos' : (0 : ℝ) < p := by exact_mod_cast hpos
    exact iff_of_false (Real.rpow_pos_of_pos hpos' _).le.not_gt fun h => h.1.not_gt hpos

/-- An infinite power of a number is negative for odd powers of negative numbers. -/
theorem ComputesPowers.eq_of_overflow (h : ComputesPowers pow) (hb : Denotes b p)
    (hx : Denotes x q) (hp : p ≠ 0) (hinf : (pow b x).isInf = true) :
    pow b x = if (b < 0 && Binary64.isOddInteger x) = true then -infinity else infinity := by
  rw [h.overflow hb hx hp hinf]
  have hwhole : p < 0 → ∃ z : ℤ, q = z := by
    intro hneg
    by_contra hnone
    have hnan := h.undefined hb hx hneg hnone
    rw [Binary64.isNaN_eq_false_of_isInf hinf] at hnan
    cases hnan
  have hsign : (p : ℝ) ^ (q : ℝ) < 0 ↔ (b < 0 && Binary64.isOddInteger x) = true := by
    rw [rpow_lt_zero_iff hp hwhole, Bool.and_eq_true, decide_eq_true_eq, isOddInteger_iff,
      hx.isOdd_iff, hb.lt_iff denotes_zero]
  simp only [hsign]

/-- An infinite power of a zero has a negative exponent. -/
theorem ComputesPowers.neg_of_pole (h : ComputesPowers pow) (hb : (b == 0) = true)
    (hx : Denotes x q) (hinf : (pow b x).isInf = true) : x < 0 := by
  rcases lt_trichotomy q 0 with hneg | hzero | hpos
  · exact (hx.lt_iff denotes_zero).2 hneg
  · rw [h.one ((hx.beq_iff denotes_zero).2 hzero), denotes_one.isInf_eq_false] at hinf
    cases hinf
  · have hpos : 0 < x := (denotes_zero.lt_iff hx).2 hpos
    by_cases hodd : IsOdd x
    · rw [h.zero_odd hb hpos hodd, (denotes_of_beq_zero hb).isInf_eq_false] at hinf
      cases hinf
    · rw [h.zero hb hpos hodd, denotes_zero.isInf_eq_false] at hinf
      cases hinf

/-- A negative power of a zero, by its sign and the exponent. -/
theorem ComputesPowers.eq_of_pole (h : ComputesPowers pow) (hb : (b == 0) = true) (hx : x < 0) :
    pow b x = if Binary64.isOddInteger x = true then copySign infinity b else infinity := by
  by_cases hodd : IsOdd x
  · rw [h.pole_odd hb hx hodd, if_pos (isOddInteger_iff.2 hodd)]
  · rw [h.pole hb hx hodd, if_neg (mt isOddInteger_iff.1 hodd)]

theorem ComputesPowers.isInf_of_pole (h : ComputesPowers pow) (hb : (b == 0) = true) (hx : x < 0) :
    (pow b x).isInf = true := by
  rw [h.eq_of_pole hb hx]
  split
  · obtain hsign | hsign : copySign infinity b = -infinity.abs ∨ copySign infinity b = infinity.abs :=
      ite_eq_or_eq ..
    · rw [hsign]
      decide +kernel
    · rw [hsign]
      decide +kernel
  · decide +kernel

/-- What is refused, and why. -/
theorem checked_power_cases (pow : Float → Float → Float) (b x : Float) :
    Checked.power pow b x = .ok (pow b x) ∨
      Checked.power pow b x = .error .outside ∧ (pow b x).isNaN = true ∨
      Checked.power pow b x = .error .outside ∧ (pow b x).isInf = true ∧ (b == 0) = true ∧
        (∃ q, Denotes x q) ∨
      Checked.power pow b x = .error .overflow ∧ (pow b x).isInf = true ∧
        ∃ p q, p ≠ 0 ∧ Denotes b p ∧ Denotes x q := by
  rw [Checked.power]
  split
  case isFalse => exact .inl rfl
  case isTrue hfinite =>
    obtain ⟨hb, hx⟩ := Bool.and_eq_true_iff.1 hfinite
    obtain ⟨p, hp⟩ := isFinite_iff.1 hb
    obtain ⟨q, hq⟩ := isFinite_iff.1 hx
    split
    case isTrue hnan => exact .inr (.inl ⟨rfl, hnan⟩)
    case isFalse =>
      split
      case isFalse => exact .inl rfl
      case isTrue hinf =>
        by_cases hzero : (b == 0) = true
        · rw [hzero]
          exact .inr (.inr (.inl ⟨rfl, hinf, rfl, q, hq⟩))
        · have hp0 : p ≠ 0 := fun h => hzero ((hp.beq_iff denotes_zero).2 h)
          rw [if_neg hzero]
          exact .inr (.inr (.inr ⟨rfl, hinf, p, q, hp0, hp, hq⟩))

/-- The floor is asked for where there is one. -/
theorem isOddInteger_eq (x : Float) : isOddInteger x = .ok (Binary64.isOddInteger x) := by
  rw [isOddInteger]
  split
  case isTrue hfinite =>
    obtain ⟨q, hq⟩ := isFinite_iff.1 hfinite
    have hsame : (Binary64.isInteger x ⌊q⌋ && decide (⌊q⌋ % 2 = 1)) = Binary64.isOddInteger x := by
      rw [Bool.eq_iff_iff, isOddInteger_iff, hq.isOdd_iff, Bool.and_eq_true, hq.isInteger_iff,
        decide_eq_true_eq]
      constructor
      · rintro ⟨hinteger, hodd⟩
        exact ⟨⌊q⌋, Int.odd_iff.2 hodd, hinteger⟩
      · rintro ⟨z, hodd, rfl⟩
        rw [Int.floor_intCast]
        exact ⟨rfl, Int.odd_iff.1 hodd⟩
    rw [Checked.floor_eq hq]
    exact congrArg Except.ok hsame
  case isFalse hinfinite =>
    rw [Binary64.isOddInteger, Binary64.fraction?_eq_none (Bool.not_eq_true _ ▸ hinfinite)]
    rfl

/-- Whatever is refused gets a value back, whatever the function computes. -/
theorem powerBy_total (pow : Float → Float → Float) (b x : Float) :
    ∃ y, powerBy pow b x = .ok y := by
  rw [powerBy]
  rcases checked_power_cases pow b x with h | ⟨h, -⟩ | ⟨h, -⟩ | ⟨h, -⟩
  · rw [h]
    exact ⟨_, rfl⟩
  · simp only [h, MathFault.kind, isOddInteger_eq]
    split <;> exact ⟨_, rfl⟩
  · simp only [h, MathFault.kind, isOddInteger_eq]
    split <;> exact ⟨_, rfl⟩
  · simp only [h, MathFault.kind, isOddInteger_eq]
    split <;> exact ⟨_, rfl⟩

theorem power_total [Elementary] (b x : Float) : ∃ y, power b x = .ok y :=
  powerBy_total Elementary.pow b x

/-- Whatever is refused gets back the power of doubles. -/
theorem powerBy_eq (h : ComputesPowers pow) (b x : Float) : powerBy pow b x = .ok (pow b x) := by
  rw [powerBy]
  rcases checked_power_cases pow b x with hok | ⟨houtside, hnan⟩ | ⟨houtside, hinf, hzero, q, hq⟩ |
    ⟨hoverflow, hinf, p, q, hp0, hp, hq⟩
  · rw [hok]
    rfl
  · -- it is no negative power of a zero, which would be infinite
    have hpole : ¬(b == 0 && x < 0) = true := by
      intro hpole
      obtain ⟨hzero, hneg⟩ := Bool.and_eq_true_iff.1 hpole
      have hinf := h.isInf_of_pole hzero (of_decide_eq_true hneg)
      rw [Binary64.isNaN_eq_false_of_isInf hinf] at hnan
      cases hnan
    simp only [houtside, MathFault.kind, if_neg hpole]
    exact congrArg Except.ok (Binary64.eq_nan_of_isNaN hnan).symm
  · have hneg := h.neg_of_pole hzero hq hinf
    have hpole : (b == 0 && x < 0) = true := Bool.and_eq_true_iff.2 ⟨hzero, decide_eq_true hneg⟩
    simp only [houtside, MathFault.kind, if_pos hpole, isOddInteger_eq]
    exact congrArg Except.ok (h.eq_of_pole hzero hneg).symm
  · simp only [hoverflow, MathFault.kind, isOddInteger_eq]
    rw [h.eq_of_overflow hp hq hp0 hinf]
    by_cases hneg : b < 0
    · simp only [hneg, if_true, decide_true, Bool.true_and]
      rfl
    · simp only [hneg, if_false, decide_false, Bool.false_and, Bool.false_eq_true]
      rfl

end Power

/-- Quotients and powers have a value for every pair of doubles, and it is that of doubles.
- A quotient is the quotient of doubles: next to the exact one where that is a number, and for a zero
  divisor and a dividend other than zero an infinity, negative where the signs differ.
- A power is what the function computes that it is taken from. An overflow is the negative infinity for odd
  powers of negative numbers and otherwise the positive one; a negative power of a zero is an infinity, with
  the sign of the zero for odd powers; and a negative number has no power but for whole exponents. -/
theorem divide_powerBy_restored {pow : Float → Float → Float} (hpow : ComputesPowers pow) :
    (∀ a b : Float, ∃ x, divide a b = .ok x ∧ x = a / b ∧
      (∀ p q, Denotes a p → Denotes b q → q ≠ 0 → |nearest (p / q)| < 2 ^ 1024 →
        Denotes x (nearest (p / q))) ∧
      ((a == 0) = false → a.isNaN = false → (b == 0) = true →
        x.isInf = true ∧ isNegative x = (isNegative a != isNegative b))) ∧
    ∀ b x : Float, ∃ y, powerBy pow b x = .ok y ∧ y = pow b x ∧
      ((∃ p q, p ≠ 0 ∧ Denotes b p ∧ Denotes x q) → (pow b x).isInf = true →
        (y = -infinity ↔ b < 0 ∧ IsOdd x) ∧ (¬(b < 0 ∧ IsOdd x) → y = infinity)) ∧
      ((b == 0) = true → x < 0 →
        (IsOdd x → y = copySign infinity b) ∧ (¬IsOdd x → y = infinity)) ∧
      ((∃ p q, Denotes b p ∧ Denotes x q ∧ p < 0 ∧ ¬∃ z : ℤ, q = z) → y = nan) := by
  refine ⟨fun a b => ⟨a / b, divide_eq a b, rfl, ?_, ?_⟩, fun b x => ⟨pow b x, powerBy_eq hpow b x, rfl,
    ?_, fun hb hx => ⟨hpow.pole_odd hb hx, hpow.pole hb hx⟩, ?_⟩⟩
  · intro p q hp hq hq0 hlt
    exact hp.div hq hq0 hlt
  · intro hne hnan hzero
    obtain ⟨x, hx, hinf, hsign⟩ := isNegative_divide_zero hne hnan hzero
    obtain rfl : a / b = x := Except.ok.inj ((divide_eq a b).symm.trans hx)
    exact ⟨hinf, hsign⟩
  · rintro ⟨p, q, hp0, hp, hq⟩ hinf
    have hsign : (b < 0 && Binary64.isOddInteger x) = true ↔ b < 0 ∧ IsOdd x := by
      rw [Bool.and_eq_true, decide_eq_true_eq, isOddInteger_iff]
    rw [hpow.eq_of_overflow hp hq hp0 hinf]
    by_cases hodd : b < 0 ∧ IsOdd x
    · rw [if_pos (hsign.2 hodd)]
      exact ⟨iff_of_true rfl hodd, fun h => absurd hodd h⟩
    · rw [if_neg (mt hsign.1 hodd)]
      exact ⟨iff_of_false (by decide +kernel) hodd, fun _ => rfl⟩
  · rintro ⟨p, q, hp, hq, hneg, hpart⟩
    exact Binary64.eq_nan_of_isNaN (hpow.undefined hp hq hneg hpart)

/-! ### A function that computes whole powers -/

/-- A power of digits at a place, rounded once. -/
def digitPower (s : Sign) (m : ℕ) (e : ℤ) (n : ℕ) : Float :=
  Binary64.ofScaled (if n % 2 = 1 then s else .positive) (m ^ n) (e * n)

/-- The powers of zeros, and the other powers with a positive whole exponent; for all else it gives no
number. -/
def wholePower (b x : Float) : Float :=
  if x == 0 then 1
  else if b == 0 then
    if x < 0 then if Binary64.isOddInteger x then copySign infinity b else infinity
    else if 0 < x then if Binary64.isOddInteger x then b else 0
    else nan
  else
    match b.toModel.unpack, Binary64.fraction? x with
    | .finite s m e _, some (n, d) => if n % d = 0 ∧ 0 < n then digitPower s m e (n / d).toNat else nan
    | _, _ => nan

section WholePower

variable {b x : Float} {p q : ℚ}

theorem wholePower_zero_of_neg (hb : (b == 0) = true) (hx : x < 0) :
    wholePower b x = if Binary64.isOddInteger x then copySign infinity b else infinity := by
  rw [wholePower, Binary64.beq_zero_eq_false_of_neg hx, hb, if_pos hx]
  rfl

theorem wholePower_zero_of_pos (hb : (b == 0) = true) (hx : 0 < x) :
    wholePower b x = if Binary64.isOddInteger x then b else 0 := by
  rw [wholePower, Binary64.beq_zero_eq_false_of_pos hx, hb,
    if_neg fun h : x < 0 => Binary64.not_pos_of_neg h hx, if_pos hx]
  rfl

/-- The power of a number other than zero, by the digits of the base and the quotient of the exponent. -/
theorem wholePower_of_ne_zero (hb : Denotes b p) (hp : p ≠ 0) (hx : Denotes x q) (hq : q ≠ 0) :
    ∃ (s : Sign) (m : ℕ) (e n : ℤ) (d : ℕ), p = signed s (m * 2 ^ e) ∧ 0 < m ∧ 0 < d ∧ (n / d : ℚ) = q ∧
      wholePower b x = if n % d = 0 ∧ 0 < n then digitPower s m e (n / d).toNat else nan := by
  obtain ⟨n, d, hfraction, hd, hquotient⟩ := hx.fraction?
  have hbase : (b == 0) = false := by
    rw [← Bool.not_eq_true, hb.beq_iff denotes_zero]
    exact hp
  have hexponent : (x == 0) = false := by
    rw [← Bool.not_eq_true, hx.beq_iff denotes_zero]
    exact hq
  have his := hb.is
  rw [wholePower, hbase, hexponent, hfraction]
  generalize b.toModel.unpack = u at his ⊢
  cases u with
  | infinity | notANumber => exact his.elim
  | zero s => exact absurd his hp
  | finite s m e hm => exact ⟨s, m, e, n, d, his.2, hm, hd, hquotient, rfl⟩

theorem isInf_digitPower {s : Sign} {m : ℕ} {e : ℤ} {n : ℕ}
    (h : (digitPower s m e n).isInf = true) :
    digitPower s m e n = Binary64.signedInfinity (if n % 2 = 1 then s else .positive) :=
  Binary64.eq_signedInfinity_of_pack (Binary64.hasSign_round _ _ _) h

theorem signedInfinity_power {s : Sign} {m k : ℕ} {e : ℤ} (hm : 0 < m)
    (hp : p = signed s (m * 2 ^ e)) (hq : q = k) :
    Binary64.signedInfinity (if k % 2 = 1 then s else .positive) =
      if (p : ℝ) ^ (q : ℝ) < 0 then -infinity else infinity := by
  have hpos : (0 : ℚ) < m * 2 ^ e :=
    mul_pos (by exact_mod_cast hm) (Binary64.two_zpow_pos e)
  have hsign : p < 0 ↔ s = .negative := by
    rw [hp]
    cases s
    · exact iff_of_true (neg_neg_of_pos hpos) rfl
    · exact iff_of_false hpos.not_gt (by simp)
  have hodd : (∃ z : ℤ, Odd z ∧ q = z) ↔ k % 2 = 1 := by
    rw [← Nat.odd_iff]
    constructor
    · rintro ⟨z, hz, hqz⟩
      obtain rfl : (k : ℤ) = z := by exact_mod_cast hq.symm.trans hqz
      exact_mod_cast hz
    · intro hk
      exact ⟨k, by exact_mod_cast hk, by exact_mod_cast hq⟩
  have hp0 : p ≠ 0 := by
    rw [hp]
    cases s
    · exact (neg_neg_of_pos hpos).ne
    · exact hpos.ne'
  have hiff : (p : ℝ) ^ (q : ℝ) < 0 ↔ s = .negative ∧ k % 2 = 1 := by
    rw [rpow_lt_zero_iff hp0 fun _ => ⟨k, by exact_mod_cast hq⟩, hsign, hodd]
  by_cases hnegative : s = .negative ∧ k % 2 = 1
  · rw [if_pos (hiff.2 hnegative), if_pos hnegative.2, hnegative.1]
    rfl
  · rw [if_neg (mt hiff.1 hnegative)]
    cases s
    · rw [if_neg fun hk => hnegative ⟨rfl, hk⟩]
      rfl
    · rw [ite_self]
      rfl

theorem computesPowers_wholePower : ComputesPowers wholePower where
  one hx := by rw [wholePower, if_pos hx]
  pole_odd hb hx hodd := by
    rw [wholePower_zero_of_neg hb hx, if_pos (isOddInteger_iff.2 hodd)]
  pole hb hx hodd := by
    rw [wholePower_zero_of_neg hb hx, if_neg (mt isOddInteger_iff.1 hodd)]
  zero_odd hb hx hodd := by
    rw [wholePower_zero_of_pos hb hx, if_pos (isOddInteger_iff.2 hodd)]
  zero hb hx hodd := by
    rw [wholePower_zero_of_pos hb hx, if_neg (mt isOddInteger_iff.1 hodd)]
  undefined hb hx hneg hpart := by
    obtain ⟨s, m, e, n, d, -, -, hd, hquotient, hpower⟩ := wholePower_of_ne_zero hb hneg.ne hx
      fun hq => hpart ⟨0, by exact_mod_cast hq⟩
    have hrest : ¬n % (d : ℤ) = 0 := by
      intro hdvd
      refine hpart ⟨n / d, ?_⟩
      rw [Int.cast_div (Int.dvd_of_emod_eq_zero hdvd) (by exact_mod_cast hd.ne'), Int.cast_natCast]
      exact hquotient.symm
    rw [hpower, if_neg fun h => hrest h.1]
    decide +kernel
  overflow {b x p q} hb hx hp hinf := by
    by_cases hq : q = 0
    · rw [wholePower, if_pos ((hx.beq_iff denotes_zero).2 hq), denotes_one.isInf_eq_false] at hinf
      cases hinf
    obtain ⟨s, m, e, n, d, hdigits, hm, hd, hquotient, hpower⟩ := wholePower_of_ne_zero hb hp hx hq
    rw [hpower] at hinf ⊢
    split at hinf
    case isFalse => exact absurd hinf (by decide +kernel)
    case isTrue hwhole =>
      rw [if_pos hwhole, isInf_digitPower hinf]
      refine signedInfinity_power hm hdigits ?_
      have hn : ((n / d).toNat : ℤ) = n / d :=
        Int.toNat_of_nonneg (Int.ediv_nonneg hwhole.2.le (Int.natCast_nonneg d))
      have hcast : (((n / d).toNat : ℕ) : ℚ) = ((n / d : ℤ) : ℚ) := by exact_mod_cast hn
      rw [hcast, Int.cast_div (Int.dvd_of_emod_eq_zero hwhole.1) (by exact_mod_cast hd.ne'),
        Int.cast_natCast]
      exact hquotient.symm

end WholePower

/-- A large odd power of a negative number, a negative odd power of the negative zero, and a root of a
negative number. -/
theorem divide_powerBy_restored_odd :
    ComputesPowers wholePower ∧
      divide (-1) 0 = .ok (-infinity) ∧
      (powerBy wholePower (-10) 401 = .ok (wholePower (-10) 401) ∧
        wholePower (-10) 401 = -infinity) ∧
      powerBy wholePower (-0.0) (-3) = .ok (-infinity) ∧
      powerBy wholePower (-8) 0.5 = .ok nan := by
  obtain ⟨hdivide, hpower⟩ := divide_powerBy_restored computesPowers_wholePower
  refine ⟨computesPowers_wholePower, ?_, ⟨?_, ?_⟩, ?_, ?_⟩
  · obtain ⟨x, hx, rfl, -⟩ := hdivide (-1) 0
    rw [hx]
    decide +kernel
  · obtain ⟨y, hy, rfl, -⟩ := hpower (-10) 401
    exact hy
  · decide +kernel
  · obtain ⟨y, hy, rfl, -⟩ := hpower (-0.0) (-3)
    rw [hy]
    decide +kernel
  · obtain ⟨y, hy, rfl, -⟩ := hpower (-8) 0.5
    rw [hy]
    decide +kernel

end Reckoner.Arithmetic
