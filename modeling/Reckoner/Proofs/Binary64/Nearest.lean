import Mathlib.Data.Int.Log
import Mathlib.Data.Rat.Floor
import Mathlib.Tactic.Linarith
import Mathlib.Tactic.Positivity
import Mathlib.Tactic.Ring

/-!
Rounding rationals to doubles. A double has 53 binary digits, of which the last stands at `2 ^ -1074`
or higher. The nearest one is taken, and of two the one that ends in zero. No bound is put on large
values: whether a double is finite is told where it is packed.
-/

namespace Reckoner.Binary64

/-! ### To the nearest integer -/

/-- The integer nearest to a rational, a half going to the even one. -/
def halfEven (q : ℚ) : ℤ :=
  if Int.fract q < 1 / 2 then ⌊q⌋
  else if Int.fract q = 1 / 2 then ⌊q⌋ + ⌊q⌋ % 2
  else ⌊q⌋ + 1

section HalfEven

variable {q r : ℚ}

theorem halfEven_of_lt (h : Int.fract q < 1 / 2) : halfEven q = ⌊q⌋ := if_pos h

theorem halfEven_of_eq (h : Int.fract q = 1 / 2) : halfEven q = ⌊q⌋ + ⌊q⌋ % 2 := by
  rw [halfEven, if_neg (by rw [h]; exact lt_irrefl _), if_pos h]

theorem halfEven_of_gt (h : 1 / 2 < Int.fract q) : halfEven q = ⌊q⌋ + 1 := by
  rw [halfEven, if_neg h.le.not_gt, if_neg h.ne']

@[simp] theorem halfEven_intCast (n : ℤ) : halfEven n = n := by
  rw [halfEven_of_lt (by simp), Int.floor_intCast]

theorem floor_le_halfEven (q : ℚ) : ⌊q⌋ ≤ halfEven q := by
  rcases lt_trichotomy (Int.fract q) (1 / 2) with h | h | h
  · rw [halfEven_of_lt h]
  · rw [halfEven_of_eq h]
    omega
  · rw [halfEven_of_gt h]
    omega

theorem halfEven_le_floor (q : ℚ) : halfEven q ≤ ⌊q⌋ + 1 := by
  rcases lt_trichotomy (Int.fract q) (1 / 2) with h | h | h
  · rw [halfEven_of_lt h]
    omega
  · rw [halfEven_of_eq h]
    omega
  · rw [halfEven_of_gt h]

theorem halfEven_mono (h : q ≤ r) : halfEven q ≤ halfEven r := by
  rcases (Int.floor_le_floor h).lt_or_eq with hlt | heq
  · have hq := halfEven_le_floor q
    have hr := floor_le_halfEven r
    omega
  · -- between the same integers the fractions decide
    have hfract : Int.fract q ≤ Int.fract r := by
      rw [Int.fract, Int.fract, heq]
      linarith
    rcases lt_trichotomy (Int.fract q) (1 / 2) with hq | hq | hq
    · rw [halfEven_of_lt hq, heq]
      exact floor_le_halfEven r
    · rcases (hq ▸ hfract).eq_or_lt with hr | hr
      · rw [halfEven_of_eq hq, halfEven_of_eq hr.symm, heq]
      · rw [halfEven_of_eq hq, halfEven_of_gt hr, heq]
        omega
    · rw [halfEven_of_gt hq, halfEven_of_gt (hq.trans_le hfract), heq]

theorem le_halfEven {z : ℤ} (h : z ≤ q) : z ≤ halfEven q := by
  have := halfEven_mono h
  rwa [halfEven_intCast] at this

theorem halfEven_le {z : ℤ} (h : q ≤ z) : halfEven q ≤ z := by
  have := halfEven_mono h
  rwa [halfEven_intCast] at this

theorem abs_halfEven_sub_le (q : ℚ) : |(halfEven q : ℚ) - q| ≤ 1 / 2 := by
  have hq := Int.floor_add_fract q
  have hnonneg := Int.fract_nonneg q
  have hlt := Int.fract_lt_one q
  rw [abs_le]
  rcases lt_trichotomy (Int.fract q) (1 / 2) with h | h | h
  · rw [halfEven_of_lt h]
    constructor <;> linarith
  · rw [halfEven_of_eq h]
    rcases Int.emod_two_eq_zero_or_one ⌊q⌋ with hmod | hmod <;> rw [hmod] <;> push_cast <;>
      constructor <;> linarith
  · rw [halfEven_of_gt h]
    push_cast
    constructor <;> linarith

theorem halfEven_neg (q : ℚ) : halfEven (-q) = -halfEven q := by
  have hq := Int.floor_add_fract q
  by_cases hint : Int.fract q = 0
  · obtain hq : ((⌊q⌋ : ℤ) : ℚ) = q := by linarith
    rw [← hq, ← Int.cast_neg, halfEven_intCast, halfEven_intCast]
  · have hfract := Int.fract_neg hint
    have hfloor : ⌊-q⌋ = -⌊q⌋ - 1 := by
      have hsum := Int.floor_add_fract (-q)
      have hcast : ((⌊-q⌋ : ℤ) : ℚ) = ((-⌊q⌋ - 1 : ℤ) : ℚ) := by
        push_cast
        linarith
      exact_mod_cast hcast
    rcases lt_trichotomy (Int.fract q) (1 / 2) with h | h | h
    · rw [halfEven_of_lt h, halfEven_of_gt (by rw [hfract]; linarith), hfloor]
      omega
    · rw [halfEven_of_eq h, halfEven_of_eq (by rw [hfract, h]; norm_num), hfloor]
      omega
    · rw [halfEven_of_gt h, halfEven_of_lt (by rw [hfract]; linarith), hfloor]
      omega

end HalfEven

/-! ### To the nearest double -/

/-- The place of the last digit of a double next to a rational. -/
def lastPlace (q : ℚ) : ℤ := max (Int.log 2 |q| - 52) (-1074)

/-- The double nearest to a rational, as if there were no largest one. -/
def nearest (q : ℚ) : ℚ := halfEven (q / 2 ^ lastPlace q) * 2 ^ lastPlace q

/-- Whether a rational has the digits of a double, which may be a large one. -/
def Representable (q : ℚ) : Prop :=
  ∃ m p : ℤ, |m| < 2 ^ 53 ∧ -1074 ≤ p ∧ q = m * 2 ^ p

section Nearest

variable {q r : ℚ}

theorem two_zpow_pos (p : ℤ) : (0 : ℚ) < 2 ^ p := zpow_pos two_pos p

theorem two_zpow_le {p p' : ℤ} (h : p ≤ p') : (2 : ℚ) ^ p ≤ 2 ^ p' :=
  zpow_le_zpow_right₀ one_le_two h

theorem lastPlace_ge (q : ℚ) : -1074 ≤ lastPlace q := le_max_right ..

theorem lastPlace_le {p : ℤ} (hq : q ≠ 0) (hp : -1074 ≤ p) (h : |q| < 2 ^ (p + 53)) :
    lastPlace q ≤ p := by
  have hlog : Int.log 2 |q| < p + 53 :=
    (Int.lt_zpow_iff_log_lt one_lt_two (abs_pos.2 hq)).1 (by exact_mod_cast h)
  exact max_le (by omega) hp

theorem le_lastPlace {p : ℤ} (h : 2 ^ p ≤ |q|) : max (p - 52) (-1074) ≤ lastPlace q := by
  have hlog : p ≤ Int.log 2 |q| :=
    (Int.zpow_le_iff_le_log one_lt_two ((two_zpow_pos p).trans_le h)).1 (by exact_mod_cast h)
  exact max_le_max (by omega) le_rfl

theorem abs_lt_zpow_lastPlace (q : ℚ) : |q| < 2 ^ (lastPlace q + 53) := by
  have hlog : |q| < 2 ^ (Int.log 2 |q| + 1) := by
    exact_mod_cast Int.lt_zpow_succ_log_self (b := 2) one_lt_two |q|
  refine hlog.trans_le (two_zpow_le ?_)
  have : Int.log 2 |q| - 52 ≤ lastPlace q := le_max_left ..
  omega

/-- Above the lowest place the digits are all used. -/
theorem zpow_lastPlace_le (hq : q ≠ 0) (h : -1074 < lastPlace q) : 2 ^ (lastPlace q + 52) ≤ |q| := by
  have heq : lastPlace q = Int.log 2 |q| - 52 := by
    rcases max_choice (Int.log 2 |q| - 52) (-1074) with hmax | hmax
    · exact hmax
    · rw [lastPlace, hmax] at h
      omega
  rw [heq, sub_add_cancel]
  exact_mod_cast Int.zpow_log_le_self (b := 2) one_lt_two (abs_pos.2 hq)

@[simp] theorem lastPlace_neg (q : ℚ) : lastPlace (-q) = lastPlace q := by
  rw [lastPlace, lastPlace, abs_neg]

theorem lastPlace_mono (hq : 0 < q) (h : q ≤ r) : lastPlace q ≤ lastPlace r := by
  refine max_le_max ?_ le_rfl
  rw [abs_of_pos hq, abs_of_pos (hq.trans_le h)]
  have := Int.log_mono_right (b := 2) hq h
  omega

@[simp] theorem nearest_neg (q : ℚ) : nearest (-q) = -nearest q := by
  rw [nearest, nearest, lastPlace_neg, neg_div, halfEven_neg]
  push_cast
  ring

@[simp] theorem nearest_zero : nearest 0 = 0 := by
  have := halfEven_intCast 0
  rw [nearest, zero_div, ← Int.cast_zero, this]
  simp

/-- Doubles are their own nearest. -/
theorem Representable.nearest_eq (h : Representable q) : nearest q = q := by
  obtain ⟨m, p, hm, hp, rfl⟩ := h
  by_cases hzero : m = 0
  · simp [hzero]
  have hpos := two_zpow_pos p
  have hq : (m * 2 ^ p : ℚ) ≠ 0 := mul_ne_zero (by exact_mod_cast hzero) hpos.ne'
  have hplace : lastPlace (m * 2 ^ p) ≤ p := by
    refine lastPlace_le hq hp ?_
    rw [abs_mul, abs_of_pos hpos, add_comm p, zpow_add₀ two_ne_zero]
    have hcast : |(m : ℚ)| < 2 ^ (53 : ℤ) := by exact_mod_cast hm
    exact mul_lt_mul_of_pos_right hcast hpos
  -- counted in last places it is an integer
  have hint : (m * 2 ^ p / 2 ^ lastPlace (m * 2 ^ p) : ℚ) =
      ((m * 2 ^ (p - lastPlace (m * 2 ^ p)).toNat : ℤ) : ℚ) := by
    rw [mul_div_assoc, ← zpow_sub₀ two_ne_zero]
    push_cast
    rw [← zpow_natCast, Int.toNat_of_nonneg (by omega)]
  rw [nearest, hint, halfEven_intCast, ← hint, div_mul_cancel₀ _ (two_zpow_pos _).ne']

/-- The size of a rational, counted in its last places. -/
theorem abs_div_lastPlace_lt (q : ℚ) : |q / 2 ^ lastPlace q| < 2 ^ 53 := by
  have hpos := two_zpow_pos (lastPlace q)
  rw [abs_div, abs_of_pos hpos, div_lt_iff₀ hpos]
  have := abs_lt_zpow_lastPlace q
  rwa [add_comm, zpow_add₀ two_ne_zero] at this

theorem abs_halfEven_le (q : ℚ) : |halfEven (q / 2 ^ lastPlace q)| ≤ 2 ^ 53 := by
  obtain ⟨hlow, hhigh⟩ := abs_lt.1 (abs_div_lastPlace_lt q)
  exact abs_le.2 ⟨le_halfEven (by push_cast; exact hlow.le), halfEven_le (by push_cast; exact hhigh.le)⟩

/-- Above the lowest place the rounded digits are all used, too. -/
theorem le_halfEven_lastPlace (hq : 0 < q) (h : -1074 < lastPlace q) :
    2 ^ 52 ≤ halfEven (q / 2 ^ lastPlace q) := by
  have hsize := zpow_lastPlace_le hq.ne' h
  rw [abs_of_pos hq, add_comm, zpow_add₀ two_ne_zero, ← le_div_iff₀ (two_zpow_pos _)] at hsize
  exact le_halfEven (by push_cast; exact_mod_cast hsize)

theorem nearest_representable (q : ℚ) : Representable (nearest q) := by
  have hplace := lastPlace_ge q
  rcases (abs_halfEven_le q).lt_or_eq with hlt | heq
  · exact ⟨_, _, hlt, hplace, rfl⟩
  · -- a carry to one digit more leaves that digit alone
    have hpower : nearest q = 2 ^ 52 * 2 ^ (lastPlace q + 1) ∨
        nearest q = (-2 ^ 52) * 2 ^ (lastPlace q + 1) := by
      rw [nearest, zpow_add₀ two_ne_zero]
      rcases (abs_eq (by positivity)).1 heq with h | h <;> rw [h] <;> push_cast
      · exact .inl (by ring)
      · exact .inr (by ring)
    rcases hpower with h | h
    · exact ⟨2 ^ 52, lastPlace q + 1, by norm_num, by omega, by exact_mod_cast h⟩
    · exact ⟨-2 ^ 52, lastPlace q + 1, by norm_num, by omega, by exact_mod_cast h⟩

theorem nearest_mono_of_pos (hq : 0 < q) (h : q ≤ r) : nearest q ≤ nearest r := by
  rcases (lastPlace_mono hq h).lt_or_eq with hlt | heq
  · -- a power of two stands between them
    have hr : 0 < r := hq.trans_le h
    have hpos := two_zpow_pos (lastPlace q)
    have hpos' := two_zpow_pos (lastPlace r)
    have hbelow : nearest q ≤ 2 ^ (lastPlace q + 53) := by
      rw [nearest, add_comm, zpow_add₀ two_ne_zero]
      have := (abs_le.1 (abs_halfEven_le q)).2
      exact mul_le_mul_of_nonneg_right (by exact_mod_cast this) hpos.le
    have habove : 2 ^ (lastPlace r + 52) ≤ nearest r := by
      have := le_halfEven_lastPlace hr (by have := lastPlace_ge q; omega)
      rw [nearest, add_comm, zpow_add₀ two_ne_zero]
      exact mul_le_mul_of_nonneg_right (by exact_mod_cast this) hpos'.le
    exact hbelow.trans ((two_zpow_le (by omega)).trans habove)
  · have hpos := two_zpow_pos (lastPlace r)
    rw [nearest, nearest, heq]
    have := halfEven_mono (div_le_div_of_nonneg_right h hpos.le)
    exact mul_le_mul_of_nonneg_right (by exact_mod_cast this) hpos.le

theorem nearest_nonneg (h : 0 ≤ q) : 0 ≤ nearest q := by
  have hpos := two_zpow_pos (lastPlace q)
  have hdigits : 0 ≤ halfEven (q / 2 ^ lastPlace q) :=
    le_halfEven (by push_cast; exact div_nonneg h hpos.le)
  exact mul_nonneg (by exact_mod_cast hdigits) hpos.le

theorem nearest_mono (h : q ≤ r) : nearest q ≤ nearest r := by
  rcases lt_or_ge 0 q with hq | hq
  · exact nearest_mono_of_pos hq h
  have hleft : nearest q ≤ 0 := by
    have := nearest_nonneg (neg_nonneg.2 hq)
    rw [nearest_neg] at this
    linarith
  rcases le_or_gt 0 r with hr | hr
  · exact hleft.trans (nearest_nonneg hr)
  · have := nearest_mono_of_pos (neg_pos.2 hr) (neg_le_neg h)
    rw [nearest_neg, nearest_neg] at this
    linarith

/-- Rounding is off by half a unit in the last place at most, -/
theorem abs_nearest_sub_le (q : ℚ) : |nearest q - q| ≤ 2 ^ (lastPlace q - 1) := by
  have hpos := two_zpow_pos (lastPlace q)
  have herror : nearest q - q = (halfEven (q / 2 ^ lastPlace q) - q / 2 ^ lastPlace q) *
      2 ^ lastPlace q := by
    rw [sub_mul, div_mul_cancel₀ _ hpos.ne', nearest]
  rw [herror, abs_mul, abs_of_pos hpos, zpow_sub_one₀ two_ne_zero, mul_comm (2 ^ lastPlace q)]
  refine mul_le_mul_of_nonneg_right ?_ hpos.le
  exact (abs_halfEven_sub_le _).trans (by norm_num)

/-- and so by `2 ^ -53` of what is rounded, down to where digits are lost. -/
theorem abs_nearest_sub_le_mul (h : 2 ^ (-1022 : ℤ) ≤ |q|) :
    |nearest q - q| ≤ 2 ^ (-53 : ℤ) * |q| := by
  have hpos : 0 < |q| := (two_zpow_pos _).trans_le h
  refine (abs_nearest_sub_le q).trans ?_
  have hlog : -1022 ≤ Int.log 2 |q| := (Int.zpow_le_iff_le_log one_lt_two hpos).1 (by exact_mod_cast h)
  have hplace : lastPlace q = Int.log 2 |q| - 52 := max_eq_left (by omega)
  have hexp : lastPlace q - 1 = -53 + Int.log 2 |q| := by omega
  rw [hexp, zpow_add₀ two_ne_zero]
  refine mul_le_mul_of_nonneg_left ?_ (two_zpow_pos _).le
  exact_mod_cast Int.zpow_log_le_self (b := 2) one_lt_two hpos

end Nearest
end Reckoner.Binary64
