import Mathlib
import Reckoner.Arithmetic
import Reckoner.Proofs.Binary64.Truncation
import Reckoner.Proofs.Checked

/-!
The exponential and the hyperbolic functions have a value for every double. An overflow is handled, and
the halves divide by two. The hyperbolic tangent divides by the cosine, which is no zero: of `x` and
`-x` one is zero or above, so that one of the two exponentials is at least one.
-/

namespace Reckoner

/-- What is documented of an exponential function: it keeps what is no number, is nowhere negative, and
is at least one from zero on. -/
structure Elementary.Documented [Elementary] : Prop where
  exp_nan : Elementary.exp Binary64.nan = Binary64.nan
  exp_nonneg : ∀ x : Float, x.isNaN = false → 0 ≤ Elementary.exp x
  one_le_exp : ∀ x : Float, 0 ≤ x → 1 ≤ Elementary.exp x

namespace Binary64

open Float.Model (UnpackedFloat)
open Float.Model.UnpackedFloat (Sign)

variable {a b x : Float} {p q : ℚ}

/-- A number above zero that is too large is packed as the infinity. -/
theorem Is.pack_eq_infinity {u : UnpackedFloat} (h : Is u q) (hpos : 0 < q) (hle : 2 ^ 1024 ≤ q) :
    Float.ofModel (.pack u) = infinity := by
  cases u with
  | zero s => exact absurd h hpos.ne'
  | infinity | notANumber => exact h.elim
  | finite s m e hm =>
    obtain ⟨hcanonical, hvalue⟩ := h
    obtain rfl : s = .positive := by
      cases s with
      | positive => rfl
      | negative =>
        have : (0 : ℚ) ≤ m * 2 ^ e := mul_nonneg m.cast_nonneg (two_zpow_pos e).le
        rw [hvalue, signed] at hpos
        linarith
    have hplace : (2 : ℚ) ^ (1024 : ℤ) < 2 ^ (53 + e) := by
      rw [zpow_ofNat, zpow_add₀ two_ne_zero]
      refine lt_of_le_of_lt (hle.trans_eq hvalue) ?_
      exact mul_lt_mul_of_pos_right (by exact_mod_cast hcanonical.lt) (two_zpow_pos e)
    have hlarge :
        2 ^ 11 ≤ (e + (Float.Model.Format.exponentBias .binary64 : ℕ) + (52 : ℕ)).toNat + 1 := by
      have := (zpow_lt_zpow_iff_right₀ one_lt_two).1 hplace
      have : Float.Model.Format.exponentBias .binary64 = 1023 := rfl
      omega
    refine eq_signedInfinity (s := .positive) ?_
    have hread : (Float.ofModel (.pack (.finite .positive m e hm))).toModel.unpack =
        UnpackedFloat.unpack .binary64 (UnpackedFloat.pack .binary64 (.finite .positive m e hm)) := rfl
    rw [hread, UnpackedFloat.pack, if_pos hlarge]
    exact unpack_special .positive

/-- A sum of numbers that is at least one stays so, also where it is too large. -/
theorem Denotes.one_le_add (ha : Denotes a p) (hb : Denotes b q) (h : 1 ≤ p + q) : 1 ≤ a + b := by
  have hsum : Is (UnpackedFloat.add .binary64 a.toModel.unpack b.toModel.unpack) (nearest (p + q)) :=
    ha.is.add hb.is
  have hone : 1 ≤ nearest (p + q) := by
    have := nearest_mono h
    rwa [denotes_one.representable.nearest_eq] at this
  rcases lt_or_ge |nearest (p + q)| (2 ^ 1024) with hlt | hge
  · exact (denotes_one.le_iff (ha.add hb hlt)).2 hone
  · rw [abs_of_nonneg (zero_le_one.trans hone)] at hge
    have hinfinite : a + b = infinity := hsum.pack_eq_infinity (zero_lt_one.trans_le hone) hge
    rw [hinfinite]
    exact denotes_one.le_infinity

theorem add_infinity (ha : 0 ≤ a) : a + infinity = infinity ∧ infinity + a = infinity := by
  rcases denotes_zero.eq_infinity_or_denotes ha with rfl | ⟨q, -, hq⟩
  · decide +kernel
  · have hleft : a + infinity = .ofModel (.pack
        (.add .binary64 a.toModel.unpack infinity.toModel.unpack)) := rfl
    have hright : infinity + a = .ofModel (.pack
        (.add .binary64 infinity.toModel.unpack a.toModel.unpack)) := rfl
    have his := hq.is
    rw [hleft, hright, unpack_infinity]
    generalize a.toModel.unpack = u at his
    cases u with
    | infinity | notANumber => exact his.elim
    | zero | finite => exact ⟨rfl, rfl⟩

theorem one_le_add (ha : 1 ≤ a) (hb : 0 ≤ b) : 1 ≤ a + b ∧ 1 ≤ b + a := by
  have htop : 1 ≤ infinity := denotes_one.le_infinity
  rcases denotes_one.eq_infinity_or_denotes ha with rfl | ⟨p, hp, ha⟩
  · rw [(add_infinity hb).1, (add_infinity hb).2]
    exact ⟨htop, htop⟩
  rcases denotes_zero.eq_infinity_or_denotes hb with rfl | ⟨q, hq, hb⟩
  · have hnonneg : 0 ≤ a := (denotes_zero.le_iff ha).2 (zero_le_one.trans hp)
    rw [(add_infinity hnonneg).1, (add_infinity hnonneg).2]
    exact ⟨htop, htop⟩
  · exact ⟨ha.one_le_add hb (by linarith), hb.one_le_add ha (by linarith)⟩

/-- Half of what is at least one is no zero. -/
theorem half_ne_zero (h : 1 ≤ x) : (x / 2 == 0) = false := by
  rcases denotes_one.eq_infinity_or_denotes h with rfl | ⟨q, hq, hx⟩
  · decide +kernel
  · have htwo : Denotes 2 (2 : ℕ) := denotes_ofNat (n := 2) (by norm_num)
    have hhalf : Representable (1 / 2) := ⟨1, -1, by norm_num, by norm_num, by norm_num⟩
    have hlow : 1 / 2 ≤ nearest (q / (2 : ℕ)) := by
      rw [← hhalf.nearest_eq]
      exact nearest_mono (by push_cast; linarith)
    have hhigh : nearest (q / (2 : ℕ)) ≤ q := by
      conv_rhs => rw [← hx.representable.nearest_eq]
      exact nearest_mono (by push_cast; linarith)
    have hlt : |nearest (q / (2 : ℕ))| < 2 ^ 1024 := by
      refine lt_of_le_of_lt ?_ hx.abs_lt
      rw [abs_of_nonneg (by linarith), abs_of_nonneg (by linarith)]
      exact hhigh
    have hquotient := hx.div htwo (by norm_num) hlt
    rw [← Bool.not_eq_true, hquotient.beq_iff denotes_zero]
    linarith

theorem nonneg_or_neg (h : x.isNaN = false) :
    (-x).isNaN = false ∧ (0 ≤ x ∨ 0 ≤ -x) := by
  rcases nan_or_infinity_or_finite x with rfl | ⟨s, rfl⟩ | hfinite
  · cases h
  · cases s with
    | positive => exact ⟨by decide +kernel, .inl (by decide +kernel)⟩
    | negative => exact ⟨by decide +kernel, .inr (by decide +kernel)⟩
  · obtain ⟨q, hq⟩ := isFinite_iff.1 hfinite
    rw [denotes_zero.le_iff hq, denotes_zero.le_iff hq.neg, Left.nonneg_neg_iff]
    exact ⟨hq.neg.isNaN_eq_false, le_total 0 q⟩

end Binary64

/-! ### An exponential with these laws -/

/-- An exponential that is right as far as it goes: one at zero, and elsewhere so coarse that it is zero
below and infinite above. -/
def coarseExp (x : Float) : Float :=
  if x.isNaN then Binary64.nan else if x == 0 then 1 else if x < 0 then 0 else Binary64.infinity

/-- The platform's functions with this exponential. -/
@[reducible] def Elementary.coarse : Elementary := { Elementary.native with exp := coarseExp }

open Binary64 in
theorem Elementary.coarse_documented : @Elementary.Documented Elementary.coarse := by
  let _ := Elementary.coarse
  refine ⟨by decide +kernel, fun x hx => ?_, fun x hx => ?_⟩
  · show 0 ≤ coarseExp x
    rw [coarseExp, hx, if_neg Bool.false_ne_true]
    split
    · decide +kernel
    · split
      · decide +kernel
      · exact denotes_zero.le_infinity
  · show 1 ≤ coarseExp x
    rcases denotes_zero.eq_infinity_or_denotes hx with rfl | ⟨q, hq, hx⟩
    · decide +kernel
    · have hnonneg : ¬x < 0 := by
        rw [hx.lt_iff denotes_zero]
        exact hq.not_gt
      rw [coarseExp, hx.isNaN_eq_false, if_neg Bool.false_ne_true, if_neg hnonneg]
      split
      · decide +kernel
      · exact denotes_one.le_infinity

namespace Arithmetic

open Binary64

theorem half_eq (a : Float) : Checked.quotient a 2 = .ok (a / 2) :=
  Checked.quotient_eq (by decide +kernel) a

variable [Elementary] {x : Float}

/-- Only an overflow is refused by the exponential, and it is handled. -/
theorem exp_eq (x : Float) : exp x = .ok infinity ∨ exp x = .ok (Elementary.exp x) := by
  rw [exp, Checked.exp]
  split
  · exact .inl rfl
  · exact .inr rfl

theorem exp_total (x : Float) : ∃ a, exp x = .ok a :=
  (exp_eq x).elim (fun h => ⟨_, h⟩) fun h => ⟨_, h⟩

theorem sinh_total (x : Float) : ∃ y, sinh x = .ok y := by
  obtain ⟨a, ha⟩ := exp_total x
  obtain ⟨b, hb⟩ := exp_total (-x)
  rw [sinh, ha, hb]
  exact ⟨_, half_eq (a - b)⟩

theorem cosh_eq {a b : Float} (ha : exp x = .ok a) (hb : exp (-x) = .ok b) :
    cosh x = .ok ((a + b) / 2) := by
  rw [cosh, ha, hb]
  exact half_eq (a + b)

theorem cosh_total (x : Float) : ∃ y, cosh x = .ok y := by
  obtain ⟨a, ha⟩ := exp_total x
  obtain ⟨b, hb⟩ := exp_total (-x)
  exact ⟨_, cosh_eq ha hb⟩

section Documented

variable (h : Elementary.Documented)

include h

theorem exp_nonneg (hx : x.isNaN = false) : ∃ a, exp x = .ok a ∧ 0 ≤ a := by
  rcases exp_eq x with he | he
  · exact ⟨_, he, denotes_zero.le_infinity⟩
  · exact ⟨_, he, h.exp_nonneg x hx⟩

theorem one_le_exp (hx : 0 ≤ x) : ∃ a, exp x = .ok a ∧ 1 ≤ a := by
  rcases exp_eq x with he | he
  · exact ⟨_, he, denotes_one.le_infinity⟩
  · exact ⟨_, he, h.one_le_exp x hx⟩

theorem exp_nan : exp nan = .ok nan := by
  rw [exp, Checked.exp, h.exp_nan]
  rfl

/-- The hyperbolic cosine is no zero. -/
theorem cosh_ne_zero (x : Float) : ∃ y, cosh x = .ok y ∧ (y == 0) = false := by
  cases hx : x.isNaN with
  | true =>
    obtain rfl := eq_nan_of_isNaN hx
    exact ⟨_, cosh_eq (exp_nan h) (exp_nan h), by decide +kernel⟩
  | false =>
    obtain ⟨hneg, hpos | hpos⟩ := nonneg_or_neg hx
    · obtain ⟨a, ha, hone⟩ := one_le_exp h hpos
      obtain ⟨b, hb, hzero⟩ := exp_nonneg h hneg
      exact ⟨_, cosh_eq ha hb, half_ne_zero (one_le_add hone hzero).1⟩
    · obtain ⟨a, ha, hzero⟩ := exp_nonneg h hx
      obtain ⟨b, hb, hone⟩ := one_le_exp h hpos
      exact ⟨_, cosh_eq ha hb, half_ne_zero (one_le_add hone hzero).2⟩

theorem tanh_total (x : Float) : ∃ y, tanh x = .ok y := by
  rw [tanh]
  split
  · exact ⟨_, rfl⟩
  · obtain ⟨a, ha⟩ := sinh_total x
    obtain ⟨b, hb, hne⟩ := cosh_ne_zero h x
    rw [ha, hb]
    exact ⟨_, Checked.quotient_eq hne a⟩

end Documented

end Arithmetic
end Reckoner
