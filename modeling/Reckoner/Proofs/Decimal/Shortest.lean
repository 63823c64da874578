import Mathlib
import Reckoner.Proofs.Decimal.Rounding

/-!
The shortest decimal of a double rounds to that double. A point of the grid is only taken where it does,
and seventeen digits are so close to each other that one of them does.
-/

namespace Reckoner.Decimal

open Binary64 (two_zpow_pos reach reach_ge Canonical)

variable {n d : ℕ} {m : ℕ} {e : ℤ}

def value (d : Decimal) : ℚ := d.coefficient * 10 ^ d.exponent

theorem ten_zpow_pos (k : ℤ) : (0 : ℚ) < 10 ^ k := zpow_pos (by norm_num) k

/-- Zeros at the end are made up for by the power of ten. -/
theorem value_trim (d : Decimal) : d.trim.value = d.value := by
  fun_induction trim d with
  | case1 d h ih =>
    have hc : (d.coefficient : ℚ) = (d.coefficient / 10 : ℕ) * 10 := by
      exact_mod_cast (Nat.div_mul_cancel (Nat.dvd_of_mod_eq_zero h.2)).symm
    rw [ih, value, value, hc, mul_assoc, ← zpow_one_add₀ (by norm_num), add_comm]
  | case2 => rfl

/-! ### The size of a quotient -/

theorem pow_length_le (hn : 0 < n) : 10 ^ ((Nat.toDigits 10 n).length - 1) ≤ n := by
  rcases Nat.eq_zero_or_pos ((Nat.toDigits 10 n).length - 1) with hzero | hpos
  · rw [hzero, pow_zero]
    exact hn
  · rw [← not_lt, ← Nat.length_toDigits_le_iff (by decide) hpos]
    omega

theorem lt_pow_length (n : ℕ) : n < 10 ^ (Nat.toDigits 10 n).length :=
  (Nat.length_toDigits_le_iff (by decide) Nat.length_toDigits_pos).1 le_rfl

theorem lt_tens_iff (hd : 0 < d) (k : ℤ) : n * tens (-k) < d * tens k ↔ (n / d : ℚ) < 10 ^ k := by
  have hk : (0 : ℚ) < tens (-k) := by exact_mod_cast tens_pos (-k)
  have hd' : (0 : ℚ) < d := by exact_mod_cast hd
  rw [div_lt_iff₀ hd', ← mul_lt_mul_iff_of_pos_right hk, mul_right_comm, ← tens_eq, mul_comm (tens k : ℚ)]
  exact_mod_cast Iff.rfl

theorem zpow_magnitude_le (hn : 0 < n) (hd : 0 < d) : (10 : ℚ) ^ (magnitude n d - 1) ≤ n / d := by
  unfold magnitude
  dsimp only
  have hd' : (0 : ℚ) < d := by exact_mod_cast hd
  split
  · rw [le_div_iff₀ hd']
    have hlow : (10 : ℚ) ^ ((Nat.toDigits 10 n).length - 1) ≤ n := by exact_mod_cast pow_length_le hn
    have hhigh : (d : ℚ) ≤ 10 ^ ((Nat.toDigits 10 d).length : ℤ) := by
      exact_mod_cast (lt_pow_length d).le
    have hlength : 0 < (Nat.toDigits 10 n).length := Nat.length_toDigits_pos
    calc (10 : ℚ) ^ (((Nat.toDigits 10 n).length : ℤ) - (Nat.toDigits 10 d).length - 1) * d
        ≤ 10 ^ (((Nat.toDigits 10 n).length : ℤ) - (Nat.toDigits 10 d).length - 1) *
            10 ^ ((Nat.toDigits 10 d).length : ℤ) :=
          mul_le_mul_of_nonneg_left hhigh (ten_zpow_pos _).le
      _ = 10 ^ ((Nat.toDigits 10 n).length - 1) := by
          rw [← zpow_add₀ (by norm_num), ← zpow_natCast]
          congr 1
          omega
      _ ≤ n := hlow
  case isFalse h =>
    rw [lt_tens_iff hd] at h
    rw [add_sub_cancel_right]
    exact not_lt.1 h

/-! ### The grid about a double -/

namespace Rounding

variable {r : Rounding} {k : ℤ}

theorem floor_mul_le (hr : 0 < r.denominator) (k : ℤ) :
    (r.floor k * 10 ^ k : ℚ) ≤ r.value / r.denominator := by
  have hr' : (0 : ℚ) < r.denominator := by exact_mod_cast hr
  have hk : (0 : ℚ) < tens (-k) := by exact_mod_cast tens_pos (-k)
  have hle : ((r.floor k * (r.denominator * tens k) : ℕ) : ℚ) ≤ (r.value * tens (-k) : ℕ) := by
    exact_mod_cast Nat.div_mul_le_self ..
  push_cast at hle
  rw [tens_eq k] at hle
  rw [le_div_iff₀ hr', ← mul_le_mul_iff_of_pos_right hk]
  linarith

theorem lt_floor_succ_mul (hr : 0 < r.denominator) (k : ℤ) :
    (r.value / r.denominator : ℚ) < (r.floor k + 1 : ℕ) * 10 ^ k := by
  have hr' : (0 : ℚ) < r.denominator := by exact_mod_cast hr
  have hk : (0 : ℚ) < tens (-k) := by exact_mod_cast tens_pos (-k)
  have hlt : ((r.value * tens (-k) : ℕ) : ℚ) < (r.denominator * tens k * (r.floor k + 1) : ℕ) := by
    exact_mod_cast Nat.lt_mul_div_succ _ (Nat.mul_pos hr (tens_pos k))
  push_cast at hlt
  rw [tens_eq k] at hlt
  rw [div_lt_iff₀ hr', ← mul_lt_mul_iff_of_pos_right hk]
  push_cast
  linarith

/-- Only a point that rounds to the double is taken. -/
theorem holds_of_nearest? {d : Decimal} (hr : 0 < r.denominator) (h : r.nearest? k = some d) :
    r.Holds d.value := by
  unfold nearest? at h
  dsimp only at h
  have htaken {c : ℕ} (hc : r.contains c k = true) (hd : (⟨c, k⟩ : Decimal) = d) : r.Holds d.value := by
    subst hd
    exact (contains_iff hr c k).1 hc
  split at h
  case h_1 => cases h
  case h_2 hlow _ => exact htaken hlow (Option.some.inj h)
  case h_3 _ hhigh => exact htaken hhigh (Option.some.inj h)
  case h_4 hlow hhigh =>
    split at h
    · exact htaken hlow (Option.some.inj h)
    · exact htaken hhigh (Option.some.inj h)
    · rcases Nat.mod_two_eq_zero_or_one (r.floor k) with hmod | hmod <;> rw [hmod] at h
      · exact htaken hlow (Option.some.inj h)
      · exact htaken hhigh (Option.some.inj h)

theorem exists_of_contains (h : r.contains (r.floor k) k = true ∨ r.contains (r.floor k + 1) k = true) :
    ∃ d, r.nearest? k = some d := by
  unfold nearest?
  dsimp only
  split
  case h_1 hlow hhigh => rw [hlow, hhigh] at h; simp at h
  case h_2 => exact ⟨_, rfl⟩
  case h_3 => exact ⟨_, rfl⟩
  case h_4 => split <;> exact ⟨_, rfl⟩

/-- Inside of the ends all reals round to the double. -/
theorem holds_of_lt {q : ℚ} (hm : 0 < m) (hlow : (m - reach m e) * 2 ^ e < q)
    (hhigh : q < (m + 1 / 2) * 2 ^ e) : (ofScaled m e).Holds q := by
  unfold Holds
  rw [low_div hm, high_div]
  split
  · exact ⟨hlow.le, hhigh.le⟩
  · exact ⟨hlow, hhigh⟩

/-- A grid with less than its `2 ^ 53`th part between two points has a point that rounds to a double. -/
theorem exists_nearest? (hc : Canonical m e) (hm : 0 < m) (hk : (10 : ℚ) ^ k * 10 ^ 16 ≤ m * 2 ^ e) :
    ∃ d, (ofScaled m e).nearest? k = some d := by
  have hpos := two_zpow_pos e
  have hr := denominator_pos m e
  have hfloor := floor_mul_le hr k
  have hnext := lt_floor_succ_mul hr k
  rw [value_div] at hfloor hnext
  push_cast at hnext
  -- the two points about the double are closer to each other than the ends
  have hstep : (10 : ℚ) ^ k < (1 / 2 + reach m e) * 2 ^ e := by
    have hwide : (m : ℚ) < (1 / 2 + reach m e) * 10 ^ 16 := by
      unfold reach
      split
      case isTrue h =>
        rw [h.1]
        norm_num
      case isFalse =>
        have hlt : (m : ℚ) < 2 ^ 53 := by exact_mod_cast hc.lt
        linarith
    have hlt := mul_lt_mul_of_pos_right hwide hpos
    linarith
  refine exists_of_contains ?_
  rw [contains_iff hr, contains_iff hr]
  by_cases hhigh : ((ofScaled m e).floor k + 1 : ℚ) * 10 ^ k < (m + 1 / 2) * 2 ^ e
  · refine .inr (holds_of_lt hm ?_ (by exact_mod_cast hhigh))
    push_cast
    exact lt_trans (mul_lt_mul_of_pos_right (by linarith [reach_ge m e]) hpos) hnext
  · refine .inl (holds_of_lt hm ?_ ?_)
    · linarith
    · exact lt_of_le_of_lt hfloor (mul_lt_mul_of_pos_right (by linarith) hpos)

end Rounding

/-! ### The decimal that is found -/

theorem holds_shortest (hc : Canonical m e) (hm : 0 < m) :
    (Rounding.ofScaled m e).Holds (shortest m e).value := by
  have hr := Rounding.denominator_pos m e
  have hpos : (0 : ℚ) < m * 2 ^ e := mul_pos (by exact_mod_cast hm) (two_zpow_pos e)
  unfold shortest
  dsimp only
  rw [value_trim]
  generalize hsize : magnitude (Rounding.ofScaled m e).value (Rounding.ofScaled m e).denominator = k
  cases hfound : (List.range 17).findSome? fun (i : Nat) =>
      (Rounding.ofScaled m e).nearest? (k - 1 - i) with
  | some d =>
    obtain ⟨i, -, hi⟩ := List.exists_of_findSome?_eq_some hfound
    exact Rounding.holds_of_nearest? hr hi
  | none =>
    have hvalue : 0 < (Rounding.ofScaled m e).value := by
      have hdiv := Rounding.value_div m e
      rw [← hdiv] at hpos
      exact_mod_cast (div_pos_iff_of_pos_right (by exact_mod_cast hr)).1 hpos
    have hmagnitude := zpow_magnitude_le hvalue hr
    rw [hsize, Rounding.value_div] at hmagnitude
    obtain ⟨d, hd⟩ := Rounding.exists_nearest? (k := k - 1 - 16) hc hm <| by
      calc (10 : ℚ) ^ (k - 1 - 16) * 10 ^ 16 = 10 ^ (k - 1) := by
            rw [← zpow_natCast, ← zpow_add₀ (by norm_num)]
            congr 1
            push_cast
            ring
        _ ≤ m * 2 ^ e := hmagnitude
    have hnone := List.findSome?_eq_none_iff.1 hfound 16 (by simp)
    rw [Nat.cast_ofNat, hd] at hnone
    cases hnone

/-- The shortest decimal of a double is nearest to that double. -/
theorem nearest_value_shortest (hc : Canonical m e) (hm : 0 < m) :
    Binary64.nearest (shortest m e).value = m * 2 ^ e :=
  (holds_shortest hc hm).nearest_eq hc hm

end Reckoner.Decimal
