import Mathlib
import Reckoner.Proofs.Binary64.Rounding

/-!
The value of a double. Digits and their place are packed into the bits and read out of them
unchanged, as long as the number is below `2 ^ 1024`; a larger one is packed as an infinity.
-/

namespace Reckoner.Binary64

open Float.Model (Format UnpackedFloat)
open Float.Model.UnpackedFloat

/-! ### Digits in and out of the bits -/

theorem unpack_special (s : Sign) : unpack .binary64 (packedInfinity .binary64 s) = .infinity s := by
  simp [UnpackedFloat.unpack, packedInfinity]

theorem unpack_normal (s : Sign) {E : ℕ} (m : ℕ) (hpos : 0 < E) (hlt : E < 2047) :
    unpack .binary64 (packComponents .binary64 s (BitVec.ofNat 11 E) (BitVec.ofNat 52 m)) =
      .finite s (2 ^ 52 + m % 2 ^ 52) (E - 1075) (by omega) := by
  have hE : (BitVec.ofNat 11 E).toNat = E := by
    rw [BitVec.toNat_ofNat]
    omega
  have htop : BitVec.ofNat 11 E ≠ -1#11 := fun h => by
    have := congrArg BitVec.toNat h
    rw [hE] at this
    have : (-1#11).toNat = 2047 := rfl
    omega
  have hzero : BitVec.ofNat 11 E ≠ 0#11 := fun h => by
    have := congrArg BitVec.toNat h
    rw [hE] at this
    have : (0#11).toNat = 0 := rfl
    omega
  have hm : (1#1 ++ BitVec.ofNat 52 m).toNat = 2 ^ 52 + m % 2 ^ 52 := by
    rw [BitVec.toNat_append, ← Nat.shiftLeft_add_eq_or_of_lt (BitVec.isLt _), BitVec.toNat_ofNat]
    rfl
  simp only [UnpackedFloat.unpack, unpackExponent_packComponents, unpackMantissa_packComponents,
    unpackSign_packComponents, Sign.ofBitVec_toBitVec, htop, hzero, if_false, hm, hE]
  rfl

theorem unpack_subnormal (s : Sign) {m : ℕ} (hpos : 0 < m) (hlt : m < 2 ^ 52) :
    unpack .binary64 (packComponents .binary64 s 0#11 (BitVec.ofNat 52 m)) =
      .finite s m (-1074) hpos := by
  have hm : (BitVec.ofNat 52 m).toNat = m := by
    rw [BitVec.toNat_ofNat]
    exact Nat.mod_eq_of_lt hlt
  have hne : BitVec.ofNat 52 m ≠ 0#52 := fun h => by
    have := congrArg BitVec.toNat h
    rw [hm] at this
    exact hpos.ne' this
  have htop : 0#11 ≠ -1#11 := by decide
  simp only [UnpackedFloat.unpack, unpackExponent_packComponents, unpackMantissa_packComponents,
    unpackSign_packComponents, Sign.ofBitVec_toBitVec, htop, hne, if_false, if_true, hm, dite_false]
  rfl

theorem unpack_pack_finite {m : ℕ} {e : ℤ} (s : Sign) (hm : 0 < m) (h : Canonical m e)
    (he : e ≤ 971) :
    UnpackedFloat.unpack .binary64 (UnpackedFloat.pack .binary64 (.finite s m e hm)) =
      .finite s m e hm := by
  obtain ⟨hlt, hlow, hfull⟩ := h
  have hbiased : (e + (Format.exponentBias .binary64 : ℕ) + (52 : ℕ)).toNat = (e + 1075).toNat := by
    congr 1
    have : Format.exponentBias .binary64 = 1023 := rfl
    omega
  simp only [UnpackedFloat.pack, hbiased]
  rw [if_neg (by show ¬2 ^ 11 ≤ _; omega)]
  rcases lt_or_ge m (2 ^ 52) with hfew | hmany
  · have hlog : ¬m.log2 + 1 = Format.mantissaBits .binary64 := by
      have : m.log2 < 52 := (Nat.log2_lt hm.ne').2 hfew
      show ¬m.log2 + 1 = 1 + 52
      omega
    obtain rfl : e = -1074 := by omega
    rw [if_neg hlog]
    exact unpack_subnormal s hm hfew
  · have hlog : m.log2 + 1 = Format.mantissaBits .binary64 := by
      have hlog : m.log2 < 53 := (Nat.log2_lt hm.ne').2 hlt
      have hlog' : 52 ≤ m.log2 := (Nat.le_log2 hm.ne').2 hmany
      show m.log2 + 1 = 1 + 52
      omega
    rw [if_pos hlog]
    refine (unpack_normal s m (by omega) (by omega)).trans ?_
    congr 1
    · omega
    · omega

/-- What the bits of a number hold. -/
theorem canonical_of_unpack {b : BitVec 64} {s : Sign} {m : ℕ} {e : ℤ} {hm : 0 < m}
    (h : UnpackedFloat.unpack .binary64 b = .finite s m e hm) : Canonical m e ∧ e ≤ 971 := by
  rw [← @packComponents_unpackSign_unpackExponent_unpackMantissa Format.binary64 b] at h
  generalize Sign.ofBitVec (@unpackSign Format.binary64 b) = s' at h
  obtain ⟨E, hE⟩ : ∃ E : BitVec 11, @unpackExponent Format.binary64 b = E := ⟨_, rfl⟩
  obtain ⟨M, hM⟩ : ∃ M : BitVec 52, @unpackMantissa Format.binary64 b = M := ⟨_, rfl⟩
  rw [hE, hM] at h
  have hMlt := M.isLt
  have hElt := E.isLt
  by_cases htop : E = -1#11
  · simp [UnpackedFloat.unpack, htop] at h
    split at h <;> cases h
  by_cases hzero : E = 0#11
  · subst hzero
    by_cases hM0 : M = 0#52
    · simp [UnpackedFloat.unpack, hM0] at h
    · have hpos : 0 < M.toNat := Nat.pos_of_ne_zero fun h0 => hM0 (BitVec.eq_of_toNat_eq h0)
      have hread := unpack_subnormal s' hpos hMlt
      rw [BitVec.ofNat_toNat, BitVec.setWidth_eq] at hread
      cases hread.symm.trans h
      exact ⟨⟨by omega, le_rfl, .inr rfl⟩, by omega⟩
  · have hpos : 0 < E.toNat := Nat.pos_of_ne_zero fun h0 => hzero (BitVec.eq_of_toNat_eq h0)
    have hlt : E.toNat < 2047 := by
      have : E.toNat ≠ 2047 := fun h0 => htop (BitVec.eq_of_toNat_eq h0)
      omega
    have hread := unpack_normal s' M.toNat hpos hlt
    rw [BitVec.ofNat_toNat, BitVec.setWidth_eq, BitVec.ofNat_toNat, BitVec.setWidth_eq] at hread
    cases hread.symm.trans h
    exact ⟨⟨by omega, by omega, .inl (by omega)⟩, by omega⟩

/-! ### The rational a double stands for -/

/-- Whether a double is finite and has a rational as its value. -/
structure Denotes (x : Float) (q : ℚ) : Prop where
  is : Is x.toModel.unpack q

section Is

variable {u : UnpackedFloat} {p q : ℚ}

theorem Is.unique (hp : Is u p) (hq : Is u q) : p = q := by
  cases u with
  | zero => exact hp.trans hq.symm
  | finite => exact hp.2.trans hq.2.symm
  | infinity | notANumber => exact hp.elim

theorem representable_signed (s : Sign) {m : ℕ} {e : ℤ} (hm : m < 2 ^ 53) (he : -1074 ≤ e) :
    Representable (signed s (m * 2 ^ e)) := by
  refine ⟨s.apply m, e, ?_, he, ?_⟩
  · cases s <;> simp [Sign.apply] <;> exact_mod_cast hm
  · cases s <;> simp [Sign.apply, signed]

theorem Is.representable (h : Is u q) : Representable q := by
  cases u with
  | zero => exact ⟨0, 0, by norm_num, by norm_num, by rw [show q = 0 from h]; simp⟩
  | finite s m e hm =>
    rw [h.2]
    exact representable_signed s h.1.lt h.1.lowest
  | infinity | notANumber => exact h.elim

/-- Packing keeps what is below the largest doubles. -/
theorem Is.unpack_pack (h : Is u q) (hlt : |q| < 2 ^ 1024) :
    UnpackedFloat.unpack .binary64 (UnpackedFloat.pack .binary64 u) = u := by
  cases u with
  | zero s => exact unpack_packedZero
  | finite s m e hm =>
    obtain ⟨hcanonical, rfl⟩ := h
    refine unpack_pack_finite s hm hcanonical ?_
    rcases hcanonical.full with hfull | rfl
    · have hpos := two_zpow_pos e
      have hsize : (2 : ℚ) ^ (52 + e) < 2 ^ (1024 : ℤ) := by
        rw [abs_signed, abs_of_nonneg (by positivity)] at hlt
        refine lt_of_le_of_lt ?_ (by exact_mod_cast hlt)
        rw [zpow_add₀ two_ne_zero]
        exact mul_le_mul_of_nonneg_right (by exact_mod_cast hfull) hpos.le
      have := (zpow_lt_zpow_iff_right₀ one_lt_two).1 hsize
      omega
    · omega
  | infinity | notANumber => exact h.elim

end Is

section Denotes

variable {x : Float} {u : UnpackedFloat} {p q : ℚ}

theorem Denotes.unique (hp : Denotes x p) (hq : Denotes x q) : p = q := hp.is.unique hq.is

theorem Denotes.representable (h : Denotes x q) : Representable q := h.is.representable

theorem Is.denotes (h : Is u q) (hlt : |q| < 2 ^ 1024) : Denotes (.ofModel (.pack u)) q := by
  have hunpack : (Float.ofModel (.pack u)).toModel.unpack = u := h.unpack_pack hlt
  exact ⟨hunpack.symm ▸ h⟩

theorem Denotes.abs_lt (h : Denotes x q) : |q| < 2 ^ 1024 := by
  have h := h.is
  cases hu : x.toModel.unpack with
  | zero s =>
    rw [hu] at h
    rw [show q = 0 from h]
    norm_num
  | finite s m e hm =>
    rw [hu] at h
    obtain ⟨⟨hlt, -, -⟩, rfl⟩ := h
    have hpos := two_zpow_pos e
    rw [abs_signed, abs_of_nonneg (by positivity)]
    calc (m * 2 ^ e : ℚ) < 2 ^ 53 * 2 ^ e := mul_lt_mul_of_pos_right (by exact_mod_cast hlt) hpos
      _ ≤ 2 ^ 53 * 2 ^ (971 : ℤ) :=
        mul_le_mul_of_nonneg_left (two_zpow_le (canonical_of_unpack hu).2) (by norm_num)
      _ = 2 ^ 1024 := by rw [zpow_ofNat, ← pow_add]
  | infinity | notANumber =>
    rw [hu] at h
    exact h.elim

/-- The finite doubles are those that stand for a rational. -/
theorem isFinite_iff : x.isFinite = true ↔ ∃ q, Denotes x q := by
  have hfinite : x.isFinite = x.toModel.unpack.isFinite := rfl
  have hdenotes : (∃ q, Denotes x q) ↔ ∃ q, Is x.toModel.unpack q :=
    exists_congr fun q => ⟨fun h => h.is, fun h => ⟨h⟩⟩
  rw [hfinite, hdenotes]
  cases hu : x.toModel.unpack with
  | zero s => exact iff_of_true rfl ⟨0, rfl⟩
  | finite s m e hm => exact iff_of_true rfl ⟨_, (canonical_of_unpack hu).1, rfl⟩
  | infinity | notANumber => exact iff_of_false Bool.false_ne_true fun ⟨_, h⟩ => h

end Denotes
end Reckoner.Binary64
