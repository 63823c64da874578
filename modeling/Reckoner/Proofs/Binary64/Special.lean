import Mathlib
import Reckoner.Binary64
import Reckoner.Proofs.Binary64.Operations

/-!
Doubles beyond the numbers. A double is told by what it unpacks to; so there is one that is no number,
there are two infinities and two zeros.
-/

namespace Reckoner.Binary64

open Float.Model (Format UnpackedFloat)
open Float.Model.UnpackedFloat (Sign)

variable {x y : Float}

theorem eq_of_unpack_eq (h : x.toModel.unpack = y.toModel.unpack) : x = y := by
  obtain ⟨⟨bits, hvalid⟩⟩ := x
  obtain ⟨⟨bits', hvalid'⟩⟩ := y
  have hpack := UnpackedFloat.pack_unpack_of_valid hvalid
  have hpack' := UnpackedFloat.pack_unpack_of_valid hvalid'
  have hsame : UnpackedFloat.unpack .binary64 bits.toBitVec =
      UnpackedFloat.unpack .binary64 bits'.toBitVec := h
  rw [hsame, hpack'] at hpack
  obtain rfl : bits = bits' := UInt64.toBitVec_inj.1 hpack.symm
  rfl

theorem unpack_nan : nan.toModel.unpack = .notANumber := by rfl

/-- There is one double that is no number. -/
theorem eq_nan_of_isNaN (h : x.isNaN = true) : x = nan := by
  have hx : x.toModel.unpack = .notANumber := UnpackedFloat.isNaN_iff.1 h
  exact eq_of_unpack_eq (hx.trans unpack_nan.symm)

/-- The infinity of a sign. -/
def signedInfinity : Sign → Float
  | .positive => infinity
  | .negative => -infinity

theorem unpack_signedInfinity (s : Sign) : (signedInfinity s).toModel.unpack = .infinity s := by
  cases s <;> rfl

theorem isInf_signedInfinity (s : Sign) : (signedInfinity s).isInf = true := by
  have hread : (signedInfinity s).isInf = (signedInfinity s).toModel.unpack.isInf := rfl
  rw [hread, unpack_signedInfinity]
  rfl

theorem eq_signedInfinity {s : Sign} (h : x.toModel.unpack = .infinity s) : x = signedInfinity s :=
  eq_of_unpack_eq (h.trans (unpack_signedInfinity s).symm)

theorem nan_or_infinity_or_finite (x : Float) :
    x = nan ∨ (∃ s, x = signedInfinity s) ∨ x.isFinite = true := by
  have hfinite : x.isFinite = x.toModel.unpack.isFinite := rfl
  rw [hfinite]
  cases hx : x.toModel.unpack with
  | notANumber => exact .inl (eq_of_unpack_eq (hx.trans unpack_nan.symm))
  | infinity s => exact .inr (.inl ⟨s, eq_signedInfinity hx⟩)
  | zero | finite => exact .inr (.inr rfl)

/-- Digits of doubles are told by their value. -/
theorem Canonical.eq_of_value_eq {m n : ℕ} {e f : ℤ} (hme : Canonical m e) (hnf : Canonical n f)
    (h : (m * 2 ^ e : ℚ) = n * 2 ^ f) : m = n ∧ e = f := by
  have hcompare := hme.compare_eq hnf
  rw [h, compare_eq_iff_eq.2 rfl] at hcompare
  obtain ⟨he, hm⟩ := Ordering.then_eq_eq.1 hcompare.symm
  exact ⟨compare_eq_iff_eq.1 hm, compare_eq_iff_eq.1 he⟩

theorem Is.eq_of_ne_zero {u v : UnpackedFloat} {q : ℚ} (hu : Is u q) (hv : Is v q) (hq : q ≠ 0) :
    u = v := by
  cases u with
  | infinity | notANumber => exact hu.elim
  | zero s => exact absurd hu hq
  | finite s m e hm =>
    cases v with
    | infinity | notANumber => exact hv.elim
    | zero t => exact absurd hv hq
    | finite t n f hn =>
      have hm' : (0 : ℚ) < m * 2 ^ e := mul_pos (by exact_mod_cast hm) (two_zpow_pos e)
      have hn' : (0 : ℚ) < n * 2 ^ f := mul_pos (by exact_mod_cast hn) (two_zpow_pos f)
      have hvalue := hu.2.symm.trans hv.2
      have hsize : (m * 2 ^ e : ℚ) = n * 2 ^ f := by
        have habs : |signed s (m * 2 ^ e)| = |signed t (n * 2 ^ f)| := by rw [hvalue]
        rwa [abs_signed, abs_signed, abs_of_pos hm', abs_of_pos hn'] at habs
      obtain ⟨rfl, rfl⟩ := hu.1.eq_of_value_eq hv.1 hsize
      cases s <;> cases t
      · rfl
      · exact absurd hvalue (by simp only [signed]; linarith)
      · exact absurd hvalue (by simp only [signed]; linarith)
      · rfl

/-- A double other than a zero is told by its value. -/
theorem Denotes.eq_of_ne_zero {q : ℚ} (hx : Denotes x q) (hy : Denotes y q) (hq : q ≠ 0) : x = y :=
  eq_of_unpack_eq (hx.is.eq_of_ne_zero hy.is hq)

/-- Of the zeros one has a sign. -/
theorem beq_zero_iff : (x == 0) = true ↔ ∃ s, x.toModel.unpack = .zero s := by
  have hzero : (0 : Float).toModel.unpack = .zero .positive := by rfl
  have hbeq : (x == 0) = (x.toModel.unpack.compare (0 : Float).toModel.unpack == some .eq) := rfl
  rw [hbeq, hzero]
  cases x.toModel.unpack with
  | infinity s => cases s <;> simp [UnpackedFloat.compare]
  | notANumber => simp [UnpackedFloat.compare]
  | zero s => simp [UnpackedFloat.compare]
  | finite s m e hm => cases s <;> simp [UnpackedFloat.compare]

theorem beq_zero_eq_false_of_neg (h : x < 0) : (x == 0) = false := by
  have hlt : (x.toModel.unpack.compare (0 : Float).toModel.unpack == some .lt) = true :=
    of_decide_eq_true h
  have hbeq : (x == 0) = (x.toModel.unpack.compare (0 : Float).toModel.unpack == some .eq) := rfl
  rw [hbeq, beq_iff_eq.1 hlt]
  rfl

theorem beq_zero_eq_false_of_pos (h : 0 < x) : (x == 0) = false := by
  have hlt : ((0 : Float).toModel.unpack.compare x.toModel.unpack == some .lt) = true :=
    of_decide_eq_true h
  have hzero : (0 : Float).toModel.unpack = .zero .positive := by rfl
  rw [← Bool.not_eq_true, beq_zero_iff]
  rintro ⟨s, hs⟩
  rw [hzero, hs] at hlt
  cases hlt

theorem not_pos_of_neg (h : x < 0) : ¬0 < x := by
  intro hpos
  have hlt : (x.toModel.unpack.compare (0 : Float).toModel.unpack == some .lt) = true :=
    of_decide_eq_true h
  have hgt : ((0 : Float).toModel.unpack.compare x.toModel.unpack == some .lt) = true :=
    of_decide_eq_true hpos
  have hzero : (0 : Float).toModel.unpack = .zero .positive := by rfl
  rw [hzero] at hlt hgt
  generalize x.toModel.unpack = u at hlt hgt
  cases u with
  | notANumber | zero => cases hlt
  | infinity s | finite s =>
    cases s
    · cases hgt
    · cases hlt

theorem denotes_of_beq_zero (h : (x == 0) = true) : Denotes x 0 := by
  obtain ⟨s, hs⟩ := beq_zero_iff.1 h
  exact ⟨by rw [hs]; exact rfl⟩

theorem Denotes.isInf_eq_false {q : ℚ} (h : Denotes x q) : x.isInf = false := by
  have hread : x.isInf = x.toModel.unpack.isInf := rfl
  have h := h.is
  rw [hread]
  generalize x.toModel.unpack = u at h ⊢
  cases u with
  | zero | finite | notANumber => rfl
  | infinity => exact h.elim

theorem isNaN_eq_false_of_isInf (h : x.isInf = true) : x.isNaN = false := by
  have hread : x.isInf = x.toModel.unpack.isInf := rfl
  have hread' : x.isNaN = x.toModel.unpack.isNaN := rfl
  rw [hread] at h
  rw [hread']
  generalize x.toModel.unpack = u at h ⊢
  cases u with
  | infinity => rfl
  | notANumber | zero | finite => cases h

theorem beq_zero_eq_false (h : ∀ s, x.toModel.unpack ≠ .zero s) : (x == 0) = false := by
  rw [← Bool.not_eq_true, beq_zero_iff]
  rintro ⟨s, hs⟩
  exact h s hs

/-- The sign of what is a number or an infinity. -/
inductive HasSign : UnpackedFloat → Sign → Prop
  | zero (s : Sign) : HasSign (.zero s) s
  | infinity (s : Sign) : HasSign (.infinity s) s
  | finite (s : Sign) (m : ℕ) (e : ℤ) (hm : 0 < m) : HasSign (.finite s m e hm) s

theorem HasSign.isNegative {s : Sign} (h : HasSign x.toModel.unpack s) :
    isNegative x = (s == .negative) := by
  rw [Binary64.isNegative]
  generalize x.toModel.unpack = u at h ⊢
  cases h <;> cases s <;> rfl

theorem exists_hasSign (h : x.isNaN = false) : ∃ s, HasSign x.toModel.unpack s := by
  have hread : x.isNaN = x.toModel.unpack.isNaN := rfl
  rw [hread] at h
  generalize x.toModel.unpack = u at h ⊢
  cases u with
  | notANumber => cases h
  | zero s => exact ⟨s, .zero s⟩
  | infinity s => exact ⟨s, .infinity s⟩
  | finite s m e hm => exact ⟨s, .finite s m e hm⟩

/-! ### Signs of what is packed -/

theorem hasSign_round (s : Sign) (m : ℕ) (e : ℤ) : HasSign (UnpackedFloat.round .binary64 s m e) s := by
  rw [UnpackedFloat.round]
  dsimp only
  rw [UnpackedFloat.roundWithAccuracy]
  dsimp only
  split
  · exact .zero s
  · exact .finite s _ _ _

theorem unpack_components_ne_infinity (s t : Sign) {E : BitVec 11} (M : BitVec 52) (h : E ≠ -1#11) :
    UnpackedFloat.unpack .binary64 (UnpackedFloat.packComponents .binary64 s E M) ≠ .infinity t := by
  simp only [UnpackedFloat.unpack, UnpackedFloat.unpackExponent_packComponents, h, if_false]
  split
  · split <;> simp
  · simp

/-- Digits are packed as an infinity only beyond the largest exponent. -/
theorem unpack_pack_ne_infinity (s t : Sign) {m : ℕ} {e : ℤ} (hm : 0 < m)
    (h : ¬2 ^ 11 ≤ (e + 1075).toNat + 1) :
    UnpackedFloat.unpack .binary64 (UnpackedFloat.pack .binary64 (.finite s m e hm)) ≠
      .infinity t := by
  have hbiased : (e + (Format.exponentBias .binary64 : ℕ) + (52 : ℕ)).toNat = (e + 1075).toNat := by
    congr 1
    have : Format.exponentBias .binary64 = 1023 := rfl
    omega
  have hexponent : BitVec.ofNat 11 (e + 1075).toNat ≠ -1#11 := fun heq => by
    have hnat := congrArg BitVec.toNat heq
    rw [BitVec.toNat_ofNat] at hnat
    have : (-1#11).toNat = 2047 := rfl
    omega
  simp only [UnpackedFloat.pack, hbiased]
  rw [if_neg h]
  split
  · exact unpack_components_ne_infinity s t _ hexponent
  · exact unpack_components_ne_infinity s t _ (by decide)

/-- What is packed as an infinity keeps its sign. -/
theorem eq_signedInfinity_of_pack {u : UnpackedFloat} {s : Sign} (hs : HasSign u s)
    (hinf : (Float.ofModel (.pack u)).isInf = true) : Float.ofModel (.pack u) = signedInfinity s := by
  cases hs with
  | zero s => cases s <;> cases hinf
  | infinity s => cases s <;> rfl
  | finite s m e hm =>
    refine eq_signedInfinity ?_
    have hread : (Float.ofModel (.pack (.finite s m e hm))).toModel.unpack =
        UnpackedFloat.unpack .binary64 (UnpackedFloat.pack .binary64 (.finite s m e hm)) := rfl
    replace hinf : (Float.ofModel (.pack (.finite s m e hm))).toModel.unpack.isInf = true := hinf
    rw [hread] at hinf ⊢
    by_cases hbig : 2 ^ 11 ≤ (e + 1075).toNat + 1
    · have hbig' : 2 ^ 11 ≤ (e + (Format.exponentBias .binary64 : ℕ) + (52 : ℕ)).toNat + 1 := by
        have : Format.exponentBias .binary64 = 1023 := rfl
        omega
      rw [UnpackedFloat.pack, if_pos hbig']
      exact unpack_special s
    · have hnone := fun t => unpack_pack_ne_infinity s t hm hbig
      generalize UnpackedFloat.unpack .binary64 (UnpackedFloat.pack .binary64 (.finite s m e hm)) = u
        at hinf hnone
      cases u with
      | infinity t => exact absurd rfl (hnone t)
      | notANumber | zero | finite => cases hinf

end Reckoner.Binary64
