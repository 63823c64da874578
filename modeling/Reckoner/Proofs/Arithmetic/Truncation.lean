import Mathlib
import Reckoner.Proofs.Arithmetic.Factorial
import Reckoner.Proofs.Grammar.Grouping
import Reckoner.Proofs.Relevance

/-!
Factorials of doubles that are no integers. From zero on the factorial is that of the integer part,
it never falls, and it is infinite from 171 on. What is negative has none, also where it is so close
to zero that its integer part would have one.
-/

namespace Reckoner

namespace Arithmetic

open Binary64

variable {x y : Float} {q : ℚ}

theorem roundedFactorial_eq_nearest (n : ℕ) : nearest (roundedFactorial n) = roundedFactorial n := by
  cases n with
  | zero => exact nearest_one
  | succ n => exact (nearest_representable _).nearest_eq

/-- A rounded product falls at no step, since what came before is rounded already. -/
theorem roundedFactorial_mono : Monotone roundedFactorial := by
  refine monotone_nat_of_le_succ fun n => ?_
  have hstep : roundedFactorial n ≤ roundedFactorial n * (n + 1 : ℕ) := by
    refine le_mul_of_one_le_right (zero_le_one.trans (one_le_roundedFactorial n)) ?_
    exact_mod_cast Nat.succ_pos n
  calc roundedFactorial n = nearest (roundedFactorial n) := (roundedFactorial_eq_nearest n).symm
    _ ≤ nearest (roundedFactorial n * (n + 1 : ℕ)) := nearest_mono hstep

theorem denotes_neg_one : Denotes (-1) (-1) := denotes_one.neg

theorem factorial_truncated_of_nonneg (h : 0 ≤ x) : factorial x = factorial (truncated x) := by
  rcases denotes_zero.eq_infinity_or_denotes h with rfl | ⟨q, hq, hx⟩
  · rw [truncated_infinity]
  · rw [factorial_eq_floor hx hq, factorial_eq (hx.truncated_floor hq)]

/-- The integer part of what is at most minus one is negative. -/
theorem truncated_neg (h : x ≤ -1) : x < 0 ∧ truncated x < 0 := by
  rcases denotes_neg_one.eq_neg_infinity_or_denotes h with rfl | ⟨q, hq, hx⟩
  · rw [truncated_neg_infinity]
    decide +kernel
  · have hceil : towardZero q < 0 := by
      rw [towardZero_of_neg (by linarith)]
      have : ⌈q⌉ ≤ -1 := Int.ceil_le.2 (by exact_mod_cast hq)
      omega
    rw [hx.lt_iff denotes_zero, hx.truncated.lt_iff denotes_zero]
    exact ⟨by linarith, by exact_mod_cast hceil⟩

/-- The factorial of a larger double is no smaller. -/
theorem factorial_mono (hx : 0 ≤ x) (h : x ≤ y) :
    ∃ a b, factorial x = .ok a ∧ factorial y = .ok b ∧ a ≤ b := by
  have htop : Binary64.infinity ≤ Binary64.infinity := infinity_le_iff.2 rfl
  rcases denotes_zero.eq_infinity_or_denotes hx with rfl | ⟨q, hq, hx⟩
  · rw [infinity_le_iff.1 h, factorial_infinity]
    exact ⟨_, _, rfl, rfl, htop⟩
  have hbelow : ∃ a, factorial x = .ok a ∧ a ≤ Binary64.infinity := by
    rw [factorial_eq_floor hx hq]
    split
    case isTrue hsmall =>
      obtain ⟨a, ha, hdenotes⟩ := denotes_product hsmall
      exact ⟨a, ha, hdenotes.le_infinity⟩
    case isFalse => exact ⟨_, rfl, htop⟩
  rcases hx.eq_infinity_or_denotes h with rfl | ⟨r, hqr, hy⟩
  · obtain ⟨a, ha, hle⟩ := hbelow
    exact ⟨a, _, ha, factorial_infinity, hle⟩
  · have hfloor : ⌊q⌋₊ ≤ ⌊r⌋₊ := Nat.floor_mono hqr
    by_cases hsmall : ⌊r⌋₊ ≤ 170
    · rw [factorial_eq_floor hx hq, factorial_eq_floor hy (hq.trans hqr), if_pos hsmall,
        if_pos (hfloor.trans hsmall)]
      obtain ⟨a, ha, hdenotes⟩ := denotes_product (hfloor.trans hsmall)
      obtain ⟨b, hb, hdenotes'⟩ := denotes_product hsmall
      exact ⟨a, b, ha, hb, (hdenotes.le_iff hdenotes').2 (roundedFactorial_mono hfloor)⟩
    · rw [factorial_eq_floor hy (hq.trans hqr), if_neg hsmall]
      obtain ⟨a, ha, hle⟩ := hbelow
      exact ⟨a, _, ha, rfl, hle⟩

/-- The factorial is infinite beyond the largest integer that has a finite one. -/
theorem isInf_factorial_iff (hx : 0 ≤ x) :
    ∃ a, factorial x = .ok a ∧ (a.isInf = true ↔ largestFactorial < truncated x) := by
  rcases denotes_zero.eq_infinity_or_denotes hx with rfl | ⟨q, hq, hx⟩
  · refine ⟨_, factorial_infinity, ?_⟩
    rw [truncated_infinity]
    decide +kernel
  · have hlargest : Denotes largestFactorial (170 : ℕ) := denotes_ofNat (n := 170) (by norm_num)
    have hpart : largestFactorial < truncated x ↔ ¬⌊q⌋₊ ≤ 170 := by
      rw [hlargest.lt_iff (hx.truncated_floor hq), Nat.cast_lt, not_le]
    rw [hpart, factorial_eq_floor hx hq]
    split
    case isTrue hsmall =>
      obtain ⟨a, ha, hdenotes⟩ := denotes_product hsmall
      refine ⟨a, ha, ?_⟩
      rw [hdenotes.isInf_eq_false]
      exact iff_of_false Bool.false_ne_true (not_not.2 hsmall)
    case isFalse hlarge => exact ⟨_, rfl, iff_of_true (isInf_signedInfinity .positive) hlarge⟩

end Arithmetic

/-! ### Factorials in expressions -/

namespace Phrase

variable {order : PowerOrder} {scope : Scope}

/-- The expression that is the factorial of an operand. -/
def factorialOf (operand : Phrase order (.whole .primary)) : Phrase order (.whole .expression) :=
  .expression
    (.factor (marked operand (.mark .factorialAlone (.done .factorials))) (.done .products))
    (.done .sums)

theorem tokens_factorialOf (operand : Phrase order (.whole .primary)) :
    operand.factorialOf.tokens = operand.tokens ++ [.op "!"] := by
  simp [factorialOf, tokens, Chain.markToken]

theorem frames_factorialOf (operand : Phrase order (.whole .primary)) :
    operand.factorialOf.frames ≤ operand.frames + 5 := by
  cases order <;> simp [factorialOf, marked, before, frames]

theorem outcome_factorialOf [Elementary] (operand : Phrase order (.whole .primary)) :
    operand.factorialOf.outcome scope =
      operand.outcome scope >>= fun x => Halt.raising (Arithmetic.factorial x) := by
  simp only [factorialOf, outcome, outcome_marked, bind_pure]
  rfl

/-- The expression that is a call of the factorial function. -/
def callOfFactorial (argument : Phrase order (.whole .expression)) :
    Phrase order (.whole .expression) :=
  (call "fac" (.arguments "fac" argument (.done .arguments))).ofPrimary

theorem tokens_callOfFactorial (argument : Phrase order (.whole .expression)) :
    argument.callOfFactorial.tokens =
      .func "fac" :: .op "(" :: (argument.tokens ++ [.op ")"]) := by
  simp [callOfFactorial, tokens_ofPrimary, tokens]

theorem frames_callOfFactorial (argument : Phrase order (.whole .expression)) :
    argument.callOfFactorial.frames ≤ argument.frames + 7 := by
  have h := (call "fac" (.arguments "fac" argument (.done .arguments))).frames_ofPrimary
  simpa [callOfFactorial, frames] using h

theorem outcome_callOfFactorial [Elementary] (argument : Phrase order (.whole .expression)) :
    argument.callOfFactorial.outcome scope =
      argument.outcome scope >>= fun x => Halt.raising (Arithmetic.factorial x) := by
  have hcall (x : Float) :
      Builtin.callNamed "fac" [x] = Halt.raising (Arithmetic.factorial x) := by
    rw [Builtin.callNamed, show Builtin.ofName? "fac" = _ from Builtin.ofName?_name (.unary .fac)]
    rfl
  rw [callOfFactorial, outcome_ofPrimary, outcome, outcome_arguments]
  cases argument.outcome scope with
  | error h => rfl
  | ok x => exact hcall x

end Phrase

/-- An expression that is read with an ending behind comes to its outcome. -/
theorem wholeExpression_outcome [Elementary] {scope : Scope} {order : PowerOrder}
    (tree : Phrase order (.whole .expression)) {frames : Nat} (h : tree.frames ≤ frames) {x : Float}
    (hx : tree.outcome scope = .ok x) :
    ((wholeExpression scope order frames).start (tree.tokens ++ [.ending])).result = .ok x := by
  rw [← hx]
  exact (wholeExpression_gives scope tree h []).result_eq

namespace Arithmetic

open Binary64

/-- The factorial of a double is that of its integer part, whether it is written with `!` or called.
- So it is for all that is at most minus one or from zero on; what is negative has none.
- From zero on it never falls, and it is infinite exactly if the integer part is above 170.
- No computation of it fails. -/
theorem factorial_of_integer_part :
    (∀ x : Float, x ≤ -1 ∨ 0 ≤ x → factorial x = factorial (truncated x)) ∧
    (∀ x : Float, x < 0 → factorial x = .ok Binary64.nan) ∧
    (∀ x y : Float, 0 ≤ x → x ≤ y → ∃ a b, factorial x = .ok a ∧ factorial y = .ok b ∧ a ≤ b) ∧
    (∀ x : Float, 0 ≤ x →
      ∃ a, factorial x = .ok a ∧ (a.isInf = true ↔ 170 < truncated x)) ∧
    ∀ [Elementary] (scope : Scope) (order : PowerOrder) (frames : Nat) (x : Float),
      ∃ a, factorial x = .ok a ∧
      (∀ operand : Phrase order (.whole .primary), operand.outcome scope = .ok x →
        operand.frames + 5 ≤ frames →
        ((wholeExpression scope order frames).start (operand.tokens ++ [.op "!", .ending])).result =
          .ok a) ∧
      ∀ argument : Phrase order (.whole .expression), argument.outcome scope = .ok x →
        argument.frames + 7 ≤ frames →
        ((wholeExpression scope order frames).start
            (.func "fac" :: .op "(" :: (argument.tokens ++ [.op ")", .ending]))).result =
          .ok a := by
  refine ⟨?_, fun x => factorial_of_neg, fun x y => factorial_mono,
    fun x => isInf_factorial_iff, fun scope order frames x => ?_⟩
  · rintro x (h | h)
    · obtain ⟨hx, htruncated⟩ := truncated_neg h
      rw [factorial_of_neg hx, factorial_of_neg htruncated]
    · exact factorial_truncated_of_nonneg h
  obtain ⟨a, ha⟩ := factorial_total x
  refine ⟨a, ha, ?_, ?_⟩
  · intro operand hx hframes
    have houtcome : operand.factorialOf.outcome scope = .ok a := by
      rw [Phrase.outcome_factorialOf, hx, ← Halt.raising_ok a, ← ha]
      rfl
    have h := wholeExpression_outcome _ (operand.frames_factorialOf.trans hframes) houtcome
    rwa [Phrase.tokens_factorialOf, List.append_assoc] at h
  · intro argument hx hframes
    have houtcome : argument.callOfFactorial.outcome scope = .ok a := by
      rw [Phrase.outcome_callOfFactorial, hx, ← Halt.raising_ok a, ← ha]
      rfl
    have h := wholeExpression_outcome _ (argument.frames_callOfFactorial.trans hframes) houtcome
    rw [Phrase.tokens_callOfFactorial] at h
    simpa using h

/-- Just below the cut: the factorial of 170.5 is that of 170, written as `170.5!` or called, and that
of 171 is infinite. -/
theorem factorial_of_integer_part_cut :
    factorial 170.5 = factorial 170 ∧ factorial (-0.5) = .ok Binary64.nan ∧
      (∃ a b, factorial 170.5 = .ok a ∧ factorial 171 = .ok b ∧ a ≤ b ∧ b.isInf = true) ∧
      ∃ a, factorial 170.5 = .ok a ∧
        ((wholeExpression .builtin .fromRight 9).start [.number 170.5, .op "!", .ending]).result =
          .ok a ∧
        ((wholeExpression .builtin .fromLeft 12).start
            [.func "fac", .op "(", .number 170.5, .op ")", .ending]).result = .ok a := by
  obtain ⟨hpart, hnegative, hmono, hinfinite, hexpressions⟩ := factorial_of_integer_part
  have htruncated : truncated 170.5 = 170 := by decide +kernel
  refine ⟨?_, hnegative _ (by decide +kernel), ?_, ?_⟩
  · rw [hpart 170.5 (.inr (by decide +kernel)), htruncated]
  · obtain ⟨a, b, ha, hb, hle⟩ := hmono 170.5 171 (by decide +kernel) (by decide +kernel)
    obtain ⟨b', hb', hinf⟩ := hinfinite 171 (by decide +kernel)
    obtain rfl : b = b' := Except.ok.inj (hb.symm.trans hb')
    exact ⟨a, b, ha, hb, hle, hinf.2 (by decide +kernel)⟩
  · obtain ⟨a, ha, hmark, -⟩ := hexpressions .builtin .fromRight 9 170.5
    obtain ⟨a', ha', -, hcall⟩ := hexpressions .builtin .fromLeft 12 170.5
    obtain rfl : a = a' := Except.ok.inj (ha.symm.trans ha')
    let argument : Phrase .fromLeft (.whole .expression) := (Phrase.number 170.5).ofPrimary
    exact ⟨a, ha, hmark (.number 170.5) rfl (by decide), hcall argument rfl (by decide)⟩

/-- The integer part of minus one half is zero, whose factorial is one; being negative it has none. -/
theorem not_factorial_of_integer_part :
    ¬∀ x : Float, x.isFinite = true → factorial x = factorial (truncated x) := by
  intro h
  have hhalf := h (-0.5) (by decide +kernel)
  revert hhalf
  decide +kernel

end Arithmetic
end Reckoner
