import Mathlib
import Reckoner.Json
import Reckoner.Proofs.Binary64.Scientific
import Reckoner.Proofs.Binary64.Special
import Reckoner.Proofs.Decimal.Plain
import Reckoner.Proofs.Decimal.Shortest

/-!
Numbers of JSON texts. A decimal is laid out in one of their forms, with its digits and its power of ten
unchanged or filled up with zeros, and so a finite double is read back from its shortest text.
-/

namespace Reckoner.Json

open Numeral (ofDigits sign)

/-! ### Reading -/

/-- The digits in front, of which there has to be one, and what follows them. -/
def readDigits (cs : List Char) : Option (List Char × List Char) :=
  match cs.span Char.isDigit with
  | ([], _) => none
  | read => some read

/-- The digits before the point; none comes behind a `0` in front. -/
def readWhole (cs : List Char) : Option (List Char × List Char) :=
  match readDigits cs with
  | some ('0' :: _ :: _, _) => none
  | read => read

/-- The digits behind a point, if there is one. -/
def readFraction : List Char → Option (List Char × List Char)
  | '.' :: cs => readDigits cs
  | cs => some ([], cs)

/-- The power of ten behind an `e`, if there is one. -/
def readPower : List Char → Option (Int × List Char)
  | [] => some (0, [])
  | c :: cs =>
    if c = 'e' || c = 'E' then
      let (minus, cs) := sign cs
      (readDigits cs).map fun (ds, rest) => (if minus then -(ofDigits ds : Int) else ofDigits ds, rest)
    else some (0, c :: cs)

/-- The nearest double to a number without a sign, and what follows it. -/
def readMagnitude (cs : List Char) : Option (Float × List Char) := do
  let (whole, cs) ← readWhole cs
  let (parts, cs) ← readFraction cs
  let (power, cs) ← readPower cs
  return (Numeral.nearest (ofDigits (whole ++ parts)) (power - parts.length), cs)

def readNumber : List Char → Option (Float × List Char)
  | '-' :: cs => (readMagnitude cs).map fun (x, rest) => (-x, rest)
  | cs => readMagnitude cs

/-! ### Digits -/

section Digits

variable {ds rest : List Char}

/-- Whether no number goes on with `rest`. -/
def Over (rest : List Char) : Prop :=
  ∀ c ∈ rest.head?, c.isDigit = false ∧ c ≠ '.' ∧ c ≠ 'e' ∧ c ≠ 'E'

theorem readDigits_append (hds : ∀ c ∈ ds, c.isDigit) (hne : ds ≠ [])
    (hrest : ∀ c ∈ rest.head?, c.isDigit = false) : readDigits (ds ++ rest) = some (ds, rest) := by
  have hspan : (ds ++ rest).span Char.isDigit = (ds, rest) := by
    rw [List.span_eq_takeWhile_dropWhile, List.takeWhile_append_of_pos hds,
      List.dropWhile_append_of_pos hds]
    cases rest with
    | nil => simp
    | cons c rest => simp [hrest c rfl]
  rw [readDigits, hspan]
  cases ds with
  | nil => exact absurd rfl hne
  | cons => rfl

theorem isDigit_replicate (count : ℕ) : ∀ c ∈ List.replicate count '0', c.isDigit = true := by
  intro c hc
  rw [List.eq_of_mem_replicate hc]
  rfl

theorem readMagnitude_eq_none {c : Char} (hc : c.isDigit = false) (cs : List Char) :
    readMagnitude (c :: cs) = none := by
  have hspan : (c :: cs).span Char.isDigit = ([], c :: cs) := by
    simp [List.span_eq_takeWhile_dropWhile, hc]
  have hdigits : readDigits (c :: cs) = none := by rw [readDigits, hspan]
  have hwhole : readWhole (c :: cs) = none := by rw [readWhole, hdigits]
  rw [readMagnitude, hwhole]
  rfl

theorem readNumber_eq_none {c : Char} (hminus : c ≠ '-') (hc : c.isDigit = false) (cs : List Char) :
    readNumber (c :: cs) = none := by
  unfold readNumber
  split
  case h_1 heq => exact absurd (List.cons.inj heq).1 hminus
  case h_2 => exact readMagnitude_eq_none hc cs

theorem not_isDigit_head {c : Char} (hc : c.isDigit = false) (cs : List Char) :
    ∀ d ∈ (c :: cs).head?, d.isDigit = false := by
  rintro d ⟨⟩
  exact hc

/-- Digits that may stand before a point. -/
structure Whole (ds : List Char) : Prop where
  digits : ∀ c ∈ ds, c.isDigit
  ne_nil : ds ≠ []
  /-- A `0` in front is alone. -/
  alone : ds.head? = some '0' → ds = ['0']

theorem whole_zero : Whole ['0'] := ⟨isDigit_replicate 1, List.cons_ne_nil _ _, fun _ => rfl⟩

theorem readWhole_append (hds : Whole ds) (hrest : ∀ c ∈ rest.head?, c.isDigit = false) :
    readWhole (ds ++ rest) = some (ds, rest) := by
  have halone := hds.alone
  rw [readWhole, readDigits_append hds.digits hds.ne_nil hrest]
  split
  case h_1 heq =>
    obtain ⟨rfl, -⟩ := Prod.mk.inj (Option.some.inj heq)
    simp at halone
  case h_2 => rfl

theorem readPower_of_over (h : Over rest) : readPower rest = some (0, rest) := by
  cases rest with
  | nil => rfl
  | cons c rest =>
    obtain ⟨-, -, he, hE⟩ := h c rfl
    simp [readPower, he, hE]

theorem readMagnitude_append {whole parts cs : List Char} {power : ℤ} (hwhole : Whole whole)
    (hcs : ∀ c ∈ cs.head?, c.isDigit = false) {cs' : List Char}
    (hfraction : readFraction cs = some (parts, cs')) (hpower : readPower cs' = some (power, rest)) :
    readMagnitude (whole ++ cs) =
      some (Numeral.nearest (ofDigits (whole ++ parts)) (power - parts.length), rest) := by
  simp only [readMagnitude, readWhole_append hwhole hcs, hfraction, hpower, Option.bind_eq_bind,
    Option.bind_some]
  rfl

/-- The digits of a number do not start with zero. -/
theorem head?_toDigits {n : ℕ} (hn : n ≠ 0) : (Nat.toDigits 10 n).head? ≠ some '0' := by
  induction n using Nat.strongRecOn with
  | ind n ih =>
    rcases Nat.lt_or_ge n 10 with hlt | hge
    · rw [Nat.toDigits_of_lt_base hlt, List.head?_singleton, ne_eq, Option.some_inj,
        Nat.digitChar_eq_zero]
      exact hn
    · have hne : Nat.toDigits 10 (n / 10) ≠ [] := List.ne_nil_of_length_pos Nat.length_toDigits_pos
      rw [Nat.toDigits_of_base_le (by decide) hge, List.head?_append_of_ne_nil _ hne]
      exact ih (n / 10) (by omega) (by omega)

theorem ofDigits_toDigits (n : ℕ) : ofDigits (Nat.toDigits 10 n) = n := Nat.ofDigitChars_ten_toDigits

theorem ofDigits_zeros (count : ℕ) (ds : List Char) :
    ofDigits (List.replicate count '0' ++ ds) = ofDigits ds := by
  have hsplit := Nat.ofDigitChars_append (b := 10) (l := List.replicate count '0') (m := ds) 0
  rw [Nat.ofDigitChars_replicate_zero, mul_zero] at hsplit
  exact hsplit

theorem ofDigits_append_zeros (count : ℕ) (ds : List Char) :
    ofDigits (ds ++ List.replicate count '0') = 10 ^ count * ofDigits ds := by
  have hsplit := Nat.ofDigitChars_append (b := 10) (l := ds) (m := List.replicate count '0') 0
  rw [Nat.ofDigitChars_replicate_zero] at hsplit
  exact hsplit

end Digits

/-! ### Layouts -/

section Layouts

open Decimal (isDigit_of_mem_digits shortestLayout)

variable {d : Decimal}

/-- Whether `cs` is a number without a sign, of the value `q`. -/
def Writes (cs : List Char) (q : ℚ) : Prop :=
  ∃ (c : ℕ) (k : ℤ), (c * 10 ^ k : ℚ) = q ∧
    ∀ rest, Over rest → readMagnitude (cs ++ rest) = some (Numeral.nearest c k, rest)

theorem Over.not_isDigit {rest : List Char} (h : Over rest) : ∀ c ∈ rest.head?, c.isDigit = false :=
  fun c hc => (h c hc).1

theorem digits_ne_nil (d : Decimal) : d.digits ≠ [] := List.ne_nil_of_length_pos Nat.length_toDigits_pos

theorem head?_digits (hd : d.coefficient ≠ 0) : d.digits.head? ≠ some '0' := head?_toDigits hd

theorem ofDigits_digits (d : Decimal) : ofDigits d.digits = d.coefficient := ofDigits_toDigits _

/-- Digits in front of a decimal may stand before a point. -/
theorem whole_take (hd : d.coefficient ≠ 0) {count : ℕ} (hcount : count ≠ 0) :
    Whole (d.digits.take count) where
  digits := fun _ hc => isDigit_of_mem_digits (List.mem_of_mem_take hc)
  ne_nil := by simp [digits_ne_nil d, hcount]
  alone := by
    rw [List.head?_take, if_neg hcount]
    exact fun h => absurd h (head?_digits hd)

/-- Zeros behind them do not matter. -/
theorem whole_append_zeros (hd : d.coefficient ≠ 0) (count : ℕ) :
    Whole (d.digits ++ List.replicate count '0') where
  digits := by
    rw [List.forall_mem_append]
    exact ⟨fun _ => isDigit_of_mem_digits, isDigit_replicate count⟩
  ne_nil := by simp [digits_ne_nil d]
  alone := by
    rw [List.head?_append_of_ne_nil _ (digits_ne_nil d)]
    exact fun h => absurd h (head?_digits hd)

/-- A number with a point and digits on both sides of it. -/
theorem writes_point {whole : List Char} (hwhole : Whole whole) (parts : List Char)
    (hparts : ∀ c ∈ parts, c.isDigit) (hne : parts ≠ []) {q : ℚ}
    (hq : (ofDigits (whole ++ parts) * 10 ^ (-(parts.length : ℤ)) : ℚ) = q) :
    Writes (whole ++ '.' :: parts) q := by
  refine ⟨ofDigits (whole ++ parts), -(parts.length : ℤ), hq, fun rest hrest => ?_⟩
  have hfraction : readFraction ('.' :: (parts ++ rest)) = some (parts, rest) :=
    readDigits_append hparts hne hrest.not_isDigit
  rw [List.append_assoc, List.cons_append,
    readMagnitude_append hwhole (not_isDigit_head rfl _) hfraction (readPower_of_over hrest), zero_sub]

/-- All digits stand behind the point, and zeros between them. -/
theorem writes_below_one {count : ℕ} (hcount : d.exponent = -(count + d.digits.length : ℤ)) :
    Writes ('0' :: '.' :: List.replicate count '0' ++ d.digits) d.value := by
  refine writes_point whole_zero (List.replicate count '0' ++ d.digits) ?_ ?_ ?_
  · rw [List.forall_mem_append]
    exact ⟨isDigit_replicate count, fun _ => isDigit_of_mem_digits⟩
  · simp [digits_ne_nil d]
  · have hvalue : ofDigits (['0'] ++ (List.replicate count '0' ++ d.digits)) = d.coefficient := by
      rw [← ofDigits_digits d, ← List.append_assoc]
      exact ofDigits_zeros (count + 1) d.digits
    rw [hvalue, Decimal.value, hcount, List.length_append, List.length_replicate, Nat.cast_add]

/-- All digits stand before the point, and zeros behind them. -/
theorem writes_whole (hd : d.coefficient ≠ 0) {count : ℕ} (hcount : d.exponent = count) :
    Writes (d.digits ++ List.replicate count '0' ++ ['.', '0']) d.value := by
  refine writes_point (whole_append_zeros hd count) ['0'] (isDigit_replicate 1) (List.cons_ne_nil _ _) ?_
  have hvalue : ofDigits (d.digits ++ List.replicate count '0' ++ ['0']) =
      10 ^ (count + 1) * d.coefficient := by
    have hzeros : List.replicate count '0' ++ ['0'] = List.replicate (count + 1) '0' :=
      List.replicate_succ'.symm
    rw [List.append_assoc, hzeros, ofDigits_append_zeros, ofDigits_digits]
  rw [hvalue, Decimal.value, hcount, List.length_singleton, zpow_natCast, pow_succ]
  push_cast
  rw [zpow_neg, zpow_one]
  ring

/-- The point stands among the digits. -/
theorem writes_inside (hd : d.coefficient ≠ 0) {count : ℕ} (hcount : count ≠ 0)
    (hexponent : d.exponent = count - d.digits.length) (hless : count < d.digits.length) :
    Writes (d.digits.take count ++ '.' :: d.digits.drop count) d.value := by
  refine writes_point (whole_take hd hcount) _
    (fun _ hc => isDigit_of_mem_digits (List.mem_of_mem_drop hc)) ?_ ?_
  · rw [ne_eq, List.drop_eq_nil_iff]
    omega
  · have hlength : -((d.digits.drop count).length : ℤ) = d.exponent := by
      rw [List.length_drop]
      omega
    rw [List.take_append_drop, ofDigits_digits, hlength, Decimal.value]

theorem writes_positional (hd : d.coefficient ≠ 0) :
    Writes (Decimal.positional d.digits d.point true) d.value := by
  have hpoint : d.point = d.digits.length + d.exponent := rfl
  unfold Decimal.positional
  split
  · exact writes_below_one (by omega)
  · split
    · exact writes_whole hd (by omega)
    · exact writes_inside hd (by omega) (by omega) (by omega)

/-- The power of ten of the scientific form, with its sign and zeros in front. -/
theorem readPower_signed (power : ℤ) (count : ℕ) {rest : List Char} (hrest : Over rest) :
    readPower ('e' :: (if power < 0 then '-' else '+') ::
      (List.replicate count '0' ++ Nat.toDigits 10 power.natAbs ++ rest)) = some (power, rest) := by
  have hdigits : ∀ c ∈ List.replicate count '0' ++ Nat.toDigits 10 power.natAbs, c.isDigit = true := by
    rw [List.forall_mem_append]
    exact ⟨isDigit_replicate count, fun c => Nat.isDigit_of_mem_toDigits (by decide) (by decide)⟩
  have hne : Nat.toDigits 10 power.natAbs ≠ [] := List.ne_nil_of_length_pos Nat.length_toDigits_pos
  have hread := readDigits_append hdigits (by simp [hne]) hrest.not_isDigit
  have hvalue : ofDigits (List.replicate count '0' ++ Nat.toDigits 10 power.natAbs) = power.natAbs := by
    rw [ofDigits_zeros, ofDigits_toDigits]
  generalize List.replicate count '0' ++ Nat.toDigits 10 power.natAbs = ds at hread hvalue
  split
  case isTrue hneg =>
    simp [readPower, sign, hread, hvalue, abs_of_neg hneg]
  case isFalse hnonneg =>
    simp [readPower, sign, hread, hvalue, abs_of_nonneg (not_lt.1 hnonneg)]

theorem writes_scientific (hd : d.coefficient ≠ 0) :
    Writes (Decimal.scientific d.digits (d.point - 1)) d.value := by
  have hpoint : d.point = d.digits.length + d.exponent := rfl
  have hlength : 0 < d.digits.length := Nat.length_toDigits_pos
  have hwhole : Whole (d.digits.take 1) := whole_take hd (by decide)
  refine ⟨d.coefficient, d.exponent, rfl, fun rest hrest => ?_⟩
  have hpower := readPower_signed (d.point - 1) (2 - (Nat.toDigits 10 (d.point - 1).natAbs).length) hrest
  unfold Decimal.scientific
  dsimp only
  rw [List.append_assoc, List.append_assoc, List.append_assoc, List.cons_append, List.cons_append,
    ← List.append_assoc (List.replicate _ _)]
  generalize (if d.point - 1 < 0 then '-' else '+') ::
    (List.replicate _ '0' ++ Nat.toDigits 10 (d.point - 1).natAbs ++ rest) = power at hpower ⊢
  split
  case isTrue hone =>
    have hfraction : readFraction ('e' :: power) = some ([], 'e' :: power) := rfl
    have hexponent : d.point - 1 - ([] : List Char).length = d.exponent := by
      rw [List.length_nil]
      omega
    rw [List.nil_append, readMagnitude_append hwhole (not_isDigit_head rfl _) hfraction hpower,
      List.append_nil, List.take_of_length_le hone, ofDigits_digits, hexponent]
  case isFalse hmore =>
    have hfraction : readFraction ('.' :: (d.digits.drop 1 ++ 'e' :: power)) =
        some (d.digits.drop 1, 'e' :: power) := by
      refine readDigits_append (fun _ hc => isDigit_of_mem_digits (List.mem_of_mem_drop hc)) ?_
        (not_isDigit_head rfl power)
      rwa [ne_eq, List.drop_eq_nil_iff]
    have hexponent : d.point - 1 - (d.digits.drop 1).length = d.exponent := by
      rw [List.length_drop]
      omega
    rw [List.cons_append, readMagnitude_append hwhole (not_isDigit_head rfl _) hfraction hpower,
      List.take_append_drop, ofDigits_digits, hexponent]

theorem writes_write (hd : d.coefficient ≠ 0) : Writes (d.write shortestLayout) d.value := by
  unfold Decimal.write
  split
  · exact writes_positional hd
  · exact writes_scientific hd

end Layouts

/-! ### Doubles -/

open Binary64 (Denotes Canonical nearest)

theorem Writes.exists_denotes {cs : List Char} {q : ℚ} (h : Writes cs q) (hlt : |nearest q| < 2 ^ 1024) :
    ∃ x, Denotes x (nearest q) ∧ ∀ rest, Over rest → readMagnitude (cs ++ rest) = some (x, rest) := by
  obtain ⟨c, k, rfl, hread⟩ := h
  exact ⟨Numeral.nearest c k, Binary64.denotes_numeral hlt, hread⟩

/-- The digits of a double are read back as that double. -/
theorem exists_readMagnitude_shortest {m : ℕ} {e : ℤ} (hc : Canonical m e) (hm : 0 < m)
    (hlt : (m * 2 ^ e : ℚ) < 2 ^ 1024) :
    ∃ x, Denotes x (m * 2 ^ e) ∧ ∀ rest, Over rest →
      readMagnitude ((Decimal.shortest m e).write Decimal.shortestLayout ++ rest) = some (x, rest) := by
  have hpos : (0 : ℚ) < m * 2 ^ e := mul_pos (by exact_mod_cast hm) (Binary64.two_zpow_pos e)
  have hnearest := Decimal.nearest_value_shortest hc hm
  have hcoefficient : (Decimal.shortest m e).coefficient ≠ 0 := by
    intro hzero
    rw [Decimal.value, hzero, Nat.cast_zero, zero_mul, Binary64.nearest_zero] at hnearest
    exact hpos.ne hnearest
  have hread := (writes_write hcoefficient).exists_denotes (by rwa [hnearest, abs_of_pos hpos])
  rwa [hnearest] at hread

theorem readNumber_of_readMagnitude {cs : List Char} {read : Float × List Char}
    (h : readMagnitude cs = some read) : readNumber cs = some read := by
  unfold readNumber
  split
  · cases h
  · exact h

theorem readMagnitude_zero {rest : List Char} (hrest : Over rest) :
    readMagnitude (Decimal.write Decimal.shortestLayout ⟨0, 0⟩ ++ rest) = some (0, rest) := by
  have hfraction : readFraction ('.' :: (['0'] ++ rest)) = some (['0'], rest) :=
    readDigits_append (isDigit_replicate 1) (List.cons_ne_nil _ _) hrest.not_isDigit
  have hzero : Numeral.nearest (ofDigits (['0'] ++ ['0'])) (0 - 1) = 0 := rfl
  rw [← hzero]
  exact readMagnitude_append whole_zero (not_isDigit_head rfl _) hfraction (readPower_of_over hrest)

/-- A finite double is read back from its shortest text. -/
theorem readNumber_shortestText {x : Float} (hx : x.isFinite = true) {rest : List Char}
    (hrest : Over rest) :
    readNumber ((Decimal.shortestText x).toList ++ rest) = some (x, rest) := by
  obtain ⟨q, hq⟩ := Binary64.isFinite_iff.1 hx
  have his := hq.is
  unfold Decimal.shortestText Decimal.writeFloat
  generalize hunpack : x.toModel.unpack = u at his ⊢
  cases u with
  | notANumber | infinity => exact his.elim
  | zero s =>
    have hread := readMagnitude_zero hrest
    cases s with
    | positive =>
      have hzero : x = 0 := Binary64.eq_of_unpack_eq hunpack
      simp only [String.toList_ofList]
      rw [hzero]
      exact readNumber_of_readMagnitude hread
    | negative =>
      have hzero : x = -0 := Binary64.eq_of_unpack_eq hunpack
      simp only [String.toList_ofList, List.cons_append, readNumber]
      rw [hread, hzero]
      rfl
  | finite s m e hm =>
    obtain ⟨hc, rfl⟩ := his
    have hpos : (0 : ℚ) < m * 2 ^ e := mul_pos (by exact_mod_cast hm) (Binary64.two_zpow_pos e)
    have hlt := hq.abs_lt
    rw [Binary64.abs_signed] at hlt
    obtain ⟨y, hy, hread⟩ := exists_readMagnitude_shortest hc hm (lt_of_abs_lt hlt)
    cases s with
    | positive =>
      have hxy : x = y := hq.eq_of_ne_zero hy hpos.ne'
      simp only [String.toList_ofList]
      rw [hxy]
      exact readNumber_of_readMagnitude (hread rest hrest)
    | negative =>
      have hxy : x = -y := hq.eq_of_ne_zero hy.neg (neg_ne_zero.2 hpos.ne')
      simp only [String.toList_ofList, List.cons_append, readNumber]
      rw [hread rest hrest, hxy]
      rfl

end Reckoner.Json
