import Mathlib.Data.List.TakeDrop
import Mathlib.Data.List.TakeWhile
import Reckoner.Proofs.Text.Blank
import Reckoner.Token.Scan

/-!
Runs of digits and points as numerals. A run is a real numeral if it has a digit and no two points,
and stands for its digits over a power of ten; no other form of a numeral can come about.
-/

namespace Reckoner.Numeral

open Text (strip_eq_self)
open Token (isNumberPart)

/-- How many characters stand behind the first point. -/
def places (run : List Char) : Nat := (run.dropWhile (· != '.')).tail.length

/-- The double nearest to what the digits of a run stand for. -/
def ofRun (run : List Char) : Float :=
  nearest (ofDigits (run.filter Char.isDigit)) (-(places run : Int))

/-! ### Parts of numbers are plain -/

/-- The characters of numbers, one by one. -/
def numberParts : List Char := ['0', '1', '2', '3', '4', '5', '6', '7', '8', '9', '.']

theorem mem_numberParts {c : Char} (h : isNumberPart c) : c ∈ numberParts := by
  rcases Bool.or_eq_true_iff.1 h with hdigit | hpoint
  · obtain ⟨hlow, hhigh⟩ := Char.isDigit_iff_toNat.1 hdigit
    rw [← Char.ofNat_toNat c]
    have hall : ∀ n < 58, 48 ≤ n → Char.ofNat n ∈ numberParts := by decide
    exact hall c.toNat (Nat.lt_succ_of_le hhigh) hlow
  · simp [eq_of_beq hpoint, numberParts]

/-- None of them is changed or left out before a numeral is read, or belongs to another form of
one. -/
theorem plain_of_isNumberPart {c : Char} (h : isNumberPart c) :
    isMargin c = false ∧ plainDigit c = c ∧
      c ≠ '_' ∧ c ≠ '-' ∧ c ≠ '+' ∧ c.toLower ≠ 'i' ∧ c.toLower ≠ 'n' := by
  have hall : (numberParts.all fun d => isMargin d = false ∧ plainDigit d = d ∧
      d ≠ '_' ∧ d ≠ '-' ∧ d ≠ '+' ∧ d.toLower ≠ 'i' ∧ d.toLower ≠ 'n') = true := by decide
  simpa using List.all_eq_true.1 hall c (mem_numberParts h)

theorem ungroup_eq_some {cs : List Char} (h : ∀ c ∈ cs, c ≠ '_') (before : Bool) :
    ungroup before cs = some cs := by
  fun_induction ungroup before cs with
  | case1 => rfl
  | case2 | case3 | case4 => simp at h
  | case5 before c cs hgroup hlast ih =>
      rw [ih fun d hd => h d (List.mem_cons_of_mem c hd)]
      rfl

theorem sign_eq {cs : List Char} (h : ∀ c ∈ cs, c ≠ '-' ∧ c ≠ '+') : sign cs = (false, cs) := by
  unfold sign
  split
  · simp at h
  · simp at h
  · rfl

theorem lower_ne {cs : List Char} {a : Char} (h : ∀ c ∈ cs, c.toLower ≠ a) (word : String)
    {as : List Char} (hword : word.toList = a :: as) :
    String.ofList (cs.map Char.toLower) ≠ word := by
  rintro rfl
  rw [String.toList_ofList] at hword
  cases cs with
  | nil => simp at hword
  | cons c cs => exact h c List.mem_cons_self (List.cons.inj hword).1

/-- A run is read as a decimal. -/
theorem real?_eq_decimal? {run : List Char} (h : ∀ c ∈ run, isNumberPart c) :
    real? (String.ofList run) = decimal? run := by
  have hplain : plain (String.ofList run) = run := by
    unfold plain
    rw [String.toList_ofList, strip_eq_self fun c hc => (plain_of_isNumberPart (h c hc)).1]
    conv => rhs; rw [← List.map_id run]
    exact List.map_congr_left fun c hc => (plain_of_isNumberPart (h c hc)).2.1
  have hungroup := ungroup_eq_some (fun c hc => (plain_of_isNumberPart (h c hc)).2.2.1) false
  have hsign := sign_eq fun c hc =>
    ⟨(plain_of_isNumberPart (h c hc)).2.2.2.1, (plain_of_isNumberPart (h c hc)).2.2.2.2.1⟩
  have hi : ∀ c ∈ run, c.toLower ≠ 'i' := fun c hc => (plain_of_isNumberPart (h c hc)).2.2.2.2.2.1
  have hn : ∀ c ∈ run, c.toLower ≠ 'n' := fun c hc => (plain_of_isNumberPart (h c hc)).2.2.2.2.2.2
  have hmagnitude : magnitude? run = decimal? run := by
    unfold magnitude?
    simp [lower_ne hi "inf" rfl, lower_ne hi "infinity" rfl, lower_ne hn "nan" rfl]
  unfold real?
  rw [hplain, hungroup]
  simp [hsign, hmagnitude]

/-! ### The decimal of a run -/

/-- The digits at the head of a run end it, or come before a point. -/
theorem exists_digits {run : List Char} (h : ∀ c ∈ run, isNumberPart c) :
    ∃ digits rest, run = digits ++ rest ∧ (∀ c ∈ digits, c.isDigit) ∧
      (rest = [] ∨ ∃ more, rest = '.' :: more) := by
  refine ⟨run.takeWhile Char.isDigit, run.dropWhile Char.isDigit,
    (List.takeWhile_append_dropWhile).symm, ?_, ?_⟩
  · exact fun c hc => List.mem_takeWhile_imp hc
  · cases hrest : run.dropWhile Char.isDigit with
    | nil => exact .inl rfl
    | cons c more =>
        right
        have hmem : c ∈ run.dropWhile Char.isDigit := by simp [hrest]
        have hc : isNumberPart c := h c ((List.dropWhile_sublist _).subset hmem)
        have hnot : c.isDigit = false := by
          have hhead := List.head?_dropWhile_not Char.isDigit run
          rw [hrest] at hhead
          simpa using hhead
        obtain rfl : c = '.' := by simpa [isNumberPart, hnot] using hc
        exact ⟨more, rfl⟩

theorem span_digits {digits rest : List Char} (h : ∀ c ∈ digits, c.isDigit)
    (hrest : rest = [] ∨ ∃ more, rest = '.' :: more) :
    (digits ++ rest).span Char.isDigit = (digits, rest) := by
  rw [List.span_eq_takeWhile_dropWhile, List.takeWhile_append_of_pos h,
    List.dropWhile_append_of_pos h]
  rcases hrest with rfl | ⟨more, rfl⟩ <;> simp

theorem ne_point {c : Char} (h : c.isDigit) : c ≠ '.' := by
  rintro rfl
  exact absurd h (by decide)

theorem count_point {digits : List Char} (h : ∀ c ∈ digits, c.isDigit) : digits.count '.' = 0 :=
  List.count_eq_zero.2 fun hmem => ne_point (h '.' hmem) rfl

theorem places_append {digits : List Char} (h : ∀ c ∈ digits, c.isDigit) (rest : List Char) :
    places (digits ++ rest) = places rest := by
  unfold places
  rw [List.dropWhile_append_of_pos fun c hc => by simpa using ne_point (h c hc)]

theorem any_isDigit {digits : List Char} (h : ∀ c ∈ digits, c.isDigit) :
    digits.any Char.isDigit = !digits.isEmpty := by
  cases digits with
  | nil => rfl
  | cons c cs => simp [h c]

/-- Which runs are numerals, and what they stand for. -/
theorem decimal?_eq {run : List Char} (h : ∀ c ∈ run, isNumberPart c) :
    decimal? run =
      if run.any Char.isDigit ∧ run.count '.' ≤ 1 then some (ofRun run) else none := by
  obtain ⟨digits, rest, rfl, hdigits, hrest⟩ := exists_digits h
  unfold decimal?
  rw [span_digits hdigits hrest]
  have hfilter := List.filter_eq_self.2 hdigits
  rcases hrest with rfl | ⟨more, rfl⟩
  · -- no point
    have hvalue : ofRun (digits ++ []) = nearest (ofDigits digits) 0 := by
      rw [ofRun, places_append hdigits, List.append_nil, hfilter]
      rfl
    rw [hvalue, List.append_nil, any_isDigit hdigits, count_point hdigits]
    cases digits <;> simp [fraction, power?]
  · have hmore : ∀ c ∈ more, isNumberPart c := fun c hc => h c (by simp [hc])
    obtain ⟨parts, rest, rfl, hparts, hrest⟩ := exists_digits hmore
    simp only [fraction, span_digits hparts hrest]
    rcases hrest with rfl | ⟨more, rfl⟩
    · -- one point
      have hvalue : ofRun (digits ++ '.' :: (parts ++ [])) =
          nearest (ofDigits (digits ++ parts)) (-(parts.length : Int)) := by
        rw [ofRun, places_append hdigits, List.append_nil, List.filter_append, hfilter,
          List.filter_cons_of_neg (by decide), List.filter_eq_self.2 hparts]
        simp [places]
      have hany : (digits ++ '.' :: (parts ++ [])).any Char.isDigit =
          !(digits ++ parts).isEmpty := by
        rw [List.append_nil, List.any_append, List.any_cons, any_isDigit hdigits,
          any_isDigit hparts]
        cases digits <;> simp
      have hcount : (digits ++ '.' :: (parts ++ [])).count '.' = 1 := by
        simp [count_point hdigits, count_point hparts]
      rw [hvalue, hany, hcount]
      cases digits ++ parts <;> simp [power?]
    · -- two points
      have hpower : power? ('.' :: more) = none := by simp [power?]
      have hcount : ¬(digits ++ '.' :: (parts ++ '.' :: more)).count '.' ≤ 1 := by
        rw [List.count_append, List.count_cons_self, List.count_append, List.count_cons_self]
        omega
      rw [hpower, Option.map_none, ite_self]
      exact (if_neg fun hand => hcount hand.2).symm

/-- A run is read as a real numeral exactly if it has a digit and at most one point. -/
theorem real?_ofList {run : List Char} (h : ∀ c ∈ run, isNumberPart c) :
    real? (String.ofList run) =
      if run.any Char.isDigit ∧ run.count '.' ≤ 1 then some (ofRun run) else none := by
  rw [real?_eq_decimal? h, decimal?_eq h]

end Reckoner.Numeral
