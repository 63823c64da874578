import Reckoner.Proofs.Text.Quoted
import Reckoner.Text.Character

/-!
Texts within one line. A line may be taken to end at any of ten characters; none of them is printable, so
quoted text has none, and neither have numbers and names.
-/

namespace Reckoner.Text

/-- Whether a line may be taken to end at the character. -/
def isLineBreak (c : Char) : Bool :=
  let code := c.toNat
  (0xA ≤ code && code ≤ 0xD) || (0x1C ≤ code && code ≤ 0x1E) || code == 0x85 || code == 0x2028
    || code == 0x2029

/-- Whether a character is printable ASCII. -/
def isPlain (c : Char) : Bool := 0x20 ≤ c.toNat && c.toNat ≤ 0x7E

/-- A text without a line break of any kind. -/
def OneLine (s : String) : Prop := ∀ c ∈ s.toList, isLineBreak c = false

/-- A text in printable ASCII. -/
def Plain (s : String) : Prop := ∀ c ∈ s.toList, isPlain c

-- over the characters of the text, and not over all that there are
instance (s : String) : Decidable (OneLine s) :=
  List.decidableBAll (fun c => isLineBreak c = false) s.toList

instance (s : String) : Decidable (Plain s) := List.decidableBAll (fun c => isPlain c = true) s.toList

section Characters

variable {c : Char}

theorem isPlain_iff : isPlain c ↔ 0x20 ≤ c.toNat ∧ c.toNat ≤ 0x7E := by simp [isPlain]

theorem isLineBreak_of_isPlain (h : isPlain c) : isLineBreak c = false := by
  obtain ⟨hlow, hhigh⟩ := isPlain_iff.1 h
  simp only [isLineBreak, Bool.or_eq_false_iff, Bool.and_eq_false_iff, decide_eq_false_iff_not,
    beq_eq_false_iff_ne]
  omega

/-- The characters at which a line may be taken to end, one by one. -/
def lineBreaks : List Char :=
  ['\n', '\x0b', '\x0c', '\r', '\x1c', '\x1d', '\x1e', '\u0085', '\u2028', '\u2029']

theorem mem_lineBreaks (h : isLineBreak c) : c ∈ lineBreaks := by
  have hcode : c.toNat ∈ [0xA, 0xB, 0xC, 0xD, 0x1C, 0x1D, 0x1E, 0x85, 0x2028, 0x2029] := by
    simp only [isLineBreak, Bool.or_eq_true, Bool.and_eq_true, decide_eq_true_eq, beq_iff_eq] at h
    simp only [List.mem_cons, List.not_mem_nil, or_false]
    omega
  rw [← Char.ofNat_toNat c]
  exact List.mem_map_of_mem hcode (f := Char.ofNat)

theorem isLineBreak_of_isPrintable (h : Printable.isPrintable c) : isLineBreak c = false := by
  have hall : (lineBreaks.all fun d => !Printable.isPrintable d) = true := by decide +kernel
  cases hbreak : isLineBreak c with
  | false => rfl
  | true =>
    have hnot := List.all_eq_true.1 hall c (mem_lineBreaks hbreak)
    rw [h] at hnot
    cases hnot

theorem isPlain_of_isDigit (h : c.isDigit) : isPlain c := by
  have hcode := Char.isDigit_iff_toNat.1 h
  rw [isPlain_iff]
  simp only [Char.reduceToNat] at hcode
  omega

theorem isPlain_of_isNamePart (h : isNamePart c) : isPlain c := by
  have halphanum : c.isAlphanum = (c.isAlpha || c.isDigit) := rfl
  have halpha : c.isAlpha = (decide (c.val ≥ 65 ∧ c.val ≤ 90) ||
      (decide (c.val ≥ 97) && decide (c.val ≤ 122))) := rfl
  simp only [isNamePart, halphanum, Bool.or_eq_true, beq_iff_eq] at h
  rcases h with (hletter | hdigit) | rfl
  · simp only [halpha, Bool.or_eq_true, Bool.and_eq_true, decide_eq_true_eq, ge_iff_le,
      UInt32.le_iff_toNat_le] at hletter
    change (65 ≤ c.toNat ∧ c.toNat ≤ 90) ∨ (97 ≤ c.toNat ∧ c.toNat ≤ 122) at hletter
    rw [isPlain_iff]
    omega
  · exact isPlain_of_isDigit hdigit
  · decide

theorem isPlain_of_isName {cs : List Char} (h : isName cs) : ∀ c ∈ cs, isPlain c :=
  fun c hc => isPlain_of_isNamePart (isNamePart_of_isName h c hc)

end Characters

section Texts

variable {s t : String}

theorem Plain.oneLine (h : Plain s) : OneLine s := fun c hc => isLineBreak_of_isPlain (h c hc)

@[simp] theorem oneLine_append : OneLine (s ++ t) ↔ OneLine s ∧ OneLine t := by
  simp [OneLine, or_imp, forall_and]

@[simp] theorem plain_append : Plain (s ++ t) ↔ Plain s ∧ Plain t := by
  simp [Plain, or_imp, forall_and]

theorem plain_ofList {cs : List Char} : Plain (String.ofList cs) ↔ ∀ c ∈ cs, isPlain c := by
  rw [Plain, String.toList_ofList]

theorem plain_toString_nat (n : Nat) : Plain (toString n) := by
  rw [Nat.toString_eq_ofList_toDigits, plain_ofList]
  exact fun c hc => isPlain_of_isDigit (Nat.isDigit_of_mem_toDigits (by decide) (by decide) hc)

theorem plain_toString_int (n : Int) : Plain (toString n) := by
  cases n with
  | ofNat n => exact plain_toString_nat n
  | negSucc n =>
    have hminus : toString (Int.negSucc n) = "-" ++ toString (n + 1) := rfl
    rw [hminus, plain_append]
    exact ⟨by decide, plain_toString_nat (n + 1)⟩

end Texts

/-! ### Quoted text -/

namespace Quoted

theorem isPlain_hex {c : Char} {width n : Nat} (h : c ∈ hex width n) : isPlain c := by
  induction width generalizing n with
  | zero => simp [hex] at h
  | succ width ih =>
    rcases List.mem_append.1 h with h | h
    · exact ih h
    · have hall : ∀ d < 16, isPlain (Nat.digitChar d) := by decide
      rw [List.mem_singleton.1 h]
      exact hall _ (Nat.mod_lt n (by decide))

theorem isLineBreak_escape {quote c d : Char} (hquote : isPlain quote) (h : d ∈ escape quote c) :
    isLineBreak d = false := by
  rcases escape_cases quote c with ⟨hc, hself⟩ | ⟨letter, hletter, hc, -⟩ |
    ⟨hc, hprintable, -⟩ | ⟨letter, width, hletter, hc, -⟩
  · have hplain : isPlain c := by
      rcases hself with rfl | rfl
      · exact hquote
      · decide
    rw [hc] at h
    simp only [List.mem_cons, List.not_mem_nil, or_false] at h
    rcases h with rfl | rfl
    · decide
    · exact isLineBreak_of_isPlain hplain
  · have hall : ['n', 'r', 't'].all isPlain = true := by decide
    rw [hc] at h
    refine isLineBreak_of_isPlain ?_
    rcases List.mem_cons.1 h with rfl | h
    · decide
    · rw [List.mem_singleton.1 h]
      exact List.all_eq_true.1 hall letter hletter
  · rw [hc] at h
    rw [List.mem_singleton.1 h]
    exact isLineBreak_of_isPrintable hprintable
  · have hall : ∀ code ∈ [('x', 2), ('u', 4), ('U', 8)], isPlain code.1 := by decide
    rw [hc] at h
    refine isLineBreak_of_isPlain ?_
    rcases List.mem_cons.1 h with rfl | h
    · decide
    · rcases List.mem_cons.1 h with rfl | h
      · exact hall _ hletter
      · exact isPlain_hex h

end Quoted

/-- Quoted text is within one line, whatever the text. -/
theorem oneLine_quote (s : String) : OneLine (quote s) := by
  have hquote : isPlain (Quoted.quoteFor s.toList) := by
    rcases Quoted.quoteFor_cases s.toList with h | h
    · rw [h]
      decide
    · rw [h]
      decide
  intro c hc
  rw [quote, String.toList_ofList, Quoted.encode] at hc
  rcases List.mem_cons.1 hc with rfl | hc
  · exact isLineBreak_of_isPlain hquote
  · rcases List.mem_append.1 hc with hc | hc
    · obtain ⟨d, -, hc⟩ := List.mem_flatMap.1 hc
      exact Quoted.isLineBreak_escape hquote hc
    · rw [List.mem_singleton.1 hc]
      exact isLineBreak_of_isPlain hquote

end Reckoner.Text
