import Reckoner.Proofs.Token.Numeral

/-!
The lexical grammar. A text is blanks and lexemes in a row; a number or a name goes on as far as it
can.
-/

namespace Reckoner

/-- A stretch of a text that stands for one token. -/
inductive Lexeme
  /-- Digits and points. -/
  | number (run : List Char)
  | name (run : List Char)
  | operator (c : Char)
  | comma

namespace Lexeme

def text : Lexeme → List Char
  | .number run | .name run => run
  | .operator c => [c]
  | .comma => [',']

/-- Whether the characters are what a lexeme of the kind is made of. -/
def WellFormed : Lexeme → Prop
  | .number run =>
    (∀ c ∈ run, Token.isNumberPart c) ∧ (∃ c ∈ run, c.isDigit) ∧ run.count '.' ≤ 1
  | .name run => Text.isName run
  | .operator c => Token.isOperator c
  | .comma => True

/-- Whether the lexeme would go on with a character behind it. -/
def takes : Lexeme → Char → Bool
  | .number _, c => Token.isNumberPart c
  | .name _, c => Text.isNamePart c
  | .operator _, _ | .comma, _ => false

/-- A name is a function first, then a constant, then a variable. -/
def named? (scope : Scope) (name : String) : Option Token :=
  if (Builtin.ofName? name).isSome then some (.func name)
  else if scope.constants.contains name then some (.const name)
  else if scope.vars.contains name then some (.var name)
  else none

theorem named?_cases {scope : Scope} {name : String} {t : Token} (h : named? scope name = some t) :
    t = .func name ∧ (Builtin.ofName? name).isSome ∨
      t = .const name ∧ scope.constants.contains name ∨
        t = .var name ∧ scope.vars.contains name := by
  unfold named? at h
  split at h
  · exact .inl ⟨(Option.some.inj h).symm, ‹_›⟩
  split at h
  · exact .inr (.inl ⟨(Option.some.inj h).symm, ‹_›⟩)
  split at h
  · exact .inr (.inr ⟨(Option.some.inj h).symm, ‹_›⟩)
  · cases h

/-- The token that a lexeme stands for, if the scope knows its name. -/
def token? (scope : Scope) : Lexeme → Option Token
  | .number run => some (.number (Numeral.ofRun run))
  | .name run => named? scope (String.ofList run)
  | .operator c => some (.op (String.singleton c))
  | .comma => some .separator

end Lexeme

/-- How a text falls into blanks and lexemes, with nothing left out and each lexeme as long as it
can be. -/
inductive Splits : List Char → List Lexeme → Prop
  | nil : Splits [] []
  | blank {c : Char} {cs : List Char} {ls : List Lexeme} (h : Text.isBlank c)
      (hrest : Splits cs ls) :
      Splits (c :: cs) ls
  | lexeme {l : Lexeme} {cs : List Char} {ls : List Lexeme} (h : l.WellFormed)
      (hlongest : ∀ c, cs.head? = some c → l.takes c = false) (hrest : Splits cs ls) :
      Splits (l.text ++ cs) (l :: ls)

theorem Splits.wellFormed {cs : List Char} {ls : List Lexeme} (h : Splits cs ls) :
    ∀ l ∈ ls, l.WellFormed := by
  induction h with
  | nil => exact List.forall_mem_nil _
  | blank _ _ ih => exact ih
  | lexeme hl _ _ ih => exact List.forall_mem_cons.2 ⟨hl, ih⟩

/-! ### The kinds of characters -/

namespace Token

theorem isNumberPart_iff {c : Char} :
    isNumberPart c ↔ 48 ≤ c.toNat ∧ c.toNat ≤ 57 ∨ c.toNat = 46 := by
  simp only [isNumberPart, Bool.or_eq_true, Char.isDigit_iff_toNat, beq_iff_eq, ← Char.toNat_inj]
  rfl

theorem isNameStart_iff {c : Char} :
    Text.isNameStart c ↔
      65 ≤ c.toNat ∧ c.toNat ≤ 90 ∨ 97 ≤ c.toNat ∧ c.toNat ≤ 122 ∨ c.toNat = 95 := by
  have halpha : c.isAlpha = (decide (c.val ≥ 65 ∧ c.val ≤ 90) ||
      (decide (c.val ≥ 97) && decide (c.val ≤ 122))) := rfl
  simp [Text.isNameStart, halpha, ← Char.toNat_inj, UInt32.le_iff_toNat_le, or_assoc]

theorem isOperator_iff {c : Char} :
    isOperator c ↔ c.toNat ∈ [43, 45, 42, 47, 94, 37, 33, 40, 41] := by
  simp [isOperator, ← Char.toNat_inj, or_assoc]

theorem isNameStart_disjoint {c : Char} (h : Text.isNameStart c) : isNumberPart c = false := by
  rw [← Bool.not_eq_true, isNumberPart_iff]
  rw [isNameStart_iff] at h
  omega

theorem isOperator_disjoint {c : Char} (h : isOperator c) :
    isNumberPart c = false ∧ Text.isNameStart c = false := by
  simp only [← Bool.not_eq_true, isNumberPart_iff, isNameStart_iff]
  simp only [isOperator_iff, List.mem_cons, List.not_mem_nil, or_false] at h
  omega

theorem isBlank_disjoint {c : Char} (h : Text.isBlank c) :
    isNumberPart c = false ∧ Text.isNameStart c = false ∧ isOperator c = false ∧ c ≠ ',' := by
  simp only [← Bool.not_eq_true, isNumberPart_iff, isNameStart_iff, isOperator_iff, List.mem_cons,
    List.not_mem_nil, or_false, ne_eq, ← Char.toNat_inj, Char.reduceToNat]
  simp only [Text.isBlank, Bool.or_eq_true, Bool.and_eq_true, decide_eq_true_eq, beq_iff_eq] at h
  omega

/-- No name goes on with a blank. -/
theorem isNamePart_of_isBlank {c : Char} (h : Text.isBlank c) : Text.isNamePart c = false := by
  obtain ⟨hnumber, hname, -, -⟩ := isBlank_disjoint h
  simp only [isNumberPart, Bool.or_eq_false_iff] at hnumber
  simp only [Text.isNameStart, Bool.or_eq_false_iff] at hname
  simp [Text.isNamePart, Char.isAlphanum, hnumber, hname]

theorem isBlank_eq_false_of_isName {cs : List Char} (h : Text.isName cs) :
    ∀ c ∈ cs, Text.isBlank c = false := by
  intro c hc
  have hpart := Text.isNamePart_of_isName h c hc
  rw [← Bool.not_eq_true]
  intro hblank
  simp [isNamePart_of_isBlank hblank] at hpart

end Token

/-! ### The longest run -/

section Run

variable {part : Char → Bool} {run cs : List Char}

theorem takeWhile_run (hrun : ∀ c ∈ run, part c) (hstop : ∀ c, cs.head? = some c → part c = false) :
    (run ++ cs).takeWhile part = run := by
  rw [List.takeWhile_append_of_pos hrun]
  cases cs with
  | nil => exact List.append_nil run
  | cons c cs => simp [hstop c rfl]

theorem dropWhile_run (hrun : ∀ c ∈ run, part c) (hstop : ∀ c, cs.head? = some c → part c = false) :
    (run ++ cs).dropWhile part = cs := by
  rw [List.dropWhile_append_of_pos hrun]
  cases cs with
  | nil => rfl
  | cons c cs => simp [hstop c rfl]

theorem head?_dropWhile_run (part : Char → Bool) (cs : List Char) :
    ∀ c, (cs.dropWhile part).head? = some c → part c = false := by
  intro c hc
  have hhead := List.head?_dropWhile_not part cs
  rw [hc] at hhead
  simpa using hhead

theorem forall_mem_run {c : Char} (hc : part c) (cs : List Char) :
    ∀ d ∈ c :: cs.takeWhile part, part d :=
  List.forall_mem_cons.2 ⟨hc, fun _ hd => List.mem_takeWhile_imp hd⟩

theorem Lexeme.wellFormed_name_run {c : Char} (hc : Text.isNameStart c) (cs : List Char) :
    (Lexeme.name (c :: cs.takeWhile Text.isNamePart)).WellFormed := by
  have hrun : ∀ d ∈ cs.takeWhile Text.isNamePart, Text.isNamePart d :=
    fun d hd => List.mem_takeWhile_imp hd
  simp only [WellFormed, Text.isName, hc, Bool.true_and, List.all_eq_true]
  exact hrun

end Run

/-! ### The one way to split -/

/-- Whether the lexeme can begin with a character. -/
def Lexeme.Starts : Lexeme → Char → Prop
  | .number _, c => Token.isNumberPart c
  | .name _, c => Text.isNameStart c
  | .operator _, c => Token.isOperator c
  | .comma, c => c = ','

theorem Lexeme.WellFormed.exists_text_eq_cons {l : Lexeme} (h : l.WellFormed) :
    ∃ c run, l.text = c :: run ∧ l.Starts c ∧ ∀ d ∈ run, l.takes d := by
  cases l with
  | number run =>
      obtain ⟨hparts, ⟨d, hd, -⟩, -⟩ := h
      cases run with
      | nil => simp at hd
      | cons c run =>
        exact ⟨c, run, rfl, hparts c List.mem_cons_self, fun d hd =>
          hparts d (List.mem_cons_of_mem c hd)⟩
  | name run =>
      cases run with
      | nil => simp [WellFormed, Text.isName] at h
      | cons c run =>
        have hname : Text.isNameStart c ∧ ∀ d ∈ run, Text.isNamePart d := by
          simpa [WellFormed, Text.isName] using h
        exact ⟨c, run, rfl, hname⟩
  | operator c => exact ⟨c, [], rfl, h, List.forall_mem_nil _⟩
  | comma => exact ⟨',', [], rfl, rfl, List.forall_mem_nil _⟩

theorem Lexeme.not_starts_of_isBlank {c : Char} (hblank : Text.isBlank c) (l : Lexeme) :
    ¬ l.Starts c := by
  obtain ⟨hnumber, hname, hoperator, hcomma⟩ := Token.isBlank_disjoint hblank
  cases l <;> simp [Starts, hnumber, hname, hoperator, hcomma]

/-- The kind of a lexeme can be told from the character that it begins with. -/
theorem Lexeme.kind_unique {l₁ l₂ : Lexeme} {c : Char} (h₁ : l₁.Starts c) (h₂ : l₂.Starts c) :
    l₁.takes = l₂.takes ∧ (l₁.text = l₂.text → l₁ = l₂) := by
  cases l₁ <;> cases l₂
  case number.number | name.name | operator.operator => exact ⟨rfl, by simp [text]⟩
  case comma.comma => exact ⟨rfl, fun _ => rfl⟩
  -- no two kinds can begin with the same character
  all_goals
    simp only [Starts, Token.isNumberPart_iff, Token.isNameStart_iff, Token.isOperator_iff,
      List.mem_cons, List.not_mem_nil, or_false, ← Char.toNat_inj, Char.reduceToNat] at h₁ h₂
    omega

theorem Splits.nil_inv {ls : List Lexeme} (h : Splits [] ls) : ls = [] := by
  generalize hcs : [] = cs at h
  cases h with
  | nil => rfl
  | blank => cases hcs
  | lexeme hl =>
      obtain ⟨c, run, hrun, -⟩ := hl.exists_text_eq_cons
      simp [hrun] at hcs

/-- What a character begins: a blank, or a lexeme with all that it takes behind. -/
theorem Splits.cons_inv {c : Char} {cs : List Char} {ls : List Lexeme} (h : Splits (c :: cs) ls) :
    Text.isBlank c ∧ Splits cs ls ∨
      ∃ l ls', ls = l :: ls' ∧ l.Starts c ∧ l.text = c :: cs.takeWhile l.takes ∧
        Splits (cs.dropWhile l.takes) ls' := by
  generalize hcs : c :: cs = text at h
  cases h with
  | nil => cases hcs
  | blank hblank hrest =>
      obtain ⟨rfl, rfl⟩ := List.cons.inj hcs
      exact .inl ⟨hblank, hrest⟩
  | @lexeme l rest ls' hl hlongest hrest =>
      obtain ⟨d, run, hrun, hstarts, htakes⟩ := hl.exists_text_eq_cons
      rw [hrun, List.cons_append] at hcs
      obtain ⟨rfl, rfl⟩ := List.cons.inj hcs
      refine .inr ⟨l, ls', rfl, hstarts, ?_, ?_⟩
      · rw [takeWhile_run htakes hlongest, hrun]
      · rwa [dropWhile_run htakes hlongest]

/-- A text falls into blanks and lexemes in one way only. -/
theorem Splits.unique {cs : List Char} {ls₁ ls₂ : List Lexeme} (h₁ : Splits cs ls₁)
    (h₂ : Splits cs ls₂) : ls₁ = ls₂ := by
  induction h₁ generalizing ls₂ with
  | nil => exact h₂.nil_inv.symm
  | blank hblank _ ih =>
      rcases h₂.cons_inv with ⟨-, h₂⟩ | ⟨l, -, -, hstarts, -⟩
      · exact ih h₂
      · exact absurd hstarts (l.not_starts_of_isBlank hblank)
  | @lexeme l rest _ hl hlongest _ ih =>
      obtain ⟨c, run, hrun, hstarts, htakes⟩ := hl.exists_text_eq_cons
      rw [hrun, List.cons_append] at h₂
      rcases h₂.cons_inv with ⟨hblank, -⟩ | ⟨l₂, ls₂, rfl, hstarts₂, htext₂, h₂⟩
      · exact absurd hstarts (l.not_starts_of_isBlank hblank)
      obtain ⟨hkind, heq⟩ := Lexeme.kind_unique hstarts hstarts₂
      rw [← hkind, takeWhile_run htakes hlongest, ← hrun] at htext₂
      rw [← hkind, dropWhile_run htakes hlongest] at h₂
      rw [heq htext₂.symm, ih h₂]

end Reckoner
