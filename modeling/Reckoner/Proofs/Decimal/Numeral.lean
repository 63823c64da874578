import Mathlib.Data.List.TakeDrop
import Reckoner.Proofs.Text.Blank
import Reckoner.Value

/-!
Blanks around a numeral. No character of a numeral is blank, not even one of those that do not count
among its margins; so a text denotes the same double if the blanks around it are left out.
-/

namespace Reckoner

open Text (isBlank strip)

namespace Numeral

/-! ### No part of a numeral is blank -/

/-- The code points of blanks. -/
def blankCodes : List Nat :=
  [0x9, 0xA, 0xB, 0xC, 0xD, 0x1C, 0x1D, 0x1E, 0x1F, 0x20, 0x85, 0xA0, 0x1680, 0x2000, 0x2001, 0x2002,
    0x2003, 0x2004, 0x2005, 0x2006, 0x2007, 0x2008, 0x2009, 0x200A, 0x2028, 0x2029, 0x202F, 0x205F,
    0x3000]

theorem toNat_mem_blankCodes {c : Char} (h : isBlank c) : c.toNat ∈ blankCodes := by
  simp only [isBlank, Bool.or_eq_true, Bool.and_eq_true, decide_eq_true_eq, beq_iff_eq] at h
  simp only [blankCodes, List.mem_cons, List.not_mem_nil, or_false]
  omega

/-- A blank is no digit and no letter, and is changed neither before a numeral is read nor to compare
its words. -/
theorem plain_of_isBlank {c : Char} (h : isBlank c) :
    plainDigit c = c ∧ c.toLower = c ∧ c.isDigit = false ∧ c.isAlpha = false := by
  have hall : ∀ n ∈ blankCodes, plainDigit (Char.ofNat n) = Char.ofNat n ∧
      (Char.ofNat n).toLower = Char.ofNat n ∧ (Char.ofNat n).isDigit = false ∧
        (Char.ofNat n).isAlpha = false := by
    decide
  simpa using hall c.toNat (toNat_mem_blankCodes h)

theorem isBlank_of_isDigit {c : Char} (h : c.isDigit) : isBlank c = false := by
  rw [← Bool.not_eq_true]
  intro hblank
  simp [(plain_of_isBlank hblank).2.2.1] at h

/-- A text none of whose characters is blank. -/
def Solid (cs : List Char) : Prop := ∀ c ∈ cs, isBlank c = false

theorem Solid.cons {c : Char} {cs : List Char} (hc : isBlank c = false) (h : Solid cs) :
    Solid (c :: cs) := List.forall_mem_cons.2 ⟨hc, h⟩

theorem Solid.append {cs ds : List Char} (hcs : Solid cs) (hds : Solid ds) : Solid (cs ++ ds) :=
  List.forall_mem_append.2 ⟨hcs, hds⟩

theorem solid_of_digits {cs : List Char} (h : ∀ c ∈ cs, c.isDigit) : Solid cs :=
  fun c hc => isBlank_of_isDigit (h c hc)

theorem solid_of_sign {cs : List Char} (h : Solid (sign cs).2) : Solid cs := by
  unfold sign at h
  split at h
  · exact .cons (by decide) h
  · exact .cons (by decide) h
  · exact h

theorem solid_of_power? {cs : List Char} {k : Int} (h : power? cs = some k) : Solid cs := by
  cases cs with
  | nil => exact List.forall_mem_nil _
  | cons c cs =>
    have hpower : power? (c :: cs) =
        if c = 'e' || c = 'E' then
          if (sign cs).2.isEmpty || !(sign cs).2.all Char.isDigit then none
          else some (if (sign cs).1 then -(ofDigits (sign cs).2 : Int) else ofDigits (sign cs).2)
        else none := rfl
    rw [hpower] at h
    split at h
    case isFalse => cases h
    case isTrue hc =>
      split at h
      case isTrue => cases h
      case isFalse hdigits =>
        have hsolid : isBlank c = false := by
          rcases Bool.or_eq_true_iff.1 hc with he | he
          · rw [of_decide_eq_true he]
            decide
          · rw [of_decide_eq_true he]
            decide
        have hall : (sign cs).2.all Char.isDigit := by
          simp only [Bool.or_eq_true, Bool.not_eq_true', not_or, Bool.not_eq_false] at hdigits
          exact hdigits.2
        exact .cons hsolid (solid_of_sign (solid_of_digits (List.all_eq_true.1 hall)))

theorem solid_of_fraction {cs : List Char} (h : Solid (fraction cs).2) : Solid cs := by
  unfold fraction at h
  split at h
  case h_1 cs =>
    rw [List.span_eq_takeWhile_dropWhile] at h
    rw [← List.takeWhile_append_dropWhile (p := Char.isDigit) (l := cs)]
    exact .cons (by decide) ((solid_of_digits fun _ hd => List.mem_takeWhile_imp hd).append h)
  case h_2 => exact h

theorem solid_of_decimal? {cs : List Char} {x : Float} (h : decimal? cs = some x) : Solid cs := by
  unfold decimal? at h
  rw [List.span_eq_takeWhile_dropWhile] at h
  simp only at h
  split at h
  case isTrue => cases h
  case isFalse =>
    obtain ⟨k, hk, -⟩ := Option.map_eq_some_iff.1 h
    have hrest := solid_of_fraction (solid_of_power? hk)
    have hwhole : Solid (cs.takeWhile Char.isDigit) :=
      solid_of_digits fun _ hd => List.mem_takeWhile_imp hd
    have hboth := hwhole.append hrest
    rwa [List.takeWhile_append_dropWhile] at hboth

/-- A word is solid, whether its letters are small or not. -/
theorem solid_of_lower {cs : List Char} (letters : List Char)
    (h : String.ofList (cs.map Char.toLower) = String.ofList letters)
    (hletters : letters.all Char.isAlpha) : Solid cs := by
  intro c hc
  rw [← Bool.not_eq_true]
  intro hblank
  obtain ⟨-, hlower, -, halpha⟩ := plain_of_isBlank hblank
  have hmem : c.toLower ∈ letters := by
    rw [← String.ofList_inj.1 h]
    exact List.mem_map_of_mem hc
  rw [hlower] at hmem
  simp [List.all_eq_true.1 hletters c hmem] at halpha

theorem solid_of_magnitude? {cs : List Char} {x : Float} (h : magnitude? cs = some x) :
    Solid cs := by
  unfold magnitude? at h
  simp only at h
  split at h
  case isTrue hword =>
    rcases Bool.or_eq_true_iff.1 hword with hword | hword
    · exact solid_of_lower ['i', 'n', 'f'] (of_decide_eq_true hword) (by decide)
    · exact solid_of_lower ['i', 'n', 'f', 'i', 'n', 'i', 't', 'y']
        (of_decide_eq_true hword) (by decide)
  case isFalse =>
    split at h
    case isTrue hword => exact solid_of_lower ['n', 'a', 'n'] hword (by decide)
    case isFalse => exact solid_of_decimal? h

theorem solid_of_ungroup {before : Bool} {cs ds : List Char} (h : ungroup before cs = some ds)
    (hds : Solid ds) : Solid cs := by
  fun_induction ungroup before cs generalizing ds with
  | case1 => exact List.forall_mem_nil _
  | case2 before d cs hd ih =>
      obtain ⟨es, hes, rfl⟩ := Option.map_eq_some_iff.1 h
      obtain ⟨hsolid, hrest⟩ := List.forall_mem_cons.1 hds
      exact .cons (by decide) (.cons hsolid (ih hes hrest))
  | case3 | case4 => cases h
  | case5 before c cs _ _ ih =>
      obtain ⟨es, hes, rfl⟩ := Option.map_eq_some_iff.1 h
      obtain ⟨hsolid, hrest⟩ := List.forall_mem_cons.1 hds
      exact .cons hsolid (ih hes hrest)

theorem solid_of_real? {s : String} {x : Float} (h : real? s = some x) :
    Solid (strip isMargin s.toList) := by
  obtain ⟨cs, hungroup, h⟩ := Option.bind_eq_some_iff.1 h
  obtain ⟨y, hmagnitude, -⟩ := Option.bind_eq_some_iff.1 h
  have hplain : Solid (plain s) :=
    solid_of_ungroup hungroup (solid_of_sign (solid_of_magnitude? hmagnitude))
  intro c hc
  rw [← Bool.not_eq_true]
  intro hblank
  have hmem : c ∈ plain s := by
    rw [← (plain_of_isBlank hblank).1]
    exact List.mem_map_of_mem hc
  simp [hplain c hmem] at hblank

/-! ### Blanks around -/

theorem isBlank_of_isMargin {c : Char} (h : isMargin c) : isBlank c :=
  (Bool.and_eq_true_iff.1 h).1

theorem strip_isBlank {cs : List Char} (h : Solid (strip isMargin cs)) :
    strip isBlank cs = strip isMargin cs := by
  obtain ⟨front, back, hcs, hfront, hback⟩ := Text.exists_eq_append_strip isMargin cs
  generalize strip isMargin cs = core at h hcs
  rw [hcs]
  exact Text.strip_append_append (fun c hc => isBlank_of_isMargin (hfront c hc)) h
    fun c hc => isBlank_of_isMargin (hback c hc)

theorem Solid.strip_isMargin {cs : List Char} (h : Solid cs) : strip isMargin cs = cs := by
  refine Text.strip_eq_self fun c hc => ?_
  simp [isMargin, h c hc]

/-- A numeral is found without the blanks around it. -/
theorem real?_trim {s : String} {x : Float} (h : real? s = some x) :
    real? (Text.trim s) = some x := by
  have hsolid := solid_of_real? h
  have hplain : plain (Text.trim s) = plain s := by
    unfold plain Text.trim
    rw [String.toList_ofList, strip_isBlank hsolid, hsolid.strip_isMargin]
  rw [← h, real?, real?, hplain]

end Numeral

theorem Value.ofText_cases (s : String) :
    (∃ x, ofText s = .ok x) ∨ ofText s = .error (.malformed s) := by
  unfold ofText
  cases Numeral.real? s with
  | none => exact .inr rfl
  | some x => exact .inl ⟨x, rfl⟩

/-- A text that denotes a double does so without the blanks around it. -/
theorem Value.ofText_trim {s : String} {x : Float} (h : ofText s = .ok x) :
    ofText (Text.trim s) = .ok x := by
  unfold ofText at h ⊢
  cases hreal : Numeral.real? s with
  | none => simp [hreal] at h
  | some y =>
    rw [hreal] at h
    rw [Numeral.real?_trim hreal]
    exact h

end Reckoner
