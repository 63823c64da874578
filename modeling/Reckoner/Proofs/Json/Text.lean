import Reckoner.Json
import Reckoner.Proofs.Decimal.Plain

/-!
Strings of JSON texts. They are read as UTF-16 units, since the escapes of a string are such units, and
the units of a text stand for that text alone.
-/

namespace Reckoner.Json

open Text (isPlain ofHex?)
open Text.Quoted (hex ofHex?_hex)

/-! ### UTF-16 -/

/-- A unit that stands for a character by itself; half of a pair has none but the replacement character. -/
def ofUnit (u : Nat) : Char := if 0xD800 ≤ u ∧ u < 0xE000 then '\ufffd' else Char.ofNat u

/-- The characters that units stand for. -/
def ofUnits : List Nat → List Char
  | [] => []
  | [u] => [ofUnit u]
  | u :: v :: us =>
    if 0xD800 ≤ u ∧ u < 0xDC00 ∧ 0xDC00 ≤ v ∧ v < 0xE000 then
      Char.ofNat (0x10000 + (u - 0xD800) * 0x400 + (v - 0xDC00)) :: ofUnits us
    else ofUnit u :: ofUnits (v :: us)

theorem toNat_cases (c : Char) : c.toNat < 0xD800 ∨ 0xDFFF < c.toNat ∧ c.toNat < 0x110000 := c.valid

theorem ofUnits_units (c : Char) (us : List Nat) : ofUnits (units c ++ us) = c :: ofUnits us := by
  have hvalid := toNat_cases c
  simp only [units]
  split
  case isTrue hsmall =>
    have hunit : ofUnit c.toNat = c := by
      rw [ofUnit, if_neg (by omega), Char.ofNat_toNat]
    cases us with
    | nil => simp [ofUnits, hunit]
    | cons v us =>
      have hsingle : ¬(0xD800 ≤ c.toNat ∧ c.toNat < 0xDC00 ∧ 0xDC00 ≤ v ∧ v < 0xE000) := by omega
      rw [List.cons_append, List.nil_append, ofUnits, if_neg hsingle, hunit]
  case isFalse hlarge =>
    have hpair : 0x10000 + (0xD800 + (c.toNat - 0x10000) / 0x400 - 0xD800) * 0x400 +
        (0xDC00 + (c.toNat - 0x10000) % 0x400 - 0xDC00) = c.toNat := by omega
    rw [List.cons_append, List.cons_append, List.nil_append, ofUnits, if_pos (by omega), hpair,
      Char.ofNat_toNat]

theorem ofUnits_flatMap_units (cs : List Char) : ofUnits (cs.flatMap units) = cs := by
  induction cs with
  | nil => rfl
  | cons c cs ih => rw [List.flatMap_cons, ofUnits_units, ih]

theorem lt_of_mem_units {c : Char} {u : Nat} (h : u ∈ units c) : u < 0x10000 := by
  have hvalid := toNat_cases c
  simp only [units] at h
  split at h
  · rw [List.mem_singleton.1 h]
    assumption
  · simp only [List.mem_cons, List.not_mem_nil, or_false] at h
    omega

/-! ### Escapes -/

/-- The unit that a letter behind a backslash stands for, if it is no code that follows. -/
def named? (letter : Char) : Option Nat :=
  if letter = '"' || letter = '\\' || letter = '/' then some letter.toNat
  else if letter = 'b' then some 0x8
  else if letter = 'f' then some 0xC
  else if letter = 'n' then some 0xA
  else if letter = 'r' then some 0xD
  else if letter = 't' then some 0x9
  else none

/-- The units of a string up to the quote that ends it, and what follows the quote. Control characters
have to be escaped. -/
def readUnits : List Char → Option (List Nat × List Char)
  | [] => none
  | '"' :: cs => some ([], cs)
  | '\\' :: 'u' :: d₁ :: d₂ :: d₃ :: d₄ :: cs => do
    let u ← ofHex? [d₁, d₂, d₃, d₄]
    (readUnits cs).map fun (us, rest) => (u :: us, rest)
  | '\\' :: letter :: cs => do
    let u ← named? letter
    (readUnits cs).map fun (us, rest) => (u :: us, rest)
  | c :: cs =>
    if c = '\\' || c.toNat < 0x20 then none
    else (readUnits cs).map fun (us, rest) => (units c ++ us, rest)

/-- The text of a string behind its first quote, and what follows the string. -/
def readText (cs : List Char) : Option (String × List Char) :=
  (readUnits cs).map fun (us, rest) => (String.ofList (ofUnits us), rest)

/-- The ways in which a character is written in a string. -/
theorem escape_cases (c : Char) :
    (∃ letter ∈ ['"', '\\', 'n', 'r', 't', 'f', 'b'], escape c = ['\\', letter] ∧
      (named? letter).map ([·]) = some (units c)) ∨
    (escape c = [c] ∧ isPlain c ∧ c ≠ '"' ∧ c ≠ '\\') ∨
    escape c = (units c).flatMap fun u => '\\' :: 'u' :: hex 4 u := by
  unfold escape
  split
  case isTrue hself =>
    rcases Bool.or_eq_true_iff.1 hself with h | h
    · obtain rfl := of_decide_eq_true h
      exact .inl ⟨'"', by decide, rfl, rfl⟩
    · obtain rfl := of_decide_eq_true h
      exact .inl ⟨'\\', by decide, rfl, rfl⟩
  case isFalse hself =>
    obtain ⟨hquote, hslash⟩ : c ≠ '"' ∧ c ≠ '\\' := by simpa using hself
    split
    case isTrue h => exact .inl ⟨'n', by decide, rfl, h ▸ rfl⟩
    case isFalse =>
      split
      case isTrue h => exact .inl ⟨'r', by decide, rfl, h ▸ rfl⟩
      case isFalse =>
        split
        case isTrue h => exact .inl ⟨'t', by decide, rfl, h ▸ rfl⟩
        case isFalse =>
          split
          case isTrue h => exact .inl ⟨'f', by decide, rfl, h ▸ rfl⟩
          case isFalse =>
            split
            case isTrue h => exact .inl ⟨'b', by decide, rfl, h ▸ rfl⟩
            case isFalse =>
              split
              case isTrue hplain => exact .inr (.inl ⟨rfl, hplain, hquote, hslash⟩)
              case isFalse => exact .inr (.inr rfl)

/-- Strings are written in printable ASCII. -/
theorem isPlain_escape {c d : Char} (h : d ∈ escape c) : isPlain d := by
  rcases escape_cases c with ⟨letter, hletter, hc, -⟩ | ⟨hc, hplain, -⟩ | hc
  · have hall : ['"', '\\', 'n', 'r', 't', 'f', 'b'].all isPlain = true := by decide
    rw [hc] at h
    rcases List.mem_cons.1 h with rfl | h
    · decide
    · rw [List.mem_singleton.1 h]
      exact List.all_eq_true.1 hall letter hletter
  · rw [hc] at h
    rw [List.mem_singleton.1 h]
    exact hplain
  · rw [hc] at h
    obtain ⟨u, -, h⟩ := List.mem_flatMap.1 h
    rcases List.mem_cons.1 h with rfl | h
    · decide
    rcases List.mem_cons.1 h with rfl | h
    · decide
    exact Text.Quoted.isPlain_hex h

theorem plain_text (s : String) : Text.Plain (text s) := by
  have hquote : isPlain '"' := by decide
  rw [text, Text.plain_ofList, List.cons_append, List.forall_mem_cons, List.forall_mem_append,
    List.forall_mem_singleton]
  refine ⟨hquote, fun d hd => ?_, hquote⟩
  obtain ⟨c, -, hd⟩ := List.mem_flatMap.1 hd
  exact isPlain_escape hd

theorem readUnits_code {u : Nat} (h : u < 0x10000) (cs : List Char) :
    readUnits ('\\' :: 'u' :: hex 4 u ++ cs) =
      (readUnits cs).map fun (us, rest) => (u :: us, rest) := by
  have hcode : ofHex? (hex 4 u) = some u := ofHex?_hex h
  have hlength := Text.Quoted.length_hex 4 u
  generalize hex 4 u = ds at hcode hlength
  match ds, hlength with
  | [d₁, d₂, d₃, d₄], _ =>
    simp only [List.cons_append, List.nil_append, readUnits, hcode]
    rfl

theorem readUnits_codes {us : List Nat} (h : ∀ u ∈ us, u < 0x10000) (cs : List Char) :
    readUnits (us.flatMap (fun u => '\\' :: 'u' :: hex 4 u) ++ cs) =
      (readUnits cs).map fun (vs, rest) => (us ++ vs, rest) := by
  induction us with
  | nil => simp
  | cons u us ih =>
    obtain ⟨hu, hus⟩ := List.forall_mem_cons.1 h
    rw [List.flatMap_cons, List.append_assoc, readUnits_code hu, ih hus, Option.map_map]
    rfl

/-- Each character is read back from what is written for it. -/
theorem readUnits_escape (c : Char) (cs : List Char) :
    readUnits (escape c ++ cs) = (readUnits cs).map fun (us, rest) => (units c ++ us, rest) := by
  rcases escape_cases c with ⟨letter, hletter, hc, hnamed⟩ | ⟨hc, hplain, hquote, hslash⟩ | hc
  · obtain ⟨u, hu, hunits⟩ := Option.map_eq_some_iff.1 hnamed
    have hcode : letter ≠ 'u' := by
      rintro rfl
      simp at hletter
    rw [hc, ← hunits, List.cons_append, List.cons_append, List.nil_append, readUnits]
    · rw [hu]
      rfl
    · simp [hcode]
  · have hlow : ¬c.toNat < 0x20 := by
      have := Text.isPlain_iff.1 hplain
      omega
    rw [hc, List.cons_append, List.nil_append, readUnits]
    · simp [hslash, hlow]
    all_goals simp [hquote, hslash]
  · rw [hc]
    exact readUnits_codes (fun u => lt_of_mem_units) cs

/-- A text is read back from the string that is written for it. -/
theorem readText_text (s : String) (rest : List Char) :
    ∃ cs, (text s).toList = '"' :: cs ∧ readText (cs ++ rest) = some (s, rest) := by
  have hread (cs : List Char) :
      readUnits (cs.flatMap escape ++ '"' :: rest) = some (cs.flatMap units, rest) := by
    induction cs with
    | nil => rfl
    | cons c cs ih =>
      rw [List.flatMap_cons, List.append_assoc, readUnits_escape, ih]
      rfl
  refine ⟨s.toList.flatMap escape ++ ['"'], by rw [text, String.toList_ofList, List.cons_append], ?_⟩
  rw [readText, List.append_assoc, List.singleton_append, hread, Option.map_some]
  simp only [ofUnits_flatMap_units, String.ofList_toList]

/-! ### Whole texts are plain -/

theorem plain_number (x : Float) : Text.Plain (number x) := by
  unfold number
  split
  · decide
  · split
    · split
      · decide
      · decide
    · exact Decimal.plain_shortestText x

theorem plain_field (f : Field) : Text.Plain (field f) := by
  cases f with
  | truth b => cases b <;> decide
  | number x => exact plain_number x
  | text s => exact plain_text s

theorem plain_object (fields : List (String × Field)) : Text.Plain (object fields) := by
  have hmembers : ∀ members : List (List Char), (∀ m ∈ members, ∀ c ∈ m, isPlain c) →
      ∀ c ∈ [',', ' '].intercalate members, isPlain c := by
    intro members hmembers
    induction members with
    | nil => exact List.forall_mem_nil _
    | cons m members ih =>
      obtain ⟨hm, hrest⟩ := List.forall_mem_cons.1 hmembers
      cases members with
      | nil =>
        rw [List.intercalate_singleton]
        exact hm
      | cons m' members =>
        rw [List.intercalate_cons_cons, List.forall_mem_append, List.forall_mem_append]
        exact ⟨⟨hm, List.all_eq_true.1 rfl⟩, ih hrest⟩
  unfold object
  simp only [Text.plain_append]
  refine ⟨⟨by decide, ?_⟩, by decide⟩
  rw [Text.Plain, String.toList_intercalate]
  refine hmembers _ fun m hm => ?_
  obtain ⟨member, hmember, rfl⟩ := List.mem_map.1 hm
  obtain ⟨⟨name, f⟩, -, rfl⟩ := List.mem_map.1 hmember
  exact Text.plain_append.2 ⟨Text.plain_append.2 ⟨plain_text name, by decide⟩, plain_field f⟩

end Reckoner.Json
