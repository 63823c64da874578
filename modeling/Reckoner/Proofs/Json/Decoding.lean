import Reckoner.Proofs.Json.Grammar

/-!
Reports are decoded to the fields they are made of. A report with an infinity or with what is no number
needs the words for it, and is no JSON text.
-/

namespace Reckoner

namespace Json

variable {extended : Bool} {fuel : ℕ} {rest : List Char}

def datum : Field → Datum
  | .truth b => .truth b
  | .number x => .number x
  | .text s => .text s

/-- Whether there is a text for a field. -/
def legible (extended : Bool) : Field → Bool
  | .number x => extended || x.isFinite
  | .truth _ | .text _ => true

/-! ### Fields -/

/-- Characters at which a value starts that is no number and no word, and blanks. -/
def isMark (c : Char) : Bool := isBlank c || c = '"' || c = '[' || c = '\x7b'

theorem readValue_scalar {c : Char} {cs : List Char} (hc : isMark c = false) :
    readValue extended (fuel + 1) (c :: cs) = readScalar extended (c :: cs) := by
  simp only [isMark, Bool.or_eq_false_iff, decide_eq_false_iff_not] at hc
  obtain ⟨⟨⟨hblank, hquote⟩, hbracket⟩, hbrace⟩ := hc
  have hskip : skip (c :: cs) = c :: cs := by simp [skip, hblank]
  rw [readValue]
  simp only [hskip]
  split
  all_goals simp_all

theorem readMembers_blank (cs : List Char) :
    readMembers extended fuel (' ' :: cs) = readMembers extended fuel cs := by
  cases fuel with
  | zero => rfl
  | succ fuel => rw [readMembers, readMembers]; rfl

theorem readValue_blank (cs : List Char) :
    readValue extended fuel (' ' :: cs) = readValue extended fuel cs := by
  cases fuel with
  | zero => rfl
  | succ fuel => rw [readValue, readValue]; rfl

/-- A number starts with a digit or a minus. -/
theorem exists_head_of_readNumber {cs : List Char} {read : Float × List Char}
    (h : readNumber cs = some read) : ∃ c cs', cs = c :: cs' ∧ (c = '-' ∨ c.isDigit = true) := by
  cases cs with
  | nil => cases h
  | cons c cs' =>
    refine ⟨c, cs', rfl, ?_⟩
    by_contra! hnot
    obtain ⟨hminus, hdigit⟩ := hnot
    rw [readNumber_eq_none hminus (Bool.eq_false_of_not_eq_true hdigit)] at h
    cases h

theorem isMark_of_head {c : Char} (h : c = '-' ∨ c.isDigit = true) : isMark c = false := by
  rcases h with rfl | h
  · rfl
  · by_contra hmark
    simp only [isMark, isBlank, Bool.not_eq_false, Bool.or_eq_true, decide_eq_true_eq, or_assoc] at hmark
    rcases hmark with rfl | rfl | rfl | rfl | rfl | rfl | rfl <;> exact absurd h (by decide)

theorem readValue_word {c : Char} {cs : List Char} (hmark : isMark c = false)
    (hnumber : readNumber (c :: cs) = none) :
    readValue extended (fuel + 1) (c :: cs) =
      (words extended).findSome? fun (word, d) => ((c :: cs).dropPrefix? word).map (d, ·) := by
  rw [readValue_scalar hmark, readScalar, hnumber]

theorem readValue_truth (b : Bool) :
    readValue extended (fuel + 1) ((field (.truth b)).toList ++ rest) = some (.truth b, rest) := by
  cases b with
  | true =>
    have htext : (field (.truth true)).toList ++ rest = 't' :: 'r' :: 'u' :: 'e' :: rest := rfl
    rw [htext, readValue_word rfl (readNumber_eq_none (by decide) (by decide) _)]
    cases extended <;> simp [words, List.dropPrefix?]
  | false =>
    have htext : (field (.truth false)).toList ++ rest = 'f' :: 'a' :: 'l' :: 's' :: 'e' :: rest := rfl
    rw [htext, readValue_word rfl (readNumber_eq_none (by decide) (by decide) _)]
    cases extended <;> simp [words, List.dropPrefix?]

theorem readValue_nan : readValue extended (fuel + 1) ('N' :: 'a' :: 'N' :: rest) =
    if extended then some (.number Binary64.nan, rest) else none := by
  rw [readValue_word rfl (readNumber_eq_none (by decide) (by decide) _)]
  cases extended <;> simp [words, List.dropPrefix?]

theorem readValue_infinity :
    readValue extended (fuel + 1) ('I' :: 'n' :: 'f' :: 'i' :: 'n' :: 'i' :: 't' :: 'y' :: rest) =
      if extended then some (.number Binary64.infinity, rest) else none := by
  rw [readValue_word rfl (readNumber_eq_none (by decide) (by decide) _)]
  cases extended <;> simp [words, List.dropPrefix?]

theorem readValue_negative_infinity :
    readValue extended (fuel + 1) ('-' :: 'I' :: 'n' :: 'f' :: 'i' :: 'n' :: 'i' :: 't' :: 'y' :: rest) =
      if extended then some (.number (-Binary64.infinity), rest) else none := by
  have hnumber (cs : List Char) : readNumber ('-' :: 'I' :: cs) = none := by
    rw [readNumber, readMagnitude_eq_none (by decide)]
    rfl
  rw [readValue_word rfl (hnumber _)]
  cases extended <;> simp [words, List.dropPrefix?]

theorem number_nan : number Binary64.nan = "NaN" := by with_unfolding_all rfl

theorem number_infinity : number Binary64.infinity = "Infinity" := by with_unfolding_all rfl

theorem number_neg_infinity : number (-Binary64.infinity) = "-Infinity" := by with_unfolding_all rfl

theorem number_of_isFinite {x : Float} (hx : x.isFinite = true) : number x = Decimal.shortestText x := by
  obtain ⟨q, hq⟩ := Binary64.isFinite_iff.1 hx
  rw [number, hq.isNaN_eq_false, hq.isInf_eq_false, if_neg Bool.false_ne_true, if_neg Bool.false_ne_true]

theorem readValue_number (x : Float) (hrest : Over rest) :
    readValue extended (fuel + 1) ((number x).toList ++ rest) =
      if extended || x.isFinite then some (.number x, rest) else none := by
  rcases Binary64.nan_or_infinity_or_finite x with rfl | ⟨s, rfl⟩ | hx
  · have hfinite : Binary64.nan.isFinite = false := rfl
    rw [number_nan, hfinite, Bool.or_false]
    exact readValue_nan
  · have hfinite : (Binary64.signedInfinity s).isFinite = false := by cases s <;> rfl
    rw [hfinite, Bool.or_false]
    cases s with
    | positive =>
      rw [Binary64.signedInfinity, number_infinity]
      exact readValue_infinity
    | negative =>
      rw [Binary64.signedInfinity, number_neg_infinity]
      exact readValue_negative_infinity
  · have hread := readNumber_shortestText hx hrest
    obtain ⟨c, cs, hcs, hc⟩ := exists_head_of_readNumber hread
    rw [number_of_isFinite hx, hx, Bool.or_true, if_pos rfl]
    rw [hcs] at hread ⊢
    rw [readValue_scalar (isMark_of_head hc), readScalar, hread]

/-- A field is read back from its text. -/
theorem readValue_field (f : Field) (hrest : Over rest) :
    readValue extended (fuel + 1) ((field f).toList ++ rest) =
      if legible extended f then some (datum f, rest) else none := by
  cases f with
  | truth b => exact readValue_truth b
  | number x => exact readValue_number x hrest
  | text s =>
    obtain ⟨cs, hcs, hread⟩ := readText_text s rest
    have hskip : skip ('"' :: (cs ++ rest)) = '"' :: (cs ++ rest) := rfl
    show readValue extended (fuel + 1) ((text s).toList ++ rest) = some (.text s, rest)
    rw [hcs, List.cons_append, readValue]
    simp only [hskip, hread, Option.map_some]

/-! ### Objects -/

/-- A member of an object in characters. -/
def member (m : String × Field) : List Char := (text m.1 ++ ": " ++ field m.2).toList

/-- A member is read back up to the comma or the brace behind it. -/
theorem readMembers_member (m : String × Field) (hrest : Over rest) :
    readMembers extended (fuel + 1) (member m ++ rest) =
      match fuel with
      | 0 => none
      | fuel + 1 =>
        if legible extended m.2 then
          match skip rest with
          | ',' :: cs =>
            (readMembers extended (fuel + 1) cs).map fun (members, rest) =>
              ((m.1, datum m.2) :: members, rest)
          | '\x7d' :: rest => some ([(m.1, datum m.2)], rest)
          | _ => none
        else none := by
  obtain ⟨cs, hcs, hread⟩ := readText_text m.1 (':' :: ' ' :: ((field m.2).toList ++ rest))
  have htext : member m ++ rest = '"' :: (cs ++ ':' :: ' ' :: ((field m.2).toList ++ rest)) := by
    simp [member, hcs]
  have hskip (cs : List Char) : skip ('"' :: cs) = '"' :: cs := rfl
  have hcolon (cs : List Char) : skip (':' :: cs) = ':' :: cs := rfl
  rw [htext, readMembers]
  simp only [hskip, hread, hcolon, Option.bind_eq_bind, Option.bind_some, readValue_blank]
  cases fuel with
  | zero => rfl
  | succ fuel =>
    rw [readValue_field m.2 hrest]
    split
    · rfl
    · rfl

def entry (m : String × Field) : String × Datum := (m.1, datum m.2)

theorem over_comma : Over (',' :: rest) := by
  rintro c ⟨⟩
  decide

theorem over_brace : Over ('\x7d' :: rest) := by
  rintro c ⟨⟩
  decide

/-- Members are read back where there is a text for each of them and fuel for all of them. -/
theorem readMembers_members (m : String × Field) (ms : List (String × Field)) (fuel : ℕ) :
    readMembers extended fuel ([',', ' '].intercalate ((m :: ms).map member) ++ '\x7d' :: rest) =
      if ms.length + 1 < fuel ∧ ∀ m' ∈ m :: ms, legible extended m'.2 = true then
        some ((m :: ms).map entry, rest)
      else none := by
  induction ms generalizing m fuel with
  | nil =>
    rw [List.map_singleton, List.intercalate_singleton]
    match fuel with
    | 0 => rfl
    | 1 => rw [readMembers_member m over_brace]; rfl
    | fuel + 2 =>
      have hskip : skip ('\x7d' :: rest) = '\x7d' :: rest := rfl
      rw [readMembers_member m over_brace]
      simp only [hskip]
      simp [entry]
  | cons m' ms ih =>
    rw [List.map_cons, List.map_cons, List.intercalate_cons_cons, List.append_assoc, List.append_assoc]
    match fuel with
    | 0 => rfl
    | 1 => rw [List.cons_append, readMembers_member m over_comma]; simp
    | fuel + 2 =>
      have hskip (cs : List Char) : skip (',' :: cs) = ',' :: cs := rfl
      rw [List.cons_append, readMembers_member m over_comma]
      simp only [hskip, List.cons_append, List.nil_append, readMembers_blank]
      have hall : (∀ p ∈ m :: m' :: ms, legible extended p.2 = true) ↔
          legible extended m.2 = true ∧ ∀ p ∈ m' :: ms, legible extended p.2 = true :=
        List.forall_mem_cons
      rw [← List.map_cons, ih m' (fuel + 1)]
      by_cases hm : legible extended m.2 = true
      · by_cases hms : ms.length + 1 < fuel + 1 ∧ ∀ p ∈ m' :: ms, legible extended p.2 = true
        · rw [if_pos hm, if_pos hms, if_pos ⟨Nat.succ_lt_succ hms.1, hall.2 ⟨hm, hms.2⟩⟩]
          rfl
        · rw [if_pos hm, if_neg hms,
            if_neg fun h => hms ⟨Nat.lt_of_succ_lt_succ h.1, (hall.1 h.2).2⟩]
          rfl
      · rw [if_neg hm, if_neg fun h => hm (hall.1 h.2).1]

theorem toList_object (fields : List (String × Field)) :
    (object fields).toList = '\x7b' :: ([',', ' '].intercalate (fields.map member) ++ ['\x7d']) := by
  unfold object
  simp only [String.toList_append, String.toList_intercalate, List.map_map]
  rfl

theorem exists_quote_members (m : String × Field) (ms : List (String × Field)) :
    ∃ cs, [',', ' '].intercalate ((m :: ms).map member) ++ ['\x7d'] = '"' :: cs := by
  obtain ⟨cs, hcs, -⟩ := readText_text m.1 []
  have hmember : member m = '"' :: (cs ++ ':' :: ' ' :: (field m.2).toList) := by simp [member, hcs]
  cases ms with
  | nil => exact ⟨_, by rw [List.map_singleton, List.intercalate_singleton, hmember, List.cons_append]⟩
  | cons m' ms =>
    exact ⟨_, by rw [List.map_cons, List.map_cons, List.intercalate_cons_cons, hmember, List.cons_append,
      List.cons_append, List.cons_append]⟩

theorem readValue_object (fields : List (String × Field)) (fuel : ℕ) :
    readValue extended (fuel + 1) (object fields).toList =
      if (fields = [] ∨ fields.length < fuel) ∧ ∀ m ∈ fields, legible extended m.2 = true then
        some (.object (fields.map entry), [])
      else none := by
  rw [toList_object]
  cases fields with
  | nil =>
    rw [if_pos ⟨.inl rfl, List.forall_mem_nil _⟩]
    rfl
  | cons m ms =>
    have hread : readMembers extended fuel
        ([',', ' '].intercalate ((m :: ms).map member) ++ ['\x7d']) = _ := readMembers_members m ms fuel
    obtain ⟨cs, hcs⟩ := exists_quote_members m ms
    have hskip (c : Char) (hc : isBlank c = false) (cs : List Char) : skip (c :: cs) = c :: cs := by
      simp [skip, hc]
    rw [hcs] at hread ⊢
    rw [readValue]
    simp only [hskip '\x7b' rfl, hskip '"' rfl]
    show (readMembers extended fuel ('"' :: cs)).map
      (fun (members, rest) => (Datum.object members, rest)) = _
    rw [hread]
    by_cases h : ms.length + 1 < fuel ∧ ∀ p ∈ m :: ms, legible extended p.2 = true
    · rw [if_pos h, if_pos ⟨.inr h.1, h.2⟩]
      rfl
    · rw [if_neg h, if_neg fun h' => h ⟨h'.1.resolve_left (List.cons_ne_nil _ _), h'.2⟩]
      rfl

/-- An object stands for its members, and for nothing else; there has to be a text for each of them. -/
theorem decodes_object_iff (fields : List (String × Field)) (d : Datum) :
    Decodes extended (object fields) d ↔
      (∀ m ∈ fields, legible extended m.2 = true) ∧ d = .object (fields.map entry) := by
  constructor
  · rintro ⟨fuel, rest, hread, -⟩
    cases fuel with
    | zero => cases hread
    | succ fuel =>
      rw [readValue_object] at hread
      split at hread
      case isTrue h => exact ⟨h.2, (Prod.mk.inj (Option.some.inj hread)).1.symm⟩
      case isFalse => cases hread
  · rintro ⟨h, rfl⟩
    refine ⟨fields.length + 2, [], ?_, rfl⟩
    rw [readValue_object, if_pos ⟨.inr (Nat.lt_succ_self _), h⟩]

end Json

/-- What a report stands for: its fields by name. -/
def Report.dictionary (r : Report) : Json.Datum := .object (r.fields.map Json.entry)

/-- The text of a report stands for its fields, and for nothing else; it is no JSON text if its value is
not finite. -/
theorem Report.decodes_json_iff (extended : Bool) (r : Report) (d : Json.Datum) :
    Json.Decodes extended r.json d ↔
      (∀ x ∈ r.value, extended = true ∨ x.isFinite = true) ∧ d = r.dictionary := by
  have hfields : (∀ m ∈ r.fields, Json.legible extended m.2 = true) ↔
      ∀ x ∈ r.value, extended = true ∨ x.isFinite = true := by
    rw [fields, List.forall_mem_append, List.forall_mem_append, List.forall_mem_cons]
    cases r.value with
    | none => simp [Json.legible]
    | some x => simp [Json.legible]
  rw [← hfields]
  exact Json.decodes_object_iff r.fields d

end Reckoner
