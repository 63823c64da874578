import Mathlib.Data.List.TakeDrop
import Reckoner.Binding
import Reckoner.Proofs.Decimal.Numeral
import Reckoner.Proofs.Token.Lexeme

/-!
Where a text is divided, and what it binds. The first equals sign divides it; what is before that,
without the blanks around it, has to be an identifier, and what is behind it a numeral.
-/

namespace Reckoner

/-- A text has an equals sign, or none. -/
theorem Text.eq_append_or_not_mem (text : String) :
    (∃ front rest, text = front ++ "=" ++ rest ∧ '=' ∉ front.toList) ∨ '=' ∉ text.toList := by
  by_cases hequals : '=' ∈ text.toList
  · obtain ⟨front, rest, htext, hfront⟩ := List.eq_append_cons_of_mem hequals
    refine .inl ⟨String.ofList front, String.ofList rest, ?_, by rwa [String.toList_ofList]⟩
    rw [← String.toList_inj, htext]
    simp
  · exact .inr hequals

/-- A name is what it is without blanks around it. -/
theorem Text.trim_of_isName {name : String} (h : Text.isName name.toList) :
    Text.trim name = name := by
  rw [Text.trim, Text.strip_eq_self (Token.isBlank_eq_false_of_isName h), String.ofList_toList]

namespace Binding

variable {front : String}

theorem split?_append (hfront : '=' ∉ front.toList) (rest : String) :
    split? (front ++ "=" ++ rest) =
      if Text.isName (Text.trim front).toList then some (Text.trim front, rest) else none := by
  have hbefore : ∀ c ∈ front.toList, decide (c ≠ '=') :=
    fun _ hc => decide_eq_true (ne_of_mem_of_not_mem hc hfront)
  have htext : (front ++ "=" ++ rest).toList = front.toList ++ '=' :: rest.toList := by simp
  have hspan : (front ++ "=" ++ rest).toList.span (· ≠ '=') = (front.toList, '=' :: rest.toList) := by
    rw [htext, List.span_eq_takeWhile_dropWhile, List.takeWhile_append_of_pos hbefore,
      List.dropWhile_append_of_pos hbefore]
    simp
  unfold split?
  rw [hspan, Text.trim, String.toList_ofList]
  simp only [String.ofList_toList]

theorem split?_eq_none {text : String} (h : '=' ∉ text.toList) : split? text = none := by
  have hdrop : text.toList.dropWhile (· ≠ '=') = [] :=
    List.dropWhile_eq_nil_iff.2 fun _ hc => decide_eq_true (ne_of_mem_of_not_mem hc h)
  unfold split?
  rw [List.span_eq_takeWhile_dropWhile, hdrop]

/-- What a text binds that has an equals sign. -/
theorem parse_append (hfront : '=' ∉ front.toList) (rest : String) :
    parse (front ++ "=" ++ rest) =
      if Text.isName (Text.trim front).toList then
        match Value.ofText (Text.trim rest) with
        | .ok x => .ok (Text.trim front, x)
        | .error fault => .error (.value fault)
      else .error (.malformed (front ++ "=" ++ rest)) := by
  unfold parse
  rw [split?_append hfront]
  by_cases hname : Text.isName (Text.trim front).toList
  · rw [if_pos hname, if_pos hname]
    simp only
    cases Value.ofText (Text.trim rest) <;> rfl
  · rw [if_neg hname, if_neg hname]
    rfl

theorem parse_eq_error_of_not_mem {text : String} (h : '=' ∉ text.toList) :
    parse text = .error (.malformed text) := by
  unfold parse
  rw [split?_eq_none h]
  rfl

/-- A text binds the identifier before its first equals sign to the numeral behind, or is malformed, or
has no numeral there. -/
theorem parse_cases (text : String) :
    (∃ front rest x, text = front ++ "=" ++ rest ∧ '=' ∉ front.toList ∧
      Text.isName (Text.trim front).toList ∧ Value.ofText (Text.trim rest) = .ok x ∧
      parse text = .ok (Text.trim front, x)) ∨
    parse text = .error (.malformed text) ∨
    ∃ front rest, text = front ++ "=" ++ rest ∧ '=' ∉ front.toList ∧
      parse text = .error (.value (.malformed (Text.trim rest))) := by
  rcases Text.eq_append_or_not_mem text with ⟨front, rest, rfl, hfront⟩ | hnone
  · have hparse := parse_append hfront rest
    by_cases hname : Text.isName (Text.trim front).toList
    · rw [if_pos hname] at hparse
      rcases Value.ofText_cases (Text.trim rest) with ⟨x, hx⟩ | hx
      · rw [hx] at hparse
        exact .inl ⟨front, rest, x, rfl, hfront, hname, hx, hparse⟩
      · rw [hx] at hparse
        exact .inr (.inr ⟨front, rest, rfl, hfront, hparse⟩)
    · rw [if_neg hname] at hparse
      exact .inr (.inl hparse)
  · exact .inr (.inl (parse_eq_error_of_not_mem hnone))

end Binding
end Reckoner
