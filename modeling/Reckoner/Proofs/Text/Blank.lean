import Mathlib.Data.List.DropRight
import Reckoner.Text.Character

/-!
Texts without the characters of a kind at their ends. What is taken off the front ends at the first
character of another kind, and so does what is taken off the back.
-/

namespace Reckoner.Text

variable {kind : Char → Bool}

theorem strip_eq (kind : Char → Bool) (cs : List Char) :
    strip kind cs = (cs.dropWhile kind).rdropWhile kind := rfl

theorem dropWhile_eq_self {cs : List Char} (h : ∀ c ∈ cs, kind c = false) :
    cs.dropWhile kind = cs := by
  cases cs with
  | nil => rfl
  | cons c cs => simp [h c]

theorem dropWhile_append_stop {c : Char} (hc : kind c = false) (front rest : List Char) :
    (front ++ c :: rest).dropWhile kind = front.dropWhile kind ++ c :: rest := by
  induction front with
  | nil => exact List.dropWhile_cons_of_neg (by simp [hc])
  | cons d front ih =>
    by_cases hd : kind d
    · rw [List.cons_append, List.dropWhile_cons_of_pos hd, List.dropWhile_cons_of_pos hd, ih]
    · rw [List.cons_append, List.dropWhile_cons_of_neg hd, List.dropWhile_cons_of_neg hd,
        List.cons_append]

theorem rdropWhile_append_stop {c : Char} (hc : kind c = false) (front rest : List Char) :
    (front ++ c :: rest).rdropWhile kind = front ++ c :: rest.rdropWhile kind := by
  unfold List.rdropWhile
  simp [dropWhile_append_stop hc]

/-- Around a character of another kind, only the front is stripped at the front. -/
theorem strip_append_stop {c : Char} (hc : kind c = false) (front rest : List Char) :
    strip kind (front ++ c :: rest) = front.dropWhile kind ++ c :: rest.rdropWhile kind := by
  rw [strip_eq, dropWhile_append_stop hc, rdropWhile_append_stop hc]

theorem strip_dropWhile (kind : Char → Bool) (cs : List Char) :
    strip kind (cs.dropWhile kind) = strip kind cs := by
  rw [strip_eq, List.dropWhile_idempotent, strip_eq]

theorem strip_eq_self {cs : List Char} (h : ∀ c ∈ cs, kind c = false) : strip kind cs = cs := by
  unfold strip
  rw [dropWhile_eq_self h, dropWhile_eq_self (by simpa using h), List.reverse_reverse]

/-- What is stripped off is of the kind. -/
theorem exists_eq_append_strip (kind : Char → Bool) (cs : List Char) :
    ∃ front back, cs = front ++ strip kind cs ++ back ∧
      (∀ c ∈ front, kind c) ∧ ∀ c ∈ back, kind c := by
  let core := cs.dropWhile kind
  refine ⟨cs.takeWhile kind, (core.reverse.takeWhile kind).reverse, ?_, ?_, ?_⟩
  · have hcore : core = strip kind cs ++ (core.reverse.takeWhile kind).reverse := by
      calc core = (core.reverse.takeWhile kind ++ core.reverse.dropWhile kind).reverse := by
            rw [List.takeWhile_append_dropWhile, List.reverse_reverse]
        _ = strip kind cs ++ (core.reverse.takeWhile kind).reverse := List.reverse_append
    rw [List.append_assoc, ← hcore, List.takeWhile_append_dropWhile]
  · exact fun c hc => List.mem_takeWhile_imp hc
  · exact fun c hc => List.mem_takeWhile_imp (List.mem_reverse.1 hc)

/-- A middle part with nothing of the kind is what is left between parts of the kind. -/
theorem strip_append_append {front middle back : List Char} (hfront : ∀ c ∈ front, kind c)
    (hmiddle : ∀ c ∈ middle, kind c = false) (hback : ∀ c ∈ back, kind c) :
    strip kind (front ++ middle ++ back) = middle := by
  have hend : (middle ++ back).rdropWhile kind = middle := by
    unfold List.rdropWhile
    rw [List.reverse_append, List.dropWhile_append_of_pos (by simpa using hback),
      dropWhile_eq_self (by simpa using hmiddle), List.reverse_reverse]
  rw [strip_eq, List.append_assoc, List.dropWhile_append_of_pos hfront]
  cases middle with
  | nil =>
    have hnone : back.dropWhile kind = [] := List.dropWhile_eq_nil_iff.2 hback
    rw [List.nil_append, hnone, List.rdropWhile_nil]
  | cons c middle =>
    rw [List.cons_append, List.dropWhile_cons_of_neg (by simp [hmiddle c]), ← List.cons_append,
      hend]

end Reckoner.Text
