import Reckoner.Display
import Reckoner.Decimal.Shortest
import Reckoner.Proofs.Text.Line

/-!
Written doubles are in printable ASCII, whatever their digits and their layout.
-/

namespace Reckoner

namespace Decimal

open Text (Plain isPlain isPlain_of_isDigit plain_ofList)

theorem isDigit_of_mem_digits {d : Decimal} {c : Char} (h : c ∈ d.digits) : c.isDigit :=
  Nat.isDigit_of_mem_toDigits (by decide) (by decide) h

theorem isPlain_of_mem_replicate {n : Nat} {c : Char} (h : c ∈ List.replicate n '0') : isPlain c := by
  rw [List.eq_of_mem_replicate h]
  decide

theorem isPlain_positional {ds : List Char} (hds : ∀ c ∈ ds, isPlain c) (point : Int)
    (pointKept : Bool) : ∀ c ∈ positional ds point pointKept, isPlain c := by
  have hpoint : isPlain '.' := by decide
  unfold positional
  split
  · simp only [List.cons_append, List.forall_mem_cons, List.forall_mem_append]
    exact ⟨by decide, hpoint, fun _ => isPlain_of_mem_replicate, hds⟩
  · split
    · have hend : ∀ c ∈ (if pointKept then ['.', '0'] else []), isPlain c := by
        rw [← List.all_eq_true]
        cases pointKept <;> rfl
      simp only [List.forall_mem_append]
      exact ⟨⟨hds, fun _ => isPlain_of_mem_replicate⟩, hend⟩
    · simp only [List.forall_mem_append, List.forall_mem_cons]
      exact ⟨fun c hc => hds c (List.mem_of_mem_take hc), hpoint,
        fun c hc => hds c (List.mem_of_mem_drop hc)⟩

theorem isPlain_scientific {ds : List Char} (hds : ∀ c ∈ ds, isPlain c) (exponent : Int) :
    ∀ c ∈ scientific ds exponent, isPlain c := by
  have hrest : ∀ c ∈ (if ds.length ≤ 1 then [] else '.' :: ds.drop 1), isPlain c := by
    split
    · exact List.forall_mem_nil _
    · exact List.forall_mem_cons.2 ⟨by decide, fun c hc => hds c (List.mem_of_mem_drop hc)⟩
  have hsign : isPlain (if exponent < 0 then '-' else '+') := by split <;> decide
  have hpower : ∀ c ∈ Nat.toDigits 10 exponent.natAbs, isPlain c := fun c hc =>
    isPlain_of_isDigit (Nat.isDigit_of_mem_toDigits (by decide) (by decide) hc)
  unfold scientific
  simp only [List.append_assoc, List.cons_append, List.forall_mem_append, List.forall_mem_cons]
  exact ⟨fun c hc => hds c (List.mem_of_mem_take hc), hrest, by decide, hsign,
    fun _ => isPlain_of_mem_replicate, hpower⟩

theorem isPlain_write (layout : Layout) (d : Decimal) : ∀ c ∈ write layout d, isPlain c := by
  have hdigits : ∀ c ∈ d.digits, isPlain c := fun c hc =>
    isPlain_of_isDigit (isDigit_of_mem_digits hc)
  unfold write
  split
  · exact isPlain_positional hdigits _ _
  · exact isPlain_scientific hdigits _

theorem plain_writeFloat (pick : Nat → Int → Decimal) (layout : Layout) (x : Float) :
    Plain (writeFloat pick layout x) := by
  have hsigned {cs : List Char} (hcs : ∀ c ∈ cs, isPlain c) :
      Plain (String.ofList ('-' :: cs)) ∧ Plain (String.ofList cs) := by
    rw [plain_ofList, plain_ofList]
    exact ⟨List.forall_mem_cons.2 ⟨by decide, hcs⟩, hcs⟩
  unfold writeFloat
  cases x.toModel.unpack with
  | notANumber =>
    show Plain "nan"
    decide
  | infinity sign =>
    have hinf : Plain "-inf" ∧ Plain "inf" := by decide
    cases sign
    · exact hinf.1
    · exact hinf.2
  | zero sign =>
    have hzero := hsigned (isPlain_write layout ⟨0, 0⟩)
    cases sign
    · exact hzero.1
    · exact hzero.2
  | finite sign m e =>
    have hfinite := hsigned (isPlain_write layout (pick m e))
    cases sign
    · exact hfinite.1
    · exact hfinite.2

theorem plain_shortestText (x : Float) : Plain (shortestText x) := plain_writeFloat shortest _ x

theorem plain_significantText (p : Nat) (x : Float) : Plain (significantText p x) :=
  plain_writeFloat (significant p) _ x

end Decimal

theorem plain_displayFloat {precision : Int} {x : Float} {text : String}
    (h : displayFloat precision x = .ok text) : Text.Plain text := by
  unfold displayFloat at h
  split at h
  · cases hdigits : precisionDigits precision with
    | error fault =>
      rw [hdigits] at h
      cases h
    | ok p =>
      rw [hdigits] at h
      obtain rfl := Except.ok.inj h
      exact Decimal.plain_significantText p x
  · obtain rfl := Except.ok.inj h
    exact Decimal.plain_significantText 1 x

end Reckoner
