import Reckoner.Log.Level

/-!
Setting up a logger again and again. What a call answers, and what it makes of the logger, is told by
its own text alone, so the last call that is not refused is the one that counts. A text sets the level
whose name it is, in capitals or not, and the level of warnings if it is no name. But names of levels are
not all that is known by a word in capitals: two words stand for other things, which are no levels, and
these are the only ones that are refused.
-/

namespace Reckoner.Log

namespace Level

/-- The names of levels, with their numbers. -/
def names : List (String × Int) :=
  [("CRITICAL", 50), ("FATAL", 50), ("ERROR", 40), ("WARNING", 30), ("WARN", 30), ("INFO", 20),
    ("DEBUG", 10), ("NOTSET", 0)]

theorem ofName?_eq_lookup (name : String) : ofName? name = names.lookup name := by
  unfold ofName?
  split
  case h_9 =>
      symm
      rw [List.lookup_eq_none_iff]
      simp_all [names]
  all_goals rfl

/-- The level that a text stands for: that of its name in capitals, or that of warnings. -/
def ofText (text : String) : Int :=
  (names.lookup (Text.upper text)).getD 30

end Level

namespace LevelFault

/-- The word that is refused, in capitals. -/
def word : LevelFault → String
  | .basicFormat => "BASIC_FORMAT"
  | .styles => "_STYLES"

/-- Why a text is refused, if it is. -/
def ofText? (text : String) : Option LevelFault :=
  [basicFormat, styles].find? fun fault => Text.upper text = fault.word

theorem ofText?_eq_some_iff {text : String} {fault : LevelFault} :
    ofText? text = some fault ↔ Text.upper text = fault.word := by
  constructor
  · intro h
    have hfound := List.find?_some h
    exact of_decide_eq_true hfound
  · intro h
    unfold ofText?
    rw [h]
    cases fault <;> decide

/-- The words that are refused are no names of levels. -/
theorem lookup_word (fault : LevelFault) : Level.names.lookup fault.word = none := by
  cases fault <;> decide

theorem ofText?_eq_none_of_lookup {text : String} {n : Int}
    (h : Level.names.lookup (Text.upper text) = some n) : ofText? text = none := by
  rw [Option.eq_none_iff_forall_not_mem]
  intro fault hfault
  rw [ofText?_eq_some_iff.mp hfault, lookup_word] at h
  cases h

end LevelFault

theorem levelOf_eq (text : String) :
    levelOf text =
      match LevelFault.ofText? text with
      | some fault => .error fault
      | none => .ok (Level.ofText text) := by
  by_cases hformat : Text.upper text = "BASIC_FORMAT"
  · have hfault : LevelFault.ofText? text = some .basicFormat :=
      LevelFault.ofText?_eq_some_iff.mpr hformat
    rw [hfault]
    simp only [levelOf, hformat]
    rfl
  by_cases hstyles : Text.upper text = "_STYLES"
  · have hfault : LevelFault.ofText? text = some .styles :=
      LevelFault.ofText?_eq_some_iff.mpr hstyles
    rw [hfault]
    simp only [levelOf, hstyles]
    rfl
  have hnone : LevelFault.ofText? text = none := by
    simp [LevelFault.ofText?, LevelFault.word, hformat, hstyles]
  rw [hnone]
  simp only [levelOf, hformat, hstyles, Level.ofName?_eq_lookup]
  rfl

namespace Logger

/-- Each text in turn, without a file, and what each of the calls failed with. -/
def setUpAll (l : Logger) : List String → Logger × List (Option LevelFault)
  | [] => (l, [])
  | text :: texts =>
    let step := l.setUp text none
    let rest := step.1.setUpAll texts
    (rest.1, step.2 :: rest.2)

/-- The logger that a text asks for. -/
def asked (text : String) : Logger :=
  ⟨Level.ofText text, [.standardError]⟩

theorem setUp_eq (l : Logger) (text : String) :
    l.setUp text none =
      (if LevelFault.ofText? text = none then asked text else l, LevelFault.ofText? text) := by
  simp only [setUp, levelOf_eq]
  cases LevelFault.ofText? text <;> rfl

theorem setUpAll_append (l : Logger) (front back : List String) :
    l.setUpAll (front ++ back) =
      (((l.setUpAll front).1.setUpAll back).1,
        (l.setUpAll front).2 ++ ((l.setUpAll front).1.setUpAll back).2) := by
  induction front generalizing l with
  | nil => rfl
  | cons text front ih => simp only [List.cons_append, setUpAll, ih]

/-- The answers do not depend on the logger. -/
theorem setUpAll_snd (l : Logger) (texts : List String) :
    (l.setUpAll texts).2 = texts.map LevelFault.ofText? := by
  induction texts generalizing l with
  | nil => rfl
  | cons text texts ih => simp only [setUpAll, List.map_cons, ih, setUp_eq]

theorem setUpAll_of_refused (l : Logger) {texts : List String}
    (h : ∀ text ∈ texts, LevelFault.ofText? text ≠ none) : (l.setUpAll texts).1 = l := by
  induction texts with
  | nil => rfl
  | cons text texts ih =>
    obtain ⟨hhead, htail⟩ := List.forall_mem_cons.mp h
    simp only [setUpAll, setUp_eq, if_neg hhead]
    exact ih htail

/-- The last call that is not refused counts: whatever was set up before it is forgotten, and the calls
after it change nothing. -/
theorem setUpAll_of_last (l : Logger) (front : List String) {text : String} {back : List String}
    (htext : LevelFault.ofText? text = none)
    (hback : ∀ text ∈ back, LevelFault.ofText? text ≠ none) :
    (l.setUpAll (front ++ text :: back)).1 = asked text := by
  rw [setUpAll_append]
  simp only [setUpAll, setUp_eq, if_pos htext]
  exact setUpAll_of_refused _ hback

/-- However often a logger is set up, each call fails or not by its own text, and it fails just for two
words, neither of them the name of a level. The last text of a call that does not fail decides: the
logger has the level named by it, or that of warnings, and writes to standard error alone. If all calls
fail, the logger is as it was. -/
theorem last_set_up_counts (l : Logger) (texts : List String) :
    (l.setUpAll texts).2 = texts.map LevelFault.ofText? ∧
      (∀ text fault, LevelFault.ofText? text = some fault ↔ Text.upper text = fault.word) ∧
      (∀ text n, Level.names.lookup (Text.upper text) = some n → LevelFault.ofText? text = none) ∧
      (∀ front text back, texts = front ++ text :: back → LevelFault.ofText? text = none →
        (∀ text ∈ back, LevelFault.ofText? text ≠ none) →
          (l.setUpAll texts).1.level = (Level.names.lookup (Text.upper text)).getD 30 ∧
          (l.setUpAll texts).1.places = [.standardError]) ∧
      ((∀ text ∈ texts, LevelFault.ofText? text ≠ none) → (l.setUpAll texts).1 = l) := by
  refine ⟨setUpAll_snd l texts, fun _ _ => LevelFault.ofText?_eq_some_iff,
    fun _ _ => LevelFault.ofText?_eq_none_of_lookup, ?_, setUpAll_of_refused l⟩
  rintro front text back rfl htext hback
  rw [setUpAll_of_last l front htext hback]
  exact ⟨rfl, rfl⟩

/-- Four calls of which the third counts. -/
theorem last_set_up_counts_fallback :
    let l := (fresh.setUpAll ["debug", "_styles", "chatty", "basic_format"]).1
    l.level = 30 ∧ l.places = [.standardError] := by
  obtain ⟨-, -, -, hlast, -⟩ :=
    last_set_up_counts fresh ["debug", "_styles", "chatty", "basic_format"]
  obtain ⟨hlevel, hplaces⟩ :=
    hlast ["debug", "_styles"] "chatty" ["basic_format"] rfl (by decide) (by decide)
  have hwarning : (Level.names.lookup (Text.upper "chatty")).getD 30 = 30 := by decide
  exact ⟨hlevel.trans hwarning, hplaces⟩

/-- Not every text that is no name of a level sets the level of warnings. -/
theorem not_set_up_falls_back :
    ¬∀ text : String, Level.names.lookup (Text.upper text) = none →
      fresh.setUp text none = (⟨30, [.standardError]⟩, none) := by
  intro h
  have hbasic := h "basic_format" (by decide)
  have hrefused : fresh.setUp "basic_format" none = (fresh, some .basicFormat) := by
    rw [setUp_eq]
    decide
  rw [hrefused] at hbasic
  simp at hbasic

end Logger
end Reckoner.Log
