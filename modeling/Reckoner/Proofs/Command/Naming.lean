import Mathlib.Tactic.TFAE
import Reckoner.Proofs.Command.Interact
import Reckoner.Proofs.Scope
import Reckoner.Proofs.Token.Name

/-!
What is a name. A binding, a line that gives its value to a name, and an expression take the same texts
for names: blanks around one do not count, and what is left is an identifier. So what can be bound can be
referred to, and the other way round.
-/

namespace Reckoner.Command

namespace Manner

/-- The line is neither blank nor a word to leave, and gives its value to the name. -/
def Assigns (line name : String) : Prop :=
  isBlank line = false ∧ isExit line = false ∧ target line = some name

theorem assigns_iff {line name : String} : Assigns line name ↔ target line = some name := by
  constructor
  · exact fun h => h.2.2
  · intro h
    obtain ⟨hblank, hexit⟩ := not_idle_of_target h
    exact ⟨hblank, hexit, h⟩

/-- A line is divided where a binding is; that its ends are trimmed first makes no difference to the
name. -/
theorem target_append {front : String} (hfront : '=' ∉ front.toList) (rest : String) :
    target (front ++ "=" ++ rest) =
      if Text.isName (Text.trim front).toList then some (Text.trim front) else none := by
  let front' := String.ofList (front.toList.dropWhile Text.isBlank)
  let rest' := String.ofList (rest.toList.rdropWhile Text.isBlank)
  have htrim : Text.trim (front ++ "=" ++ rest) = front' ++ "=" ++ rest' := by
    rw [← String.toList_inj]
    simp [Text.trim, front', rest', Text.strip_append_stop (by decide : Text.isBlank '=' = false)]
  have hfront' : '=' ∉ front'.toList := by
    rw [String.toList_ofList]
    exact fun hmem => hfront ((List.dropWhile_sublist _).subset hmem)
  have hname : Text.trim front' = Text.trim front := by
    rw [Text.trim, String.toList_ofList, Text.strip_dropWhile, Text.trim]
  rw [target_eq, htrim, Binding.split?_append hfront', hname]
  split <;> rfl

theorem assigns_append_iff {front : String} (hfront : '=' ∉ front.toList) {rest name : String} :
    Assigns (front ++ "=" ++ rest) name ↔
      Text.isName (Text.trim front).toList ∧ Text.trim front = name := by
  rw [assigns_iff, target_append hfront]
  split <;> simp [*]

/-- A line with a value gives it to its name. -/
theorem step_of_assigns {m : Manner} (hm : m.Precise) {vars : Table Float} {line name : String}
    (h : Assigns line name) {x : Float} (hx : (m.evaluation vars line).result = .ok x) :
    ∃ outputs, m.step vars line = (outputs, .go (vars.insert name x)) := by
  obtain ⟨hblank, hexit, htarget⟩ := h
  obtain ⟨r, hreport⟩ : ∃ r, Report.ofResult (m.evaluation vars line).result = .ok r :=
    ⟨_, by rw [hx]; rfl⟩
  obtain ⟨text, hrender⟩ := hm.render r
  have hstep := step_of_report hblank hexit hreport hrender
  rw [follow_of_ok htarget hx] at hstep
  exact ⟨_, hstep⟩

end Manner

open Manner

/-- The tokens of the text are one name, which is the whole text, and the ending. -/
def ScansAsName (scope : Scope) (limit : Int) (name : String) : Prop :=
  ∃ r : Role, Token.scan scope limit name = .ok [r.token name, .ending]

variable {scope : Scope} {limit : Int} {name : String}

theorem scansAsName_iff (hscope : scope.vars.contains name) (hlimit : (name.length : Int) ≤ limit) :
    ScansAsName scope limit name ↔ Text.isName name.toList := by
  constructor
  · rintro ⟨r, hscan⟩
    exact Token.isName_of_scan hscan List.mem_cons_self
  · intro hname
    obtain ⟨r, hrole⟩ := Scope.exists_role_of_var hscope
    exact ⟨r, Token.scan_name hname hrole hlimit⟩

/-- Whatever is bound is an identifier, with no blanks around it. -/
theorem isName_of_parse {text : String} {x : Float} (h : Binding.parse text = .ok (name, x)) :
    Text.isName name.toList := by
  rcases Binding.parse_cases text with ⟨_, _, _, -, -, hname, -, hparse⟩ | hparse |
    ⟨_, _, -, -, hparse⟩
  · obtain ⟨rfl, -⟩ := Prod.mk.inj (Except.ok.inj (hparse.symm.trans h))
    exact hname
  · cases hparse.symm.trans h
  · cases hparse.symm.trans h

theorem not_mem_of_isName (h : Text.isName name.toList) : '=' ∉ name.toList := by
  intro hmem
  have hpart := Text.isNamePart_of_isName h _ hmem
  exact absurd hpart (by decide)

section

variable {front : String} (hfront : '=' ∉ front.toList)

include hfront

theorem parse_of_isName (hname : Text.isName (Text.trim front).toList) {v : String} {x : Float}
    (hx : Value.ofText v = .ok x) :
    Binding.parse (front ++ "=" ++ v) = .ok (Text.trim front, x) := by
  have hparse := Binding.parse_append hfront v
  rw [if_pos hname, Value.ofText_trim hx] at hparse
  exact hparse

theorem isName_of_parse_append {v : String} {pair : String × Float}
    (h : Binding.parse (front ++ "=" ++ v) = .ok pair) : Text.isName (Text.trim front).toList := by
  by_contra hname
  rw [Binding.parse_append hfront, if_neg hname] at h
  cases h

theorem assigns_blank_iff {expression : String} :
    Assigns (front ++ "= " ++ expression) name ↔
      Text.isName (Text.trim front).toList ∧ Text.trim front = name := by
  have hline : front ++ "= " ++ expression = front ++ "=" ++ (" " ++ expression) := by
    simp only [String.append_assoc]
    rfl
  rw [hline, assigns_append_iff hfront]

end

/-- A text in front of the first equals sign is the name of a binding, whatever its value, exactly if it
is the name to which a line gives its value, whatever its expression, and exactly if without the blanks
around it it is scanned as one name. So all that can be bound can be referred to; a line does bind its
name; and each name in an expression can be bound. A text binds what is before its first equals sign to
the numeral behind it, both without blanks around them, or it is malformed or has no numeral there. -/
theorem bound_names_are_scanned_names :
    (∀ front, '=' ∉ front.toList → ∀ scope limit, scope.vars.contains (Text.trim front) →
      ((Text.trim front).length : Int) ≤ limit →
      List.TFAE [
        ∀ v x, Value.ofText v = .ok x →
          Binding.parse (front ++ "=" ++ v) = .ok (Text.trim front, x),
        ∃ v pair, Binding.parse (front ++ "=" ++ v) = .ok pair,
        ∀ expression, Assigns (front ++ "= " ++ expression) (Text.trim front),
        ∃ expression name, Assigns (front ++ "= " ++ expression) name,
        ScansAsName scope limit (Text.trim front)]) ∧
    (∀ name, ((∃ text x, Binding.parse text = .ok (name, x)) ∨ ∃ line, Assigns line name) →
      ∀ scope limit, scope.vars.contains name → (name.length : Int) ≤ limit →
        ScansAsName scope limit name) ∧
    (∀ m vars line name x, Precise m → Assigns line name → (evaluation m vars line).result = .ok x →
      ∃ outputs, step m vars line = (outputs, .go (vars.insert name x))) ∧
    (∀ scope limit text tokens r name, Token.scan scope limit text = .ok tokens →
      Role.token name r ∈ tokens →
        (∀ v x, Value.ofText v = .ok x → Binding.parse (name ++ "=" ++ v) = .ok (name, x)) ∧
        ∀ expression, Assigns (name ++ "= " ++ expression) name) ∧
    ∀ text,
      (∃ front rest x, text = front ++ "=" ++ rest ∧ '=' ∉ front.toList ∧
        Value.ofText (Text.trim rest) = .ok x ∧ Binding.parse text = .ok (Text.trim front, x)) ∨
      ∃ fault, Binding.parse text = .error fault ∧
        (fault = .malformed text ∨ ∃ rest, fault = .value (.malformed rest)) := by
  refine ⟨fun front hfront scope limit hscope hlimit => ?_, fun name hbound scope limit => ?_,
    fun m vars line name x hm hassigns => step_of_assigns hm hassigns,
    fun scope limit text tokens r name => ?_, fun text => ?_⟩
  · -- each says that the text without blanks around it is an identifier
    have hscans := scansAsName_iff hscope hlimit
    tfae_have 1 → 2 := by
      intro h
      obtain ⟨x, hx⟩ : ∃ x, Value.ofText "nan" = .ok x := ⟨Binary64.nan, by with_unfolding_all rfl⟩
      exact ⟨"nan", _, h "nan" x hx⟩
    tfae_have 2 → 5 := fun ⟨_, _, h⟩ => hscans.2 (isName_of_parse_append hfront h)
    tfae_have 5 → 1 := fun h _ _ hx => parse_of_isName hfront (hscans.1 h) hx
    tfae_have 5 → 3 := fun h _ => (assigns_blank_iff hfront).2 ⟨hscans.1 h, rfl⟩
    tfae_have 3 → 4 := fun h => ⟨"", _, h ""⟩
    tfae_have 4 → 5 := fun ⟨_, _, h⟩ => hscans.2 ((assigns_blank_iff hfront).1 h).1
    tfae_finish
  · intro hscope hlimit
    rw [scansAsName_iff hscope hlimit]
    rcases hbound with ⟨text, x, hparse⟩ | ⟨line, hassigns⟩
    · exact isName_of_parse hparse
    · exact (target_eq_some (assigns_iff.1 hassigns)).1
  · intro hscan hmem
    have hname := Token.isName_of_scan hscan hmem
    have htrim := Text.trim_of_isName hname
    have hequals := not_mem_of_isName hname
    refine ⟨fun v x hx => ?_, fun expression => ?_⟩
    · have hparse := parse_of_isName hequals (by rwa [htrim]) hx
      rwa [htrim] at hparse
    · exact (assigns_blank_iff hequals).2 ⟨by rwa [htrim], htrim⟩
  · rcases Binding.parse_cases text with ⟨front, rest, x, h, hfront, -, hx, hparse⟩ | hparse |
      ⟨front, rest, -, -, hparse⟩
    · exact .inl ⟨front, rest, x, h, hfront, hx, hparse⟩
    · exact .inr ⟨_, hparse, .inl rfl⟩
    · exact .inr ⟨_, hparse, .inr ⟨_, rfl⟩⟩

/-- The name of a constant, with blanks around it: a variable can have it, and it is scanned. -/
theorem bound_names_are_scanned_names_constant :
    ScansAsName (Scope.builtin.setVariable "pi" 3) 2 (Text.trim "\tpi ") ∧
      Assigns ("\tpi " ++ "= " ++ "1 + 2") (Text.trim "\tpi ") ∧
      (∃ outputs, step ⟨⟨10000, 1000⟩, .fromLeft, .human, .given 12, 30⟩ ∅ "pi = 1 + 2" =
        (outputs, .go ((∅ : Table Float).insert "pi" 3))) ∧
      Token.scan Scope.builtin 4 "2*pi" = .ok [.number 2, .op "*", .const "pi", .ending] ∧
      Assigns ("pi" ++ "= " ++ "2") "pi" := by
  obtain ⟨hagree, hrefers, hbinds, hbound, -⟩ := bound_names_are_scanned_names
  have hm : (⟨⟨10000, 1000⟩, .fromLeft, .human, .given 12, 30⟩ : Manner).Precise := ⟨12, 12, rfl, rfl⟩
  have hline : Assigns "pi = 1 + 2" "pi" := by
    unfold Assigns
    decide
  have hvalue : (evaluation ⟨⟨10000, 1000⟩, .fromLeft, .human, .given 12, 30⟩ ∅ "pi = 1 + 2").result =
      .ok 3 := by
    decide +kernel
  have hscan : Token.scan Scope.builtin 4 "2*pi" =
      .ok [.number 2, .op "*", .const "pi", .ending] := by
    decide +kernel
  have hblanks : Assigns "\tpi = 1 + 2" (Text.trim "\tpi ") := by
    unfold Assigns
    decide
  have hscope : (Scope.builtin.setVariable "pi" 3).vars.contains (Text.trim "\tpi ") := by decide
  have hshort : ((Text.trim "\tpi ").length : Int) ≤ 2 := by decide
  have hname := hrefers _ (.inr ⟨_, hblanks⟩) _ _ hscope hshort
  have hall := ((hagree "\tpi " (by decide) _ _ hscope hshort).out 4 2).1 hname
  exact ⟨hname, hall "1 + 2", hbinds _ _ _ _ _ hm hline hvalue, hscan,
    (hbound _ _ _ _ .const "pi" hscan (by decide)).2 "2"⟩

end Reckoner.Command
