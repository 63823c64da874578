import Mathlib.Data.List.Forall2
import Reckoner.Proofs.Merge
import Reckoner.Proofs.Session.Run
import Reckoner.Proofs.Token.Name

/-!
Names that are known stay known. Nothing that is done in a session takes an entry out of a table, so the
tables of a scope only grow; a name can get a role that comes before the one it had, and that is the role
of a constant for a variable. A text that could be scanned still can.
-/

namespace Reckoner

/-! ### Tables that grow -/

namespace Table

variable {α : Type} {t : Table α} {name : String}

theorem contains_insert_of_contains (h : t.contains name) (other : String) (value : α) :
    (t.insert other value).contains name := by
  unfold contains at h ⊢
  rw [get?_insert]
  split
  · rfl
  · exact h

theorem contains_insertAll_of_contains (h : t.contains name) (pairs : List (String × α)) :
    (t.insertAll pairs).contains name := by
  induction pairs generalizing t with
  | nil => exact h
  | cons pair pairs ih =>
      obtain ⟨n, v⟩ := pair
      exact ih (contains_insert_of_contains h n v)

end Table

/-- The constants and the variables of the one scope are there in the other, with whatever values. -/
structure Scope.GrowsTo (s s' : Scope) : Prop where
  constants : ∀ name, s.constants.contains name → s'.constants.contains name
  vars : ∀ name, s.vars.contains name → s'.vars.contains name

namespace Scope

variable {s s' s'' : Scope} {name : String}

theorem GrowsTo.refl (s : Scope) : s.GrowsTo s := ⟨fun _ h => h, fun _ h => h⟩

theorem GrowsTo.trans (h : s.GrowsTo s') (h' : s'.GrowsTo s'') : s.GrowsTo s'' where
  constants name hname := h'.constants name (h.constants name hname)
  vars name hname := h'.vars name (h.vars name hname)

/-- A merge takes no name away, not even one that fails. -/
theorem growsTo_add (s : Scope) (values : Table Value) : s.GrowsTo (s.add values).1 where
  constants name h := by rwa [constants_add]
  vars name h := by
    rw [add, bindAll_eq]
    exact Table.contains_insertAll_of_contains h _

/-- No use takes a name away. -/
theorem growsTo_write (u : Use) (s : Scope) : s.GrowsTo (u.write s) := by
  cases u with
  | add values => exact growsTo_add s values
  | update values => exact growsTo_add s values
  | setConstant other value =>
      exact ⟨fun name h => Table.contains_insert_of_contains h other value, fun _ h => h⟩
  | _ => exact .refl s

theorem growsTo_written (s : Scope) (uses : List Use) : s.GrowsTo (s.written uses) := by
  induction uses generalizing s with
  | nil => exact .refl s
  | cons u uses ih => exact (growsTo_write u s).trans (ih (u.write s))

/-! ### Roles -/

/-- The role of a name that is known: it stays, but that a variable can become a constant. -/
theorem GrowsTo.role? (h : s.GrowsTo s') {r : Role} (hr : s.role? name = some r) :
    s'.role? name = some r ∨ r = .var ∧ s'.role? name = some .const := by
  cases r with
  | func => exact .inl (role?_eq_func_iff.2 (role?_eq_func_iff.1 hr))
  | const =>
      obtain ⟨hfunction, hconstant⟩ := role?_eq_const_iff.1 hr
      exact .inl (role?_eq_const_iff.2 ⟨hfunction, h.constants name hconstant⟩)
  | var =>
      obtain ⟨hfunction, -, hvariable⟩ := role?_eq_var_iff.1 hr
      cases hconstant : s'.constants.get? name with
      | some x => exact .inr ⟨rfl, role?_eq_const_iff.2 ⟨hfunction, by simp [hconstant]⟩⟩
      | none => exact .inl (role?_eq_var_iff.2 ⟨hfunction, hconstant, h.vars name hvariable⟩)

end Scope

/-! ### Tokens -/

/-- What a token is when names have been added: the same, but that a variable can be a constant. -/
inductive Token.Becomes : Token → Token → Prop
  | same (t : Token) : Becomes t t
  | constant (name : String) : Becomes (.var name) (.const name)

namespace Scope.GrowsTo

variable {s s' : Scope}

theorem named? (h : s.GrowsTo s') {name : String} {t : Token}
    (ht : Lexeme.named? s name = some t) :
    ∃ t', Lexeme.named? s' name = some t' ∧ t.Becomes t' := by
  rw [Lexeme.named?_eq] at ht
  obtain ⟨r, hr, rfl⟩ := Option.map_eq_some_iff.1 ht
  rcases h.role? hr with hsame | ⟨rfl, hconstant⟩
  · exact ⟨r.token name, by rw [Lexeme.named?_eq, hsame]; rfl, .same _⟩
  · exact ⟨.const name, by rw [Lexeme.named?_eq, hconstant]; rfl, .constant name⟩

theorem token? (h : s.GrowsTo s') {l : Lexeme} {t : Token} (ht : l.token? s = some t) :
    ∃ t', l.token? s' = some t' ∧ t.Becomes t' := by
  cases l with
  | name run => exact h.named? ht
  | number | operator | comma => exact ⟨t, ht, .same t⟩

theorem tokens (h : s.GrowsTo s') {ls : List Lexeme} {ts : List Token}
    (hts : List.Forall₂ (fun l t => l.token? s = some t) ls ts) :
    ∃ ts', List.Forall₂ (fun l t => l.token? s' = some t) ls ts' ∧
      List.Forall₂ Token.Becomes ts ts' := by
  induction hts with
  | nil => exact ⟨[], .nil, .nil⟩
  | cons ht _ ih =>
      obtain ⟨t', ht', hbecomes⟩ := h.token? ht
      obtain ⟨ts', hts', hrest⟩ := ih
      exact ⟨t' :: ts', .cons ht' hts', .cons hbecomes hrest⟩

/-- What could be scanned still can. -/
theorem scan (h : s.GrowsTo s') {limit : Int} {text : String} {tokens : List Token}
    (hscan : Token.scan s limit text = .ok tokens) :
    ∃ tokens', Token.scan s' limit text = .ok tokens' ∧
      List.Forall₂ Token.Becomes tokens tokens' := by
  obtain ⟨hshort, ls, ts, hsplits, hts, rfl⟩ := Token.scan_eq_ok_iff.1 hscan
  obtain ⟨ts', hts', hbecomes⟩ := h.tokens hts
  refine ⟨ts' ++ [.ending], Token.scan_eq_ok_iff.2 ⟨hshort, ls, ts', hsplits, hts', rfl⟩, ?_⟩
  exact List.rel_append hbecomes (.cons (.same .ending) .nil)

end Scope.GrowsTo

namespace Session

/-- Names only grow. Whatever is done in a session, with or without success, a function stays a function
in every scope and a constant a constant, and a name that is known stays known. So a text that can be
scanned at one time can be at all times after, with the same tokens one by one, but for variables that
have become constants. -/
theorem names_only_grow (limits : Limits) (history : List Step) {s : Session}
    (hs : s = ofSteps limits history) {index : Nat} (hindex : index < s.scopes.length)
    (later : List Step) :
    (∀ name,
      ((s.scopeAt index).role? name = some .func →
        ((s.after later).scopeAt index).role? name = some .func) ∧
      ((s.scopeAt index).role? name = some .const →
        ((s.after later).scopeAt index).role? name = some .const) ∧
      ((s.scopeAt index).role? name ≠ none → ((s.after later).scopeAt index).role? name ≠ none)) ∧
    ∀ maxLength text tokens, Token.scan (s.scopeAt index) maxLength text = .ok tokens →
      ∃ tokens', Token.scan ((s.after later).scopeAt index) maxLength text = .ok tokens' ∧
        List.Forall₂ Token.Becomes tokens tokens' := by
  have hgrows : (s.scopeAt index).GrowsTo ((s.after later).scopeAt index) := by
    have hwellFormed : s.WellFormed := hs ▸ wellFormed_ofSteps limits history
    rw [scopeAt_after hwellFormed hindex]
    exact Scope.growsTo_written ..
  refine ⟨fun name => ⟨fun hfunction => ?_, fun hconstant => ?_, fun hknown => ?_⟩, ?_⟩
  · simpa using hgrows.role? hfunction
  · simpa using hgrows.role? hconstant
  · obtain ⟨r, hr⟩ := Option.ne_none_iff_exists'.1 hknown
    rcases hgrows.role? hr with hsame | ⟨-, hconstant⟩
    · simp [hsame]
    · simp [hconstant]
  · intro maxLength text tokens hscan
    exact hgrows.scan hscan

/-- A variable that a failing merge has left becomes a constant; the text that names it is scanned before
and after. -/
theorem names_only_grow_set_constant :
    ∃ s, s = ofSteps ⟨100, 1000⟩ [.newScope "r", .use "r"
        (.add (Table.ofList [("tau", .integer 6), ("y", .text "two")]))] ∧
      0 < s.scopes.length ∧ Token.scan (s.scopeAt 0) 100 "2*tau" =
        .ok [.number 2, .op "*", .var "tau", .ending] ∧
      ∃ tokens', Token.scan ((s.after [.use "r" (.setConstant "tau" 6.25)]).scopeAt 0) 100 "2*tau" =
          .ok tokens' ∧
        List.Forall₂ Token.Becomes [.number 2, .op "*", .var "tau", .ending] tokens' := by
  let history : List Step := [.newScope "r",
    .use "r" (.add (Table.ofList [("tau", .integer 6), ("y", .text "two")]))]
  have hindex : 0 < (ofSteps ⟨100, 1000⟩ history).scopes.length := by decide +kernel
  have hscan : Token.scan ((ofSteps ⟨100, 1000⟩ history).scopeAt 0) 100 "2*tau" =
      .ok [.number 2, .op "*", .var "tau", .ending] := by
    decide +kernel
  exact ⟨_, rfl, hindex, hscan, (names_only_grow ⟨100, 1000⟩ history rfl hindex
    [.use "r" (.setConstant "tau" 6.25)]).2 _ _ _ hscan⟩

end Session
end Reckoner
