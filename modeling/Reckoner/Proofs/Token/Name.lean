import Reckoner.Proofs.Token.Scan

/-!
Names as tokens. A name that a scope knows is a text of one token, which is the name in its role; and
the other way round, what a scanned token has for a name is an identifier.
-/

namespace Reckoner

/-- The token of a name in a role. -/
def Role.token (name : String) : Role → Token
  | .func => .func name
  | .const => .const name
  | .var => .var name

theorem Role.token_inj {name name' : String} {r r' : Role} (h : r.token name = r'.token name') :
    r = r' ∧ name = name' := by
  cases r <;> cases r' <;> simp_all [token]

theorem Lexeme.named?_eq (scope : Scope) (name : String) :
    named? scope name = (scope.role? name).map (Role.token name) := by
  unfold named? Scope.role?
  cases (Builtin.ofName? name).isSome <;> cases scope.constants.contains name <;>
    cases scope.vars.contains name <;> rfl

/-- Only a name stands for the token of a name. -/
theorem Lexeme.eq_of_token?_eq_token {scope : Scope} {l : Lexeme} {r : Role} {name : String}
    (h : l.token? scope = some (r.token name)) : l = .name name.toList := by
  cases l with
  | name run =>
      replace h : named? scope (String.ofList run) = some (r.token name) := h
      rw [named?_eq] at h
      obtain ⟨r', -, htoken⟩ := Option.map_eq_some_iff.1 h
      rw [← (Role.token_inj htoken).2, String.toList_ofList]
  | number | operator | comma => cases r <;> cases h

namespace Token

variable {scope : Scope} {limit : Int} {text name : String} {r : Role}

/-- A known name is scanned as the one token that it is in its role. -/
theorem scan_name (hname : Text.isName name.toList) (hrole : scope.role? name = some r)
    (hlimit : (name.length : Int) ≤ limit) :
    scan scope limit name = .ok [r.token name, .ending] := by
  have htoken : (Lexeme.name name.toList).token? scope = some (r.token name) := by
    rw [Lexeme.token?, String.ofList_toList, Lexeme.named?_eq, hrole]
    rfl
  have hsplits : Splits (name.toList ++ []) [.name name.toList] :=
    .lexeme (l := .name name.toList) hname nofun .nil
  rw [List.append_nil] at hsplits
  exact scan_eq_ok_iff.2
    ⟨hlimit, [.name name.toList], [r.token name], hsplits, .cons htoken .nil, rfl⟩

/-- What is scanned as a name is an identifier. -/
theorem isName_of_scan {tokens : List Token} (hscan : scan scope limit text = .ok tokens)
    (hmem : r.token name ∈ tokens) : Text.isName name.toList := by
  rcases (scan_eq_ok_iff.1 hscan).2.exists_lexeme hmem with hending | ⟨l, hl, htoken⟩
  · cases r <;> cases hending
  · rwa [Lexeme.eq_of_token?_eq_token htoken] at hl

end Token
end Reckoner
