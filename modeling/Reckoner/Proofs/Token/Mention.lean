import Reckoner.Proofs.Scope
import Reckoner.Proofs.Token.Scan

/-!
The names that scanning a text comes to. What is scanned, and where scanning fails, depends on the
roles of these names and on nothing else in the scope.
-/

namespace Reckoner

/-- Scanning comes to a name: the text before it falls into blanks and lexemes that have tokens, and
the name is as long as it can be. It need not be known itself. -/
inductive Mentions (scope : Scope) (name : String) : List Char → Prop
  | here {run cs : List Char} (h : Text.isName run) (hname : String.ofList run = name)
      (hlongest : ∀ c, cs.head? = some c → Text.isNamePart c = false) :
      Mentions scope name (run ++ cs)
  | blank {c : Char} {cs : List Char} (h : Text.isBlank c) (hrest : Mentions scope name cs) :
      Mentions scope name (c :: cs)
  | lexeme {l : Lexeme} {t : Token} {cs : List Char} (h : l.WellFormed)
      (hlongest : ∀ c, cs.head? = some c → l.takes c = false) (htoken : l.token? scope = some t)
      (hrest : Mentions scope name cs) : Mentions scope name (l.text ++ cs)

namespace Mentions

variable {scope : Scope} {name : String}

/-- Scanning comes to identifiers only. -/
theorem isName {cs : List Char} (h : Mentions scope name cs) : Text.isName name.toList := by
  induction h with
  | here h hname =>
      subst hname
      rwa [String.toList_ofList]
  | blank _ _ ih => exact ih
  | lexeme _ _ _ _ ih => exact ih

end Mentions

theorem Except.bind_congr_of_ok {α β ε : Type} {x : Except ε α} {f g : α → Except ε β}
    (h : ∀ a, x = .ok a → f a = g a) : (x >>= f) = (x >>= g) := by
  cases x with
  | error e => rfl
  | ok a => exact h a rfl

namespace Token

variable {scope scope' : Scope}

/-- The token of a name says which role the name has. -/
theorem role?_of_named? {name : String} {t : Token} (h : Lexeme.named? scope name = some t) :
    t = .func name ∨ t = .const name ∧ scope.role? name = some .const ∨
      t = .var name ∧ scope.role? name = some .var := by
  unfold Lexeme.named? at h
  unfold Scope.role?
  split at h
  · exact .inl (Option.some.inj h).symm
  · rename_i hfunction
    rw [if_neg hfunction]
    split at h
    · rename_i hconstant
      exact .inr (.inl ⟨(Option.some.inj h).symm, if_pos hconstant⟩)
    · rename_i hconstant
      rw [if_neg hconstant]
      split at h
      · rename_i hvariable
        exact .inr (.inr ⟨(Option.some.inj h).symm, if_pos hvariable⟩)
      · cases h

/-- Two scopes agree on the token of a lexeme, if its name means the same in both. -/
theorem agreesOn_of_token? {l : Lexeme} {t : Token} (htoken : l.token? scope = some t)
    (h : ∀ run, l = .name run → scope.SameAt scope' (String.ofList run)) :
    scope.AgreesOn scope' t := by
  cases l with
  | number | operator | comma =>
      obtain rfl := Option.some.inj htoken
      trivial
  | name run =>
      have hsame := h run rfl
      rcases role?_of_named? htoken with rfl | ⟨rfl, hrole⟩ | ⟨rfl, hrole⟩
      · trivial
      · exact hsame.const hrole
      · exact hsame.var hrole

theorem agreesOn_of_splits {cs : List Char} {ls : List Lexeme} (hsplits : Splits cs ls)
    {ts : List Token} (htokens : List.Forall₂ (fun l t => l.token? scope = some t) ls ts)
    (h : ∀ name, Mentions scope name cs → scope.SameAt scope' name) :
    ∀ t ∈ ts, scope.AgreesOn scope' t := by
  induction hsplits generalizing ts with
  | nil =>
      cases htokens
      exact List.forall_mem_nil _
  | blank hblank _ ih => exact ih htokens fun name hname => h name (.blank hblank hname)
  | lexeme hl hlongest _ ih =>
      cases htokens with
      | cons htoken hrest =>
        refine List.forall_mem_cons.2 ⟨agreesOn_of_token? htoken ?_, ?_⟩
        · rintro run rfl
          exact h _ (.here hl rfl hlongest)
        · exact ih hrest fun name hname => h name (.lexeme hl hlongest htoken hname)

/-- Two scopes agree on all that is scanned under one of them, if the names that are come to mean the
same in both. -/
theorem agreesOn_of_scan {limit : Int} {text : String} {tokens : List Token}
    (hscan : scan scope limit text = .ok tokens)
    (h : ∀ name, Mentions scope name text.toList → scope.SameAt scope' name) :
    ∀ t ∈ tokens, scope.AgreesOn scope' t := by
  obtain ⟨ls, ts, hsplits, htokens, rfl⟩ := (scan_eq_ok_iff.1 hscan).2
  intro t ht
  rcases List.mem_append.1 ht with ht | ht
  · exact agreesOn_of_splits hsplits htokens h t ht
  · obtain rfl := List.mem_singleton.1 ht
    trivial

theorem ofName_congr {name : String} (h : scope.role? name = scope'.role? name) :
    ofName scope name = ofName scope' name := by
  unfold ofName
  rw [h]

/-- What is scanned, and any fault in it, depends on the roles of the names that scanning comes to. -/
theorem scanFrom_congr {position : Nat} {cs : List Char}
    (h : ∀ name, Mentions scope name cs → scope.role? name = scope'.role? name) :
    scanFrom scope position cs = scanFrom scope' position cs := by
  fun_induction scanFrom scope position cs with
  | case1 => exact scanFrom_nil.symm
  | case2 position c cs hc run ih =>
      conv_rhs => rw [scanFrom, if_pos hc]
      refine Except.bind_congr_of_ok fun t htoken => ?_
      obtain ⟨hnumber, -⟩ := wellFormed_of_ofNumeral (forall_mem_run hc cs) htoken
      rw [ih fun name hname => h name ?_]
      have hmention := hname.lexeme hnumber (head?_dropWhile_run isNumberPart cs) rfl
      rwa [Lexeme.text, List.cons_append, List.takeWhile_append_dropWhile] at hmention
  | case3 position c cs hnumber hc run ih =>
      have hname := Lexeme.wellFormed_name_run hc cs
      have hlongest := head?_dropWhile_run Text.isNamePart cs
      have hrole : scope.role? (String.ofList run) = scope'.role? (String.ofList run) := by
        apply h
        have hmention : Mentions scope (String.ofList run)
            ((c :: cs.takeWhile Text.isNamePart) ++ cs.dropWhile Text.isNamePart) :=
          .here hname rfl hlongest
        rwa [List.cons_append, List.takeWhile_append_dropWhile] at hmention
      conv_rhs => rw [scanFrom, if_neg hnumber, if_pos hc]
      rw [ofName_congr hrole]
      refine Except.bind_congr_of_ok fun t htoken => ?_
      rw [← ofName_congr hrole] at htoken
      rw [ih fun name hmention => h name ?_]
      have hbehind := hmention.lexeme hname hlongest (ofName_eq_ok_iff.1 htoken)
      rwa [Lexeme.text, List.cons_append, List.takeWhile_append_dropWhile] at hbehind
  | case4 position c cs hnumber hname hc ih =>
      conv_rhs => rw [scanFrom, if_neg hnumber, if_neg hname, if_pos hc]
      rw [ih fun name hmention =>
        h name (hmention.lexeme (l := .operator c) hc (fun _ _ => rfl) rfl)]
  | case5 position cs hnumber hname hoperator ih =>
      conv_rhs => rw [scanFrom, if_neg hnumber, if_neg hname, if_neg hoperator, if_pos rfl]
      rw [ih fun name hmention =>
        h name (hmention.lexeme (l := .comma) trivial (fun _ _ => rfl) rfl)]
  | case6 position c cs hnumber hname hoperator hcomma hblank ih =>
      conv_rhs => rw [scanFrom, if_neg hnumber, if_neg hname, if_neg hoperator, if_neg hcomma,
        if_pos hblank]
      exact ih fun name hmention => h name (.blank hblank hmention)
  | case7 position c cs hnumber hname hoperator hcomma hblank =>
      conv_rhs => rw [scanFrom, if_neg hnumber, if_neg hname, if_neg hoperator, if_neg hcomma,
        if_neg hblank]

theorem scan_congr {text : String}
    (h : ∀ name, Mentions scope name text.toList → scope.role? name = scope'.role? name)
    (limit : Int) : scan scope limit text = scan scope' limit text := by
  unfold scan
  rw [scanFrom_congr h]

end Token
end Reckoner
