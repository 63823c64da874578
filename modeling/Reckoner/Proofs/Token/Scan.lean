import Reckoner.Proofs.Token.Lexeme

/-!
What is scanned. A text has tokens exactly if it falls into blanks and lexemes whose names are
known, and then they are those of the lexemes, with one ending behind.
-/

namespace Reckoner.Token

variable {scope : Scope} {position : Nat}

theorem scanFrom_nil : scanFrom scope position [] = .ok [.ending] := by
  rw [scanFrom]
  rfl

theorem scanFrom_blank {c : Char} (h : Text.isBlank c) (cs : List Char) :
    scanFrom scope position (c :: cs) = scanFrom scope (position + 1) cs := by
  obtain ⟨hnumber, hname, hoperator, hcomma⟩ := isBlank_disjoint h
  rw [scanFrom]
  simp [hnumber, hname, hoperator, hcomma, h]

theorem ofNumeral_run {run : List Char} (h : (Lexeme.number run).WellFormed) (position : Nat) :
    ofNumeral (String.ofList run) position = .ok (.number (Numeral.ofRun run)) := by
  obtain ⟨hparts, hdigit, hpoints⟩ := h
  have hvalue : Numeral.real? (String.ofList run) = some (Numeral.ofRun run) := by
    rw [Numeral.real?_ofList hparts, if_pos ⟨List.any_eq_true.2 hdigit, hpoints⟩]
  rw [ofNumeral, hvalue]
  rfl

theorem ofName_eq_ok_iff {name : String} {t : Token} :
    ofName scope name = .ok t ↔ Lexeme.named? scope name = some t := by
  unfold ofName Scope.role? Lexeme.named?
  by_cases hfunction : (Builtin.ofName? name).isSome
  · simp [hfunction, pure, Except.pure]
  by_cases hconstant : scope.constants.contains name
  · simp [hfunction, hconstant, pure, Except.pure]
  by_cases hvariable : scope.vars.contains name
  · simp [hfunction, hconstant, hvariable, pure, Except.pure]
  · simp [hfunction, hconstant, hvariable]

/-- A lexeme that is as long as it can be is scanned as its token. -/
theorem scanFrom_lexeme {l : Lexeme} {t : Token} {cs : List Char} (h : l.WellFormed)
    (hlongest : ∀ c, cs.head? = some c → l.takes c = false) (htoken : l.token? scope = some t) :
    scanFrom scope position (l.text ++ cs) =
      scanFrom scope (position + l.text.length) cs >>= fun ts => .ok (t :: ts) := by
  cases l with
  | number run =>
      have hnumeral := ofNumeral_run h position
      obtain ⟨hparts, ⟨d, hd, -⟩, -⟩ := h
      obtain rfl : .number (Numeral.ofRun run) = t := Option.some.inj htoken
      cases run with
      | nil => simp at hd
      | cons c run =>
        have hrun : ∀ d ∈ run, isNumberPart d := fun d hd => hparts d (List.mem_cons_of_mem c hd)
        rw [Lexeme.text, List.cons_append, scanFrom, if_pos (hparts c List.mem_cons_self)]
        simp only [takeWhile_run hrun hlongest, dropWhile_run hrun hlongest, hnumeral]
        rfl
  | name run =>
      cases run with
      | nil => simp [Lexeme.WellFormed, Text.isName] at h
      | cons c run =>
        obtain ⟨hstart, hrun⟩ : Text.isNameStart c ∧ ∀ d ∈ run, Text.isNamePart d := by
          simpa [Lexeme.WellFormed, Text.isName] using h
        have hname : ofName scope (String.ofList (c :: run)) = .ok t := ofName_eq_ok_iff.2 htoken
        rw [Lexeme.text, List.cons_append, scanFrom, if_neg (by simp [isNameStart_disjoint hstart]),
          if_pos hstart]
        simp only [takeWhile_run hrun hlongest, dropWhile_run hrun hlongest, hname]
        rfl
  | operator c =>
      replace h : isOperator c := h
      obtain ⟨hnumber, hname⟩ := isOperator_disjoint h
      obtain rfl : .op (String.singleton c) = t := Option.some.inj htoken
      rw [Lexeme.text, List.singleton_append, scanFrom, if_neg (by simp [hnumber]),
        if_neg (by simp [hname]), if_pos h]
      rfl
  | comma =>
      obtain rfl : .separator = t := Option.some.inj htoken
      rw [Lexeme.text, List.singleton_append, scanFrom]
      rfl

/-- The tokens of lexemes that the text falls into. -/
theorem scanFrom_of_splits {cs : List Char} {ls : List Lexeme} (h : Splits cs ls) {ts : List Token}
    (htokens : List.Forall₂ (fun l t => l.token? scope = some t) ls ts) :
    scanFrom scope position cs = .ok (ts ++ [.ending]) := by
  induction h generalizing position ts with
  | nil =>
      cases htokens
      exact scanFrom_nil
  | blank hblank _ ih =>
      rw [scanFrom_blank hblank]
      exact ih htokens
  | lexeme hl hlongest _ ih =>
      cases htokens with
      | cons htoken hrest =>
        rw [scanFrom_lexeme hl hlongest htoken, ih hrest]
        rfl

theorem Except.bind_eq_ok {α β ε : Type} {x : Except ε α} {f : α → Except ε β} {b : β}
    (h : (x >>= f) = .ok b) : ∃ a, x = .ok a ∧ f a = .ok b := by
  cases x with
  | error e => cases h
  | ok a => exact ⟨a, rfl, h⟩

theorem wellFormed_of_ofNumeral {run : List Char} (hrun : ∀ c ∈ run, isNumberPart c) {t : Token}
    (h : ofNumeral (String.ofList run) position = .ok t) :
    (Lexeme.number run).WellFormed ∧ t = .number (Numeral.ofRun run) := by
  unfold ofNumeral at h
  rw [Numeral.real?_ofList hrun] at h
  by_cases hnumeral : run.any Char.isDigit ∧ run.count '.' ≤ 1
  · rw [if_pos hnumeral] at h
    exact ⟨⟨hrun, List.any_eq_true.1 hnumeral.1, hnumeral.2⟩, (Except.ok.inj h).symm⟩
  · rw [if_neg hnumeral] at h
    cases h

/-- The tokens are those of lexemes that the text falls into, with one ending behind. -/
def Spelt (scope : Scope) (cs : List Char) (tokens : List Token) : Prop :=
  ∃ ls ts, Splits cs ls ∧ List.Forall₂ (fun l t => l.token? scope = some t) ls ts ∧
    tokens = ts ++ [.ending]

theorem Spelt.cons {cs : List Char} {tokens : List Token} (h : Spelt scope cs tokens) {l : Lexeme}
    {t : Token} (hl : l.WellFormed) (hlongest : ∀ c, cs.head? = some c → l.takes c = false)
    (htoken : l.token? scope = some t) : Spelt scope (l.text ++ cs) (t :: tokens) := by
  obtain ⟨ls, ts, hsplits, htokens, rfl⟩ := h
  exact ⟨l :: ls, t :: ts, .lexeme hl hlongest hsplits, .cons htoken htokens, rfl⟩

/-- What has been scanned are the tokens of lexemes that the text falls into. -/
theorem spelt_of_scanFrom {cs : List Char} {tokens : List Token}
    (h : scanFrom scope position cs = .ok tokens) : Spelt scope cs tokens := by
  fun_induction scanFrom scope position cs generalizing tokens with
  | case1 =>
      obtain rfl : [.ending] = tokens := Except.ok.inj h
      exact ⟨[], [], .nil, .nil, rfl⟩
  | case2 =>
      rename_i position c cs hc run ih
      obtain ⟨t, htoken, h⟩ := Except.bind_eq_ok h
      obtain ⟨rest, hrest, h⟩ := Except.bind_eq_ok h
      obtain rfl : t :: rest = tokens := Except.ok.inj h
      obtain ⟨hnumber, rfl⟩ := wellFormed_of_ofNumeral (forall_mem_run hc cs) htoken
      -- the run and what was dropped behind it are the text again
      have hspelt := (ih hrest).cons hnumber (head?_dropWhile_run isNumberPart cs) rfl
      rwa [Lexeme.text, List.cons_append, List.takeWhile_append_dropWhile] at hspelt
  | case3 =>
      rename_i position c cs _ hc run ih
      obtain ⟨t, htoken, h⟩ := Except.bind_eq_ok h
      obtain ⟨rest, hrest, h⟩ := Except.bind_eq_ok h
      obtain rfl : t :: rest = tokens := Except.ok.inj h
      have hspelt := (ih hrest).cons (Lexeme.wellFormed_name_run hc cs)
        (head?_dropWhile_run Text.isNamePart cs) (ofName_eq_ok_iff.1 htoken)
      rwa [Lexeme.text, List.cons_append, List.takeWhile_append_dropWhile] at hspelt
  | case4 position c cs _ _ hc ih =>
      obtain ⟨rest, hrest, h⟩ := Except.bind_eq_ok h
      obtain rfl : .op (String.singleton c) :: rest = tokens := Except.ok.inj h
      exact (ih hrest).cons (l := .operator c) hc (fun _ _ => rfl) rfl
  | case5 position cs _ _ _ ih =>
      obtain ⟨rest, hrest, h⟩ := Except.bind_eq_ok h
      obtain rfl : .separator :: rest = tokens := Except.ok.inj h
      exact (ih hrest).cons (l := .comma) trivial (fun _ _ => rfl) rfl
  | case6 position c cs _ _ _ _ hblank ih =>
      obtain ⟨ls, ts, hsplits, htokens, rfl⟩ := ih h
      exact ⟨ls, ts, .blank hblank hsplits, htokens, rfl⟩
  | case7 => cases h

/-- No lexeme stands for an ending or for an invalid token. -/
theorem proper_of_token? {l : Lexeme} {t : Token} (h : l.token? scope = some t) :
    t ≠ .ending ∧ t ≠ .invalid := by
  cases l with
  | number | operator | comma =>
      obtain rfl := Option.some.inj h
      exact ⟨nofun, nofun⟩
  | name run =>
      rcases Lexeme.named?_cases h with ⟨rfl, -⟩ | ⟨rfl, -⟩ | ⟨rfl, -⟩ <;> exact ⟨nofun, nofun⟩

theorem Spelt.proper {cs : List Char} {tokens : List Token} (h : Spelt scope cs tokens) :
    ∃ ts, tokens = ts ++ [.ending] ∧ .ending ∉ ts ∧ .invalid ∉ ts := by
  obtain ⟨ls, ts, -, htokens, rfl⟩ := h
  refine ⟨ts, rfl, ?_⟩
  clear * - htokens
  induction htokens with
  | nil => simp
  | cons htoken _ ih =>
      obtain ⟨hending, hinvalid⟩ := proper_of_token? htoken
      simp [hending.symm, hinvalid.symm, ih]

/-- Each token but the ending stands for a lexeme. -/
theorem Spelt.exists_lexeme {cs : List Char} {tokens : List Token} (h : Spelt scope cs tokens)
    {t : Token} (ht : t ∈ tokens) :
    t = .ending ∨ ∃ l : Lexeme, l.WellFormed ∧ l.token? scope = some t := by
  obtain ⟨ls, ts, hsplits, htokens, rfl⟩ := h
  have hwell := hsplits.wellFormed
  clear hsplits
  induction htokens with
  | nil => exact .inl (List.mem_singleton.1 ht)
  | cons htoken _ ih =>
      obtain ⟨hl, hls⟩ := List.forall_mem_cons.1 hwell
      rcases List.mem_cons.1 ht with rfl | ht
      · exact .inr ⟨_, hl, htoken⟩
      · exact ih ht hls

theorem scan_eq_ok_iff {limit : Int} {text : String} {tokens : List Token} :
    scan scope limit text = .ok tokens ↔
      (text.length : Int) ≤ limit ∧ Spelt scope text.toList tokens := by
  unfold scan
  by_cases hlong : limit < text.length
  · rw [if_pos hlong]
    constructor
    · intro h
      cases h
    · rintro ⟨hshort, -⟩
      omega
  · rw [if_neg hlong]
    constructor
    · intro h
      exact ⟨by omega, spelt_of_scanFrom h⟩
    · rintro ⟨-, ls, ts, hsplits, htokens, rfl⟩
      exact scanFrom_of_splits hsplits htokens

/-- A text is scanned exactly if it is short enough and falls into blanks and lexemes, each as long
as it can be, with names that the scope knows; it does so in one way only. Its tokens are those of
the lexemes in order, and an ending; none of them is another ending or invalid. -/
theorem scan_accepts_lexical_grammar (scope : Scope) (limit : Int) (text : String)
    (tokens : List Token) :
    (scan scope limit text = .ok tokens ↔
      (text.length : Int) ≤ limit ∧
        ∃ ls ts, Splits text.toList ls ∧ List.Forall₂ (fun l t => l.token? scope = some t) ls ts ∧
          tokens = ts ++ [.ending]) ∧
    (∀ ls₁ ls₂, Splits text.toList ls₁ → Splits text.toList ls₂ → ls₁ = ls₂) ∧
    (scan scope limit text = .ok tokens →
      ∃ ts, tokens = ts ++ [.ending] ∧ .ending ∉ ts ∧ .invalid ∉ ts) :=
  ⟨scan_eq_ok_iff, fun _ _ => Splits.unique, fun h => (scan_eq_ok_iff.1 h).2.proper⟩

end Reckoner.Token
