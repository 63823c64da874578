import Reckoner.Proofs.Descent.Closure
import Reckoner.Proofs.Evaluation

/-!
The course of an evaluation. The tokens are consumed one by one and none twice, up to where the
evaluation ends; the ending is always ahead, and all names that come up are known. So the ways in
which a reader could lose its place or a name never come about from a text.
-/

namespace Reckoner

variable {α : Type}

/-- The tokens that are left at some moment while a reader runs: where it starts and where it ends,
and while the readers run that it is made of. -/
inductive Reader.Passes : {α : Type} → Reader α → List Token → List Token → Prop
  | start {α : Type} (r : Reader α) (ts : List Token) : Passes r ts ts
  | stop {α : Type} (r : Reader α) (ts : List Token) : Passes r ts (r.run ts).rest
  | first {α β : Type} {r : Reader α} {ts m : List Token} (h : Passes r ts m) (f : α → Reader β) :
      Passes (r >>= f) ts m
  | next {α β : Type} {r : Reader α} {f : α → Reader β} {ts mid m : List Token} {a : α}
      (hrun : r.run ts = ⟨.ok a, mid⟩) (h : Passes (f a) mid m) : Passes (r >>= f) ts m
  | loop {α : Type} {step : α → Token → Option (Reader α)} {a : α} {t : Token} {r : Reader α}
      {ts m : List Token} (hr : step a t = some r) (h : Passes (r >>= Reader.loop step) ts m) :
      Passes (Reader.loop step a) (t :: ts) m

namespace Reader

/-- Nothing is put back: at each moment there is left an end of what was given, and what is left in
the end is an end of that. -/
theorem Passes.suffix {r : Reader α} {ts m : List Token} (h : r.Passes ts m) :
    m <:+ ts ∧ (r.run ts).rest <:+ m := by
  induction h with
  | start r ts => exact ⟨List.suffix_rfl, r.suffix ts⟩
  | stop r ts => exact ⟨r.suffix ts, List.suffix_rfl⟩
  | first _ f ih => exact ⟨ih.1, (resume_suffix f _).trans ih.2⟩
  | @next _ _ r f ts mid m a hrun _ ih =>
      have hmid : mid <:+ ts := by
        have hsuffix := r.suffix ts
        rwa [hrun] at hsuffix
      rw [run_bind, hrun]
      exact ⟨ih.1.trans hmid, ih.2⟩
  | loop hr _ ih =>
      rw [run_loop_go hr]
      exact ⟨ih.1.trans (List.suffix_cons _ _), ih.2⟩

/-- The reader consumes tokens one at a time: it comes by all that lies between its start and its
end. -/
def PassesAll (r : Reader α) (ts : List Token) : Prop :=
  ∀ ⦃m⦄, m <:+ ts → (r.run ts).rest <:+ m → r.Passes ts m

theorem passesAll_of_idle {r : Reader α} {ts : List Token} (h : (r.run ts).rest = ts) :
    r.PassesAll ts := by
  intro m hm hrest
  rw [h] at hrest
  obtain rfl : m = ts := hm.eq_of_length_le hrest.length_le
  exact .start r m

theorem PassesAll.bind {β : Type} {r : Reader α} {f : α → Reader β} {ts : List Token}
    (hr : r.PassesAll ts) (hf : ∀ a mid, r.run ts = ⟨.ok a, mid⟩ → (f a).PassesAll mid) :
    (r >>= f).PassesAll ts := by
  intro m hm hrest
  -- the moment comes while the first reader runs, or after it
  rcases List.suffix_or_suffix_of_suffix (r.suffix ts) hm with hbefore | hafter
  · exact .first (hr hm hbefore) f
  · rw [run_bind] at hrest
    cases hrun : r.run ts with
    | mk result mid =>
      rw [hrun] at hafter hrest
      cases result with
      | ok a => exact .next hrun (hf a mid hrun hafter hrest)
      | error e =>
          have hmid : (r.run ts).rest <:+ m := by
            rw [hrun]
            exact hrest
          exact .first (hr hm hmid) f

theorem passesAll_skip (t : Token) (ts : List Token) : skip.PassesAll (t :: ts) := by
  intro m hm hrest
  rcases List.suffix_cons_iff.1 hm with rfl | hm
  · exact .start skip _
  · obtain rfl : m = ts := hm.eq_of_length_le hrest.length_le
    exact .stop skip (t :: m)

theorem passesAll_closed [Elementary] (scope : Scope) (order : PowerOrder) :
    Closed scope order @PassesAll where
  pure a ts := passesAll_of_idle rfl
  fail h ts := passesAll_of_idle rfl
  ahead ts := passesAll_of_idle (by cases ts <;> rfl)
  bind := PassesAll.bind
  skip _ := passesAll_skip _ _
  call h := (passesAll_skip _ _).bind fun _ mid hskip => by
    obtain rfl := congrArg Reply.rest hskip
    exact h
  loopEnd {α step a ts} hend := by
    refine passesAll_of_idle ?_
    cases ts with
    | nil => rw [run_loop_nil]
    | cons t ts => rw [run_loop_stop (hend t rfl)]
  loopGo {α step a t r ts} hr _ h := by
    intro m hm hrest
    rw [run_loop_go hr] at hrest
    rcases List.suffix_cons_iff.1 hm with rfl | hm
    · exact .start _ _
    · exact .loop hr (h hm hrest)

end Reader

variable {scope : Scope} {order : PowerOrder}

/-- A whole expression is read token by token from the first to the cursor. -/
theorem wholeExpression_passes_iff [Elementary] {frames : Nat} {ts m : List Token} :
    (wholeExpression scope order frames).Passes ts m ↔
      ∃ i ≤ ((wholeExpression scope order frames).start ts).cursor, m = ts.drop i := by
  have hdrop := List.suffix_iff_eq_drop.1 ((wholeExpression scope order frames).suffix ts)
  have hcursor : ((wholeExpression scope order frames).start ts).cursor =
    ts.length - ((wholeExpression scope order frames).run ts).rest.length := rfl
  constructor
  · intro h
    obtain ⟨hm, hrest⟩ := h.suffix
    refine ⟨ts.length - m.length, ?_, List.suffix_iff_eq_drop.1 hm⟩
    have hlength := hrest.length_le
    rw [hcursor]
    omega
  · rintro ⟨i, hi, rfl⟩
    refine (Reader.passesAll_closed scope order).wholeExpression frames ts (List.drop_suffix i ts) ?_
    rw [hdrop, ← hcursor]
    exact List.drop_suffix_drop_left ts hi

/-- The ending is not consumed. -/
theorem wholeExpression_cursor_lt [Elementary] (scope : Scope) (order : PowerOrder) (frames : Nat)
    (body : List Token) :
    ((wholeExpression scope order frames).start (body ++ [.ending])).cursor <
      (body ++ [Token.ending]).length := by
  cases hresult : ((wholeExpression scope order frames).start (body ++ [.ending])).result with
  | ok x =>
      cases hrun : (wholeExpression scope order frames).run (body ++ [.ending]) with
      | mk result rest =>
        obtain rfl : result = .ok x := by simpa [Reader.start, hrun] using hresult
        obtain ⟨tree, behind, -, rfl, -⟩ := wholeExpression_sound hrun
        simp only [Reader.start, hrun, List.length_append, List.length_cons]
        omega
  | error h =>
      obtain ⟨u, v, rfl, hcursor, -⟩ := wholeExpression_exists_blame hresult
      rw [hcursor]
      simp only [List.length_append, List.length_cons]
      omega

/-- Whether the fault is one of the text, found before it has tokens. -/
def Fault.isLexical : Fault → Bool
  | .unexpectedCharacter .. | .malformedNumber .. | .unknownIdentifier _ | .tooLong .. => true
  | _ => false

namespace Token

theorem isLexical_of_ofNumeral {run : String} {position : Nat} {fault : Fault}
    (h : ofNumeral run position = .error fault) : fault.isLexical := by
  unfold ofNumeral at h
  split at h
  · cases h
  · obtain rfl := Except.error.inj h
    rfl

theorem isLexical_of_ofName {name : String} {fault : Fault}
    (h : ofName scope name = .error fault) : fault.isLexical := by
  unfold ofName at h
  split at h
  · cases h
  · cases h
  · cases h
  · obtain rfl := Except.error.inj h
    rfl

/-- What follows a token is scanned with the same faults. -/
theorem isLexical_of_tail {tokens : Except Fault (List Token)} {t : Token} {fault : Fault}
    (hrest : ∀ fault, tokens = .error fault → fault.isLexical)
    (h : (tokens >>= fun ts => pure (t :: ts)) = .error fault) : fault.isLexical := by
  rcases Except.bind_eq_error h with htokens | ⟨ts, -, hok⟩
  · exact hrest fault htokens
  · cases hok

theorem isLexical_of_scanFrom {position : Nat} {cs : List Char} {fault : Fault}
    (h : scanFrom scope position cs = .error fault) : fault.isLexical := by
  fun_induction scanFrom scope position cs generalizing fault with
  | case1 => cases h
  | case2 =>
      rename_i position c cs _ run ih
      rcases Except.bind_eq_error h with htoken | ⟨t, -, htail⟩
      · exact isLexical_of_ofNumeral htoken
      · exact isLexical_of_tail (fun fault => ih) htail
  | case3 =>
      rename_i position c cs _ _ run ih
      rcases Except.bind_eq_error h with htoken | ⟨t, -, htail⟩
      · exact isLexical_of_ofName htoken
      · exact isLexical_of_tail (fun fault => ih) htail
  | case4 position c cs _ _ _ ih => exact isLexical_of_tail (fun fault => ih) h
  | case5 position cs _ _ _ ih => exact isLexical_of_tail (fun fault => ih) h
  | case6 position c cs _ _ _ _ _ ih => exact ih h
  | case7 =>
      obtain rfl := Except.error.inj h
      rfl

theorem isLexical_of_scan {limit : Int} {text : String} {fault : Fault}
    (h : scan scope limit text = .error fault) : fault.isLexical := by
  unfold scan at h
  split at h
  · obtain rfl := Except.error.inj h
    rfl
  · exact isLexical_of_scanFrom h

end Token

/-- Among names that are known no variable is without a value. -/
theorem wholeExpression_ne_undefinedVariable [Elementary] {body : List Token}
    (hresolves : ∀ t ∈ body, scope.Resolves t) (frames : Nat) (name : String) :
    ((wholeExpression scope order frames).start (body ++ [.ending])).result ≠
      .error (.fault (.undefinedVariable name)) := by
  intro hresult
  obtain ⟨u, v, rfl, -, hblame⟩ := wholeExpression_exists_blame hresult
  have hknown := resolves_append_ending hresolves
  rw [List.append_assoc] at hknown
  generalize v ++ [.ending] = rest at hblame hknown
  cases hblame with
  | grammar hsyntax => cases hsyntax
  | cause c =>
      obtain ⟨front, function, args, xs, -, -, hcall⟩ := c.exists_call hknown
      exact Builtin.callNamed_ne_undefinedVariable function xs name hcall

/-- From a text the reader never comes to ask for a token behind the last one, nor for a name that is
not known. All tokens from the first to the cursor are read one after the other, none of them twice,
and the cursor is on one of the tokens: at the latest on the only ending, which is the last. -/
theorem evaluate_contained [Elementary] (limits : Limits) (scope : Scope) (order : PowerOrder)
    (text : String) :
    ((evaluate limits scope order text).result ≠ .error .pastEnd ∧
      (∀ name, (evaluate limits scope order text).result ≠ .error (.unknownName name)) ∧
      ∀ name, (evaluate limits scope order text).result ≠
        .error (.fault (.undefinedVariable name))) ∧
    ∀ tokens, (evaluate limits scope order text).tokens? = some tokens →
      (∃ body, tokens = body ++ [.ending] ∧ .ending ∉ body ∧ ∀ t ∈ body, scope.Resolves t) ∧
      (evaluate limits scope order text).cursor < tokens.length ∧
      ∀ m, (wholeExpression scope order limits.frames).Passes tokens m ↔
        ∃ i ≤ (evaluate limits scope order text).cursor, m = tokens.drop i := by
  refine ⟨?_, ?_⟩
  · have hvariable : ∀ name, (evaluate limits scope order text).result ≠
        .error (.fault (.undefinedVariable name)) := by
      intro name
      unfold evaluate
      cases hscan : Token.scan scope limits.length text with
      | error fault =>
          intro h
          obtain rfl : fault = .undefinedVariable name := by simpa [hscan] using h
          cases Token.isLexical_of_scan hscan
      | ok tokens =>
          obtain ⟨body, rfl, -, hresolves⟩ := Token.resolves_of_scan hscan
          exact wholeExpression_ne_undefinedVariable hresolves limits.frames name
    rcases evaluate_cases limits scope order text with ⟨x, h⟩ | ⟨fault, h⟩ | h | ⟨failure, h⟩
    all_goals
      rw [h] at hvariable ⊢
      exact ⟨nofun, nofun, hvariable⟩
  · intro tokens htokens
    unfold evaluate at htokens ⊢
    cases hscan : Token.scan scope limits.length text with
    | error fault => simp [hscan] at htokens
    | ok scanned =>
        obtain rfl : scanned = tokens := by simpa [hscan] using htokens
        obtain ⟨body, rfl, hending, hresolves⟩ := Token.resolves_of_scan hscan
        exact ⟨⟨body, rfl, hending, hresolves⟩,
          wholeExpression_cursor_lt scope order limits.frames body,
          fun m => wholeExpression_passes_iff⟩

/-- The operand is missing: the cursor stays on the ending. -/
theorem evaluate_contained_missing_operand :
    (evaluate ⟨10000, 1000⟩ Scope.builtin .fromLeft "-").tokens? = some [.op "-", .ending] ∧
      (evaluate ⟨10000, 1000⟩ Scope.builtin .fromLeft "-").result =
        .error (.fault (.unexpectedToken .ending)) ∧
      (wholeExpression Scope.builtin .fromLeft 1000).Passes [.op "-", .ending] [.ending] ∧
      ¬(wholeExpression Scope.builtin .fromLeft 1000).Passes [.op "-", .ending] [] := by
  have htokens : (evaluate ⟨10000, 1000⟩ Scope.builtin .fromLeft "-").tokens? =
      some [.op "-", .ending] := by
    with_unfolding_all rfl
  have hcursor : (evaluate ⟨10000, 1000⟩ Scope.builtin .fromLeft "-").cursor = 1 := by
    with_unfolding_all rfl
  obtain ⟨-, -, hpasses⟩ :=
    (evaluate_contained ⟨10000, 1000⟩ Scope.builtin .fromLeft "-").2 _ htokens
  rw [hcursor] at hpasses
  refine ⟨htokens, by with_unfolding_all rfl, (hpasses _).2 ⟨1, Nat.le_refl 1, rfl⟩, ?_⟩
  intro h
  obtain ⟨i, hi, hnil⟩ := (hpasses []).1 h
  have hlength := congrArg List.length hnil
  simp only [List.length_nil, List.length_drop, List.length_cons] at hlength
  omega

end Reckoner
