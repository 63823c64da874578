import Reckoner.Proofs.Descent.Locality
import Reckoner.Proofs.Descent.Whole

/-!
Viable prefixes. A fault of the grammar is found at the first token that no sentence has there: what
has been consumed begins a sentence, and with the token ahead it begins none.
-/

namespace Reckoner

variable {scope : Scope} {order : PowerOrder}

/-- The tokens of an expression with an ending behind. -/
def Sentence (order : PowerOrder) (ts : List Token) : Prop :=
  ∃ tree : Phrase order (.whole .expression), ts = tree.tokens ++ [.ending]

section Elementary

variable [Elementary]

/-- Phrases do not fail for their grammar. -/
theorem Cause.isSyntax_eq_false {fault : Fault} {u v : List Token}
    (c : Cause scope order (.fault fault) u v) : fault.isSyntax = false := by
  cases c with
  | unbound => rfl
  | call hvalues hcall =>
      rcases Builtin.callNamed_eq_error hcall with ⟨h, -⟩ | ⟨_, h⟩ | ⟨fault', h, hgrammar⟩
      · cases h
      · cases h
      · obtain rfl := Halt.fault.inj h
        exact hgrammar

/-- A fault of the grammar is found before a token. -/
theorem Blame.exists_ahead {fault : Fault} {u rest : List Token}
    (b : Blame scope order (.fault fault) u rest) (hgrammar : fault.isSyntax) :
    ∃ t behind, rest = t :: behind := by
  cases b with
  | grammar _ u t rest => exact ⟨t, rest, rfl⟩
  | cause c => simp [c.isSyntax_eq_false] at hgrammar

/-- With any number of frames, sentences have no fault of the grammar. -/
theorem sentence_ne_grammar (tree : Phrase order (.whole .expression)) (frames : Nat)
    {fault : Fault} (hgrammar : fault.isSyntax) :
    ((wholeExpression scope order frames).run (tree.tokens ++ [.ending])).result ≠
      .error (.fault fault) := by
  intro hresult
  have houtcome : tree.outcome scope = .error (.fault fault) := by
    rcases wholeExpression_tooDeep_or_outcome scope tree frames [] with hdeep | htree
    · rw [hresult] at hdeep
      cases hdeep
    · exact htree.symm.trans hresult
  obtain ⟨u, v, -, hcause⟩ := tree.explained houtcome
  simp [hcause.isSyntax_eq_false] at hgrammar

/-- A reader that fails in tokens for their grammar, and the token where it does. -/
theorem exists_split_of_grammar {frames : Nat} {ts : List Token} {fault : Fault}
    (hgrammar : fault.isSyntax)
    (hresult : ((wholeExpression scope order frames).start ts).result = .error (.fault fault)) :
    ∃ (tree : Phrase order (.whole .expression)) (u : List Token) (t : Token)
      (behind : List Token), u <+: tree.tokens ∧ ts = u ++ t :: behind ∧
        (wholeExpression scope order frames).run (u ++ t :: behind) =
          ⟨.error (.fault fault), t :: behind⟩ := by
  cases hrun : (wholeExpression scope order frames).run ts with
  | mk result rest =>
    obtain rfl : result = .error (.fault fault) := by simpa [Reader.start, hrun] using hresult
    obtain ⟨tree, u, hu, rfl, hblame⟩ := wholeExpression_halts hrun
    obtain ⟨t, behind, rfl⟩ := hblame.exists_ahead hgrammar
    exact ⟨tree, u, t, behind, hu, rfl, hrun⟩

/-- A fault of the grammar is reported at the earliest token: those before it begin a sentence, with
it they begin none, so nothing behind it has a say. A sentence has no such fault. -/
theorem wholeExpression_faults_earliest (scope : Scope) (order : PowerOrder) (frames : Nat)
    (ts : List Token) :
    (∀ fault : Fault, fault.isSyntax →
      ((wholeExpression scope order frames).start ts).result = .error (.fault fault) →
        ((wholeExpression scope order frames).start ts).cursor < ts.length ∧
        (∃ s, Sentence order s ∧
          ts.take ((wholeExpression scope order frames).start ts).cursor <+: s) ∧
        (∀ s, Sentence order s →
          ¬ts.take (((wholeExpression scope order frames).start ts).cursor + 1) <+: s) ∧
        ∀ ts', ts'.take (((wholeExpression scope order frames).start ts).cursor + 1) =
            ts.take (((wholeExpression scope order frames).start ts).cursor + 1) →
          (wholeExpression scope order frames).start ts' =
            (wholeExpression scope order frames).start ts) ∧
    (Sentence order ts → ∀ fault : Fault, fault.isSyntax →
      ((wholeExpression scope order frames).start ts).result ≠ .error (.fault fault)) := by
  constructor
  · intro fault hgrammar hresult
    obtain ⟨tree, u, t, behind, hu, rfl, hrun⟩ := exists_split_of_grammar hgrammar hresult
    -- all tokens that begin alike up to `t` have the fault there
    have hlocal (w : List Token) :
        (wholeExpression scope order frames).run (u ++ t :: w) =
          ⟨.error (.fault fault), t :: w⟩ :=
      (localAt_closed scope order).wholeExpression frames (u ++ t :: behind) rfl rfl hrun
    have htake : (u ++ t :: behind).take (u.length + 1) = u ++ [t] := by
      rw [List.take_length_add_append, List.take_one]
      rfl
    rw [Reader.start_eq hrun]
    simp only [htake, List.take_left]
    refine ⟨by simp, ?_, ?_, ?_⟩
    · exact ⟨_, ⟨tree, rfl⟩, hu.trans (List.prefix_append _ _)⟩
    · rintro _ ⟨other, rfl⟩ ⟨w, hw⟩
      rw [List.append_assoc, List.singleton_append] at hw
      apply sentence_ne_grammar other frames hgrammar
      rw [← hw, hlocal w]
    · intro ts' hts'
      obtain ⟨w, rfl⟩ : ∃ w, ts' = u ++ t :: w := by
        refine ⟨ts'.drop (u.length + 1), ?_⟩
        rw [← List.singleton_append, ← List.append_assoc, ← hts', List.take_append_drop]
      exact Reader.start_eq (hlocal w)
  · rintro ⟨tree, rfl⟩ fault hgrammar
    exact sentence_ne_grammar tree frames hgrammar

end Elementary

/-- An operand is missing before the parenthesis. -/
theorem wholeExpression_faults_at_missing_operand :
    ((wholeExpression Scope.builtin .fromLeft 10).start
        [.number 1, .op "+", .op ")", .ending]).result =
      .error (.fault (.unexpectedToken (.op ")"))) ∧
    (∃ s, Sentence .fromLeft s ∧ [.number 1, .op "+"] <+: s) ∧
    ∀ s, Sentence .fromLeft s → ¬[.number 1, .op "+", .op ")"] <+: s := by
  have hresult : ((wholeExpression Scope.builtin .fromLeft 10).start
      [.number 1, .op "+", .op ")", .ending]).result =
        .error (.fault (.unexpectedToken (.op ")"))) := by
    with_unfolding_all rfl
  have hcursor : ((wholeExpression Scope.builtin .fromLeft 10).start
      [.number 1, .op "+", .op ")", .ending]).cursor = 2 := by
    with_unfolding_all rfl
  obtain ⟨-, hviable, hstop, -⟩ := (wholeExpression_faults_earliest Scope.builtin .fromLeft 10
    [.number 1, .op "+", .op ")", .ending]).1 _ rfl hresult
  rw [hcursor] at hviable hstop
  exact ⟨hresult, hviable, hstop⟩

end Reckoner
