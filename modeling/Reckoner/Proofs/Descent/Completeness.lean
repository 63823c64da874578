import Reckoner.Proofs.Descent.Levels

/-!
The reader follows the grammar: on the tokens of a phrase, with enough frames, it has the outcome of
the phrase, and a value leaves what stands behind the phrase.
-/

namespace Reckoner

variable {α β : Type}

/-- The reply has a given outcome, and a value leaves the given tokens. -/
def Reply.Gives (r : Reply α) (outcome : Except Halt α) (rest : List Token) : Prop :=
  match outcome with
  | .ok a => r = ⟨.ok a, rest⟩
  | .error h => r.result = .error h

theorem Reply.Gives.result_eq {r : Reply α} {outcome : Except Halt α} {rest : List Token}
    (h : r.Gives outcome rest) : r.result = outcome := by
  cases outcome with
  | ok a => rw [h]
  | error e => exact h

namespace Reader

theorem gives_bind {r : Reader α} {f : α → Reader β} {outcome : Except Halt α}
    {g : α → Except Halt β} {ts mid rest : List Token} (hr : (r.run ts).Gives outcome mid)
    (hf : ∀ a, ((f a).run mid).Gives (g a) rest) :
    ((r >>= f).run ts).Gives (outcome >>= g) rest := by
  rw [run_bind]
  cases outcome with
  | ok a =>
      rw [show r.run ts = ⟨.ok a, mid⟩ from hr]
      exact hf a
  | error h =>
      cases hrun : r.run ts with
      | mk result rest' =>
        rw [hrun] at hr
        obtain rfl : result = .error h := hr
        exact rfl

theorem gives_pure (a : α) (ts : List Token) :
    ((pure a : Reader α).run ts).Gives (.ok a) ts := rfl

theorem gives_expect (symbol : String) (otherwise : Fault) (ts : List Token) :
    ((expect symbol otherwise).run (.op symbol :: ts)).Gives (.ok ()) ts := by
  simp [expect, Token.isOp, resume, Reply.Gives]

theorem gives_ofExcept (outcome : Except Halt α) (ts : List Token) :
    ((ofExcept outcome).run ts).Gives outcome ts := by
  rw [run_ofExcept]
  cases outcome <;> rfl

end Reader

theorem Phrase.exists_frames {m n : Nat} (h : m + 1 ≤ n) : ∃ k, n = k + 1 ∧ m ≤ k :=
  ⟨n - 1, by omega, by omega⟩

namespace Phrase

variable [Elementary] {order : PowerOrder} {scope : Scope}

/-- What the reader makes of the tokens of a phrase is the outcome of the phrase. -/
def Followed (scope : Scope) : {category : Category} → Phrase order category → Prop
  | .whole level, p => ∀ frames ts, p.frames ≤ frames → StopsAt level.extensions ts →
      ((level.read scope order frames).run (p.tokens ++ ts)).Gives (p.outcome scope) ts
  | .links c, p => ∀ frames ts a, p.frames ≤ frames → StopsAt c.extensions ts →
      ((Reader.loop (c.step (c.operand.read scope order frames)) a).run (p.tokens ++ ts)).Gives
        (p.outcome scope a) ts

theorem reader_gives {c : Chain} {first : Phrase order (.whole c.operand)}
    {rest : Phrase order (.links c)} (hfirst : first.Followed scope) (hrest : rest.Followed scope)
    {frames : Nat} {ts : List Token} (hf : max first.frames rest.frames ≤ frames)
    (hstop : StopsAt c.extensions ts) :
    ((c.reader (c.operand.read scope order frames)).run
        (first.tokens ++ rest.tokens ++ ts)).Gives
      (first.outcome scope >>= fun x => rest.outcome scope (c.start x)) ts := by
  rw [List.append_assoc]
  refine Reader.gives_bind (hfirst frames _ (by omega) (rest.links_stop hstop)) fun x => ?_
  exact hrest frames ts (c.start x) (by omega) hstop

theorem exponent_gives_base {tower : Reader Float} {ts : List Token}
    (hstop : StopsAt Chain.powers.extensions ts) (b : Float) :
    ((Level.exponent tower b).run ts).Gives (.ok b) ts := by
  cases ts with
  | nil => simp [StopsAt, Chain.extensions] at hstop
  | cons t ts =>
    have ht : t.isOp "^" = false := by
      simpa [Token.isOp] using fun h : t = .op "^" => hstop (by simp [h, Chain.extensions])
    simp [Level.exponent, Reader.resume, ht, Reply.Gives]

theorem exponent_gives_power {tower : Reader Float} {outcome : Except Halt Float}
    {ts rest : List Token} (h : (tower.run ts).Gives outcome rest) (b : Float) :
    ((Level.exponent tower b).run (.op "^" :: ts)).Gives
      (outcome >>= fun e => Halt.raising (Arithmetic.power b e)) rest := by
  have hrun : (Level.exponent tower b).run (.op "^" :: ts) =
      (tower >>= fun e => Reader.compute (Arithmetic.power b e)).run ts := by
    simp [Level.exponent, Token.isOp, Reader.resume]
  rw [hrun]
  exact Reader.gives_bind h fun e => Reader.gives_ofExcept _ rest

theorem followed {category : Category} (p : Phrase order category) : p.Followed scope := by
  -- the induction hypotheses need what stops each part: an operator, a parenthesis or the end
  induction p with
  | done c =>
      intro frames ts a _ hstop
      cases ts with
      | nil => cases c <;> simp [StopsAt, Chain.extensions] at hstop
      | cons t ts =>
        have hstep : c.step (c.operand.read scope order frames) a t = none := by
          rcases c.step_cases t with ⟨op, rfl⟩ | ⟨m, rfl⟩ | hnone
          · exact absurd (c.token_mem_extensions op) hstop
          · exact absurd (c.markToken_mem_extensions m) hstop
          · exact hnone _ a
        exact Reader.run_loop_stop hstep ts
  | link op operand rest ihOperand ihRest =>
      rename_i c
      intro frames ts a hf hstop
      simp only [Phrase.frames] at hf
      rw [tokens, List.cons_append, Reader.run_loop_go (c.step_token _ op a), bind_assoc,
        List.append_assoc]
      refine Reader.gives_bind (ihOperand frames _ (by omega) (rest.links_stop hstop)) fun x => ?_
      refine Reader.gives_bind (Reader.gives_ofExcept (op.apply a x) _) fun b => ?_
      exact ihRest frames ts b (by omega) hstop
  | mark m rest ih =>
      rename_i c
      intro frames ts a hf hstop
      rw [tokens, List.cons_append, Reader.run_loop_go (c.step_markToken _ m a)]
      refine Reader.gives_bind (Reader.gives_ofExcept (m.apply a) _) fun b => ?_
      exact ih frames ts b hf hstop
  | expression first rest ihFirst ihRest =>
      intro frames ts hf hstop
      obtain ⟨n, rfl, hn⟩ := exists_frames hf
      exact reader_gives ihFirst ihRest hn hstop
  | factor first rest ihFirst ihRest =>
      intro frames ts hf hstop
      obtain ⟨n, rfl, hn⟩ := exists_frames hf
      exact reader_gives ihFirst ihRest hn hstop
  | powerLeft h first rest ihFirst ihRest =>
      intro frames ts hf hstop
      obtain ⟨n, rfl, hn⟩ := exists_frames hf
      rw [Level.read_power_fromLeft _ _ _ h]
      exact reader_gives ihFirst ihRest hn hstop
  | powerRight h tower ih =>
      intro frames ts hf hstop
      obtain ⟨n, rfl, hn⟩ := exists_frames hf
      rw [Level.read_power_fromRight _ _ _ h]
      exact ih n ts hn hstop
  | ground base marks ihBase ihMarks =>
      intro frames ts hf hstop
      obtain ⟨n, rfl, hn⟩ := exists_frames hf
      rw [Level.read_powerRight]
      have hmarks : StopsAt Chain.factorials.extensions ts := hstop.of_subset (by decide)
      -- no exponent follows, since `ts` does not go on with a power
      rw [← bind_pure (outcome scope (ground base marks))]
      refine Reader.gives_bind (reader_gives ihBase ihMarks hn hmarks) fun b => ?_
      exact exponent_gives_base hstop b
  | raised base marks exponent ihBase ihMarks ihExponent =>
      intro frames ts hf hstop
      simp only [Phrase.frames] at hf
      obtain ⟨n, rfl, hn⟩ := exists_frames hf
      have hmarks : StopsAt Chain.factorials.extensions (.op "^" :: (exponent.tokens ++ ts)) := by
        simp [StopsAt, Chain.extensions]
      have hbase := reader_gives ihBase ihMarks (Nat.le_trans (Nat.le_max_left _ _) hn) hmarks
      have hexponent := ihExponent n ts (Nat.le_trans (Nat.le_max_right _ _) hn) hstop
      rw [Level.read_powerRight, outcome_raised, tokens, ← List.append_assoc,
        List.append_assoc _ _ ts]
      exact Reader.gives_bind hbase (exponent_gives_power hexponent)
  | negation operand ih =>
      intro frames ts hf _
      obtain ⟨n, rfl, hn⟩ := exists_frames hf
      refine Reader.gives_bind (ih n ts hn (.empty ts)) fun x => ?_
      exact Reader.gives_pure (-x) ts
  | number x =>
      intro frames ts hf _
      obtain ⟨n, rfl, -⟩ := exists_frames hf
      rfl
  | var name =>
      intro frames ts hf _
      obtain ⟨n, rfl, -⟩ := exists_frames hf
      rw [Level.read_primary]
      simp only [tokens, outcome, List.cons_append, Reader.run_bind, Reader.run_ahead_cons,
        Reader.resume, Level.primaryAt]
      cases scope.vars.get? name <;> rfl
  | const name =>
      intro frames ts hf _
      obtain ⟨n, rfl, -⟩ := exists_frames hf
      rw [Level.read_primary]
      simp only [tokens, outcome, List.cons_append, Reader.run_bind, Reader.run_ahead_cons,
        Reader.resume, Level.primaryAt]
      cases scope.constants.get? name <;> rfl
  | call function args ih =>
      intro frames ts hf _
      obtain ⟨n, rfl, hn⟩ := exists_frames hf
      exact ih n ts hn (.empty ts)
  | group content ih =>
      intro frames ts hf _
      obtain ⟨n, rfl, hn⟩ := exists_frames hf
      have hstop : StopsAt Level.expression.extensions (.op ")" :: ts) := by
        simp [StopsAt, Level.extensions, Chain.extensions]
      rw [tokens, List.cons_append, List.append_assoc,
        ← bind_pure (outcome scope (group content))]
      exact Reader.gives_bind (ih n _ hn hstop) fun x =>
        Reader.gives_bind (Reader.gives_expect ")" .unclosed ts) fun _ => Reader.gives_pure x ts
  | arguments function first rest ihFirst ihRest =>
      intro frames ts hf _
      obtain ⟨n, rfl, hn⟩ := exists_frames hf
      have hstop : StopsAt Chain.arguments.extensions (.op ")" :: ts) := by
        simp [StopsAt, Chain.extensions]
      rw [Level.read_call, outcome_arguments, tokens, List.cons_append, ← List.append_assoc,
        List.append_assoc _ _ ts]
      have hcall := fun args => Reader.gives_bind (Reader.gives_expect ")" .unclosed ts) fun _ =>
        Reader.gives_ofExcept (Builtin.callNamed function args) ts
      have hargs := Reader.gives_bind (reader_gives ihFirst ihRest hn hstop) hcall
      have hopen :=
        Reader.gives_bind (Reader.gives_expect "(" (.unopened function) _) fun _ => hargs
      exact hopen

end Phrase
end Reckoner
