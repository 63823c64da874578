import Reckoner.Proofs.Descent.Levels

/-!
What the reader accepts is a phrase: a value comes from the tokens of a phrase that has it as its
outcome, and what is left does not go on with the phrase.
-/

namespace Reckoner

variable {α β : Type}

namespace Reader

theorem run_bind_eq_ok {r : Reader α} {f : α → Reader β} {ts rest : List Token} {b : β}
    (h : (r >>= f).run ts = ⟨.ok b, rest⟩) :
    ∃ a mid, r.run ts = ⟨.ok a, mid⟩ ∧ (f a).run mid = ⟨.ok b, rest⟩ := by
  rw [run_bind] at h
  cases hrun : r.run ts with
  | mk result mid =>
    rw [hrun] at h
    cases result with
    | ok a => exact ⟨a, mid, rfl, h⟩
    | error e => simp [resume] at h

theorem run_expect_eq_ok {symbol : String} {otherwise : Fault} {ts rest : List Token} {a : Unit}
    (h : (expect symbol otherwise).run ts = ⟨.ok a, rest⟩) : ts = .op symbol :: rest := by
  cases ts with
  | nil => simp [expect, resume] at h
  | cons t ts =>
    by_cases ht : t = .op symbol
    · simpa [expect, Token.isOp, resume, ht] using h
    · simp [expect, Token.isOp, resume, ht] at h

/-- Each value that the reader gives at a level is the outcome of a phrase. -/
def Sound [Elementary] (scope : Scope) (order : PowerOrder) (level : Level) (r : Reader Float) : Prop :=
  ∀ ⦃ts x rest⦄, r.run ts = ⟨.ok x, rest⟩ →
    ∃ p : Phrase order (.whole level),
      ts = p.tokens ++ rest ∧ p.outcome scope = .ok x ∧ StopsAt level.extensions rest

end Reader

variable [Elementary] {scope : Scope} {order : PowerOrder}

namespace Chain

variable {r : Reader Float}

theorem loop_sound (c : Chain) (h : r.Sound scope order c.operand) {a b : c.Carried}
    {ts rest : List Token} (hstop : StopsAt c.operand.extensions ts)
    (hrun : (Reader.loop (c.step r) a).run ts = ⟨.ok b, rest⟩) :
    ∃ p : Phrase order (.links c),
      ts = p.tokens ++ rest ∧ p.outcome scope a = .ok b ∧ StopsAt c.extensions rest := by
  induction a, ts using Reader.loop_induction (c.step r) with
  | nil a => simp at hrun
  | stop a t ts hstep =>
      rw [Reader.run_loop_stop hstep] at hrun
      obtain ⟨rfl, rfl⟩ : a = b ∧ t :: ts = rest := by simpa using hrun
      exact ⟨.done c, rfl, rfl, stopsAt_extensions r hstep hstop⟩
  | go a t ts q hq ih =>
      rw [Reader.run_loop_go hq] at hrun
      rcases c.step_cases t with ⟨op, rfl⟩ | ⟨m, rfl⟩ | hnone
      · rw [step_token] at hq
        obtain rfl := Option.some.inj hq
        obtain ⟨_, mid, hop, hrest⟩ := Reader.run_bind_eq_ok hrun
        obtain ⟨x, _, hx, happly⟩ := Reader.run_bind_eq_ok hop
        obtain ⟨hvalue, rfl⟩ : op.apply a x = .ok _ ∧ _ = mid := by simpa using happly
        obtain ⟨operand, rfl, hoperand, hstop'⟩ := h hx
        obtain ⟨p, rfl, hp, hend⟩ := ih _ _ hop hstop' hrest
        refine ⟨.link op operand p, ?_, ?_, hend⟩
        · simp [Phrase.tokens]
        · rw [Phrase.outcome, hoperand]
          exact (congrArg (· >>= p.outcome scope) hvalue).trans hp
      · rw [step_markToken r m] at hq
        obtain rfl := Option.some.inj hq
        have hstop' : StopsAt c.operand.extensions ts := by
          cases m <;> exact .empty ts
        obtain ⟨x, mid, happly, hrest⟩ := Reader.run_bind_eq_ok hrun
        obtain ⟨hvalue, rfl⟩ : m.apply a = .ok x ∧ ts = mid := by simpa using happly
        obtain ⟨p, rfl, hp, hend⟩ := ih _ _ happly hstop' hrest
        exact ⟨.mark m p, rfl, (congrArg (· >>= p.outcome scope) hvalue).trans hp, hend⟩
      · simp [hnone] at hq

theorem reader_sound (c : Chain) (h : r.Sound scope order c.operand) {b : c.Carried}
    {ts rest : List Token} (hrun : (c.reader r).run ts = ⟨.ok b, rest⟩) :
    ∃ (first : Phrase order (.whole c.operand)) (links : Phrase order (.links c)),
      ts = first.tokens ++ links.tokens ++ rest ∧
        (first.outcome scope >>= fun x => links.outcome scope (c.start x)) = .ok b ∧
          StopsAt c.extensions rest := by
  obtain ⟨x, mid, hx, hloop⟩ := Reader.run_bind_eq_ok hrun
  obtain ⟨first, rfl, hfirst, hstop⟩ := h hx
  obtain ⟨links, rfl, hlinks, hend⟩ := loop_sound c h hstop hloop
  refine ⟨first, links, (List.append_assoc ..).symm, ?_, hend⟩
  rw [hfirst]
  exact hlinks

end Chain

namespace Level

theorem exponent_sound {tower : Reader Float} (h : tower.Sound scope order .powerRight)
    {b x : Float} {ts rest : List Token} (hrun : (exponent tower b).run ts = ⟨.ok x, rest⟩) :
    (x = b ∧ ts = rest ∧ ∃ t ts', ts = t :: ts' ∧ t ≠ .op "^") ∨
      ∃ p : Phrase order (.whole .powerRight), ts = .op "^" :: (p.tokens ++ rest) ∧
        (p.outcome scope >>= fun e => Halt.raising (Arithmetic.power b e)) = .ok x ∧
          StopsAt powerRight.extensions rest := by
  cases ts with
  | nil => simp [exponent, Reader.resume] at hrun
  | cons t ts =>
    by_cases ht : t = .op "^"
    · subst ht
      right
      have hrun : (tower >>= fun e => Reader.compute (Arithmetic.power b e)).run ts =
          ⟨.ok x, rest⟩ := by
        simpa [exponent, Reader.resume, Token.isOp] using hrun
      obtain ⟨e, mid, he, hpower⟩ := Reader.run_bind_eq_ok hrun
      obtain ⟨hx, rfl⟩ : Halt.raising (Arithmetic.power b e) = .ok x ∧ mid = rest := by
        simpa [Reader.compute] using hpower
      obtain ⟨p, rfl, hp, hstop⟩ := h he
      refine ⟨p, rfl, ?_, hstop⟩
      rw [hp]
      exact hx
    · left
      have hrun : b = x ∧ t :: ts = rest := by
        simpa [exponent, Reader.resume, Token.isOp, ht] using hrun
      exact ⟨hrun.1.symm, hrun.2, t, ts, rfl, ht⟩

theorem primaryAt_sound {below : Level → Reader Float}
    (h : ∀ level, (below level).Sound scope order level) {t : Token} {ts rest : List Token}
    {x : Float} (hrun : (primaryAt scope below t).run (t :: ts) = ⟨.ok x, rest⟩) :
    ∃ p : Phrase order (.whole .primary), t :: ts = p.tokens ++ rest ∧ p.outcome scope = .ok x := by
  unfold primaryAt at hrun
  split at hrun
  · -- a negation
    rw [Reader.run_skip_bind] at hrun
    obtain ⟨y, mid, hy, hpure⟩ := Reader.run_bind_eq_ok hrun
    obtain ⟨rfl, rfl⟩ : -y = x ∧ mid = rest := by simpa using hpure
    obtain ⟨p, rfl, hp, -⟩ := h .primary hy
    refine ⟨.negation p, rfl, ?_⟩
    simp only [Phrase.outcome, hp]
    rfl
  · -- an expression in parentheses
    rw [Reader.run_skip_bind] at hrun
    obtain ⟨y, mid, hy, hrest⟩ := Reader.run_bind_eq_ok hrun
    obtain ⟨_, mid', hclose, hpure⟩ := Reader.run_bind_eq_ok hrest
    obtain ⟨rfl, rfl⟩ : y = x ∧ mid' = rest := by simpa using hpure
    obtain rfl := Reader.run_expect_eq_ok hclose
    obtain ⟨p, rfl, hp, -⟩ := h .expression hy
    exact ⟨.group p, by simp [Phrase.tokens], hp⟩
  · rename_i y
    rw [Reader.run_skip_bind] at hrun
    obtain ⟨rfl, rfl⟩ : y = x ∧ ts = rest := by simpa using hrun
    exact ⟨.number y, rfl, rfl⟩
  · rename_i name
    cases hx : scope.vars.get? name with
    | none => simp [hx] at hrun
    | some y =>
      simp only [hx, Reader.run_skip_bind] at hrun
      obtain ⟨rfl, rfl⟩ : y = x ∧ ts = rest := by simpa using hrun
      exact ⟨.var name, rfl, by simp only [Phrase.outcome, hx]⟩
  · rename_i name
    rw [Reader.run_skip_bind] at hrun
    cases hx : scope.constants.get? name with
    | none => simp [hx] at hrun
    | some y =>
      obtain ⟨rfl, rfl⟩ : y = x ∧ ts = rest := by simpa [hx] using hrun
      exact ⟨.const name, rfl, by simp only [Phrase.outcome, hx]⟩
  · rename_i name
    rw [Reader.run_skip_bind] at hrun
    obtain ⟨p, rfl, hp, -⟩ := h (.call name) hrun
    exact ⟨.call name p, rfl, hp⟩
  · simp at hrun

theorem read_sound (frames : Nat) (level : Level) :
    (read scope order frames level).Sound scope order level := by
  induction frames generalizing level with
  | zero =>
      intro ts x rest hrun
      simp [read_zero] at hrun
  | succ frames ih =>
      intro ts x rest hrun
      cases level with
      | expression =>
          rw [read_expression] at hrun
          obtain ⟨first, links, rfl, hx, hend⟩ := Chain.sums.reader_sound (ih .factor) hrun
          exact ⟨.expression first links, rfl, hx, hend⟩
      | factor =>
          rw [read_factor] at hrun
          obtain ⟨first, links, rfl, hx, hend⟩ := Chain.products.reader_sound (ih .power) hrun
          exact ⟨.factor first links, rfl, hx, hend⟩
      | power =>
          cases horder : order with
          | fromLeft =>
              subst horder
              rw [read_power_fromLeft _ _ _ rfl] at hrun
              obtain ⟨first, links, rfl, hx, hend⟩ := Chain.powers.reader_sound (ih .primary) hrun
              exact ⟨.powerLeft rfl first links, rfl, hx, hend⟩
          | fromRight =>
              subst horder
              rw [read_power_fromRight _ _ _ rfl] at hrun
              obtain ⟨p, rfl, hx, hend⟩ := ih .powerRight hrun
              exact ⟨.powerRight rfl p, rfl, hx, hend⟩
      | powerRight =>
          rw [read_powerRight] at hrun
          obtain ⟨b, mid, hb, hexponent⟩ := Reader.run_bind_eq_ok hrun
          obtain ⟨base, marks, rfl, hbase, hend⟩ := Chain.factorials.reader_sound (ih .primary) hb
          rcases exponent_sound (ih .powerRight) hexponent with
            ⟨rfl, rfl, t, ts, rfl, ht⟩ | ⟨p, rfl, hp, hend'⟩
          · -- the token ahead is neither another mark nor the sign of an exponent
            refine ⟨.ground base marks, rfl, hbase, ?_⟩
            intro hmem
            rcases List.mem_cons.1 hmem with rfl | hmem
            · exact ht rfl
            · exact hend hmem
          · refine ⟨.raised base marks p, ?_, ?_, hend'⟩
            · simp only [Phrase.tokens, List.append_assoc, List.cons_append]
            · rw [Phrase.outcome_raised]
              exact (congrArg (· >>= _) hbase).trans hp
      | primary =>
          cases ts with
          | nil => simp [read_primary, Reader.resume] at hrun
          | cons t ts =>
            obtain ⟨p, hts, hx⟩ := primaryAt_sound ih hrun
            exact ⟨p, hts, hx, .empty rest⟩
      | call name =>
          rw [read_call] at hrun
          obtain ⟨_, mid, hopen, hrest⟩ := Reader.run_bind_eq_ok hrun
          obtain ⟨args, mid', hargs, hrest⟩ := Reader.run_bind_eq_ok hrest
          obtain ⟨_, mid'', hclose, hcall⟩ := Reader.run_bind_eq_ok hrest
          obtain rfl := Reader.run_expect_eq_ok hopen
          obtain rfl := Reader.run_expect_eq_ok hclose
          obtain ⟨first, links, rfl, houtcome, -⟩ :=
            Chain.arguments.reader_sound (ih .expression) hargs
          obtain ⟨hx, rfl⟩ : Builtin.callNamed name args = .ok x ∧ mid'' = rest := by
            simpa using hcall
          refine ⟨.arguments name first links, by simp [Phrase.tokens], ?_, .empty mid''⟩
          rw [Phrase.outcome_arguments]
          exact (congrArg (· >>= _) houtcome).trans hx

end Level
end Reckoner
