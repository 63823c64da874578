import Reckoner.Proofs.Call
import Reckoner.Proofs.Descent.Soundness
import Reckoner.Proofs.Grammar.Cause

/-!
Where the reader halts. What it has consumed by then is the front of a phrase, so everything up to
there was as the grammar has it, and the halt has its cause in what was consumed last or what comes
next.
-/

namespace Reckoner

namespace Phrase

variable {order : PowerOrder}

/-! ### Every level has a phrase -/

instance : Inhabited (Phrase order (.whole .primary)) := ⟨.number 0⟩

instance : Inhabited (Phrase order (.whole .powerRight)) := ⟨.ground default (.done .factorials)⟩

instance : Inhabited (Phrase order (.whole .power)) :=
  match order with
  | .fromLeft => ⟨.powerLeft rfl default (.done .powers)⟩
  | .fromRight => ⟨.powerRight rfl default⟩

instance : Inhabited (Phrase order (.whole .factor)) := ⟨.factor default (.done .products)⟩

instance : Inhabited (Phrase order (.whole .expression)) := ⟨.expression default (.done .sums)⟩

instance (level : Level) : Inhabited (Phrase order (.whole level)) :=
  match level with
  | .expression | .factor | .power | .powerRight | .primary => inferInstance
  | .call function => ⟨.arguments function default (.done .arguments)⟩

end Phrase

/-- The cause of a halt, with the tokens consumed by then and those that are left. -/
inductive Blame [Elementary] (scope : Scope) (order : PowerOrder) :
    Halt → List Token → List Token → Prop
  | tooDeep (u rest : List Token) : Blame scope order .tooDeep u rest
  | pastEnd (u : List Token) : Blame scope order .pastEnd u []
  /-- The token that comes next cannot follow. -/
  | grammar {fault : Fault} (h : fault.isSyntax) (u : List Token) (t : Token) (rest : List Token) :
      Blame scope order (.fault fault) u (t :: rest)
  /-- A phrase halts here. -/
  | cause {h : Halt} {u rest : List Token} (c : Cause scope order h u rest) :
      Blame scope order h u rest

theorem Blame.append [Elementary] {scope : Scope} {order : PowerOrder} {h : Halt} {u rest : List Token}
    (b : Blame scope order h u rest) (v : List Token) : Blame scope order h (v ++ u) rest := by
  cases b with
  | tooDeep => exact .tooDeep _ _
  | pastEnd => exact .pastEnd _
  | grammar hf u t rest => exact .grammar hf _ t rest
  | cause c =>
      have happend := c.within v []
      rw [List.append_nil] at happend
      exact .cause happend

/-- Where a reader halts as a call fails, among names that are known, it has just read that call. -/
theorem Blame.exists_call [Elementary] {scope : Scope} {order : PowerOrder} {h : Halt}
    {u rest : List Token}
    (b : Blame scope order h u rest) (hresolves : ∀ t ∈ u ++ rest, scope.Resolves t)
    {function : String} {values : List Float}
    (hcall : Builtin.callNamed function values = .error h) :
    ∃ (front : List Token) (name : String) (args : Phrase order (.whole (.call name)))
      (xs : List Float), u = front ++ .func name :: args.tokens ∧ args.values scope = .ok xs ∧
        Builtin.callNamed name xs = .error h := by
  have hfails := Builtin.callNamed_eq_error hcall
  cases b with
  | tooDeep => simp at hfails
  | pastEnd => simp at hfails
  | grammar hf => simp [hf] at hfails
  | cause c => exact c.exists_call hresolves

variable {α β : Type}

namespace Reader

theorem run_bind_eq_error {r : Reader α} {f : α → Reader β} {ts rest : List Token} {h : Halt}
    (hrun : (r >>= f).run ts = ⟨.error h, rest⟩) :
    r.run ts = ⟨.error h, rest⟩ ∨
      ∃ a mid, r.run ts = ⟨.ok a, mid⟩ ∧ (f a).run mid = ⟨.error h, rest⟩ := by
  rw [run_bind] at hrun
  cases hr : r.run ts with
  | mk result mid =>
    rw [hr] at hrun
    cases result with
    | ok a => exact .inr ⟨a, mid, rfl, hrun⟩
    | error e =>
      obtain ⟨rfl, rfl⟩ : e = h ∧ mid = rest := by simpa [resume] using hrun
      exact .inl rfl

/-- Where the reader halts at a level, it has consumed the front of a phrase. -/
def Halts [Elementary] (scope : Scope) (order : PowerOrder) (level : Level) (r : Reader Float) : Prop :=
  ∀ ⦃ts h rest⦄, r.run ts = ⟨.error h, rest⟩ →
    ∃ (p : Phrase order (.whole level)) (u : List Token),
      u <+: p.tokens ∧ ts = u ++ rest ∧ Blame scope order h (level.before ++ u) rest

theorem expect_blame [Elementary] (scope : Scope) (order : PowerOrder) {symbol : String}
    {otherwise : Fault} (hf : otherwise.isSyntax)
    {ts rest : List Token} {h : Halt}
    (hrun : (expect symbol otherwise).run ts = ⟨.error h, rest⟩) :
    ts = rest ∧ Blame scope order h [] rest := by
  cases ts with
  | nil =>
      obtain ⟨rfl, rfl⟩ : Halt.pastEnd = h ∧ [] = rest := by
        simpa [expect, resume] using hrun
      exact ⟨rfl, .pastEnd []⟩
  | cons t ts =>
      by_cases ht : t = .op symbol
      · simp [expect, Token.isOp, resume, ht] at hrun
      · obtain ⟨rfl, rfl⟩ : Halt.fault otherwise = h ∧ t :: ts = rest := by
          simpa [expect, Token.isOp, resume, ht] using hrun
        exact ⟨rfl, .grammar hf [] t ts⟩

end Reader

variable [Elementary] {scope : Scope} {order : PowerOrder}

namespace Chain

variable {r : Reader Float}

theorem loop_halts (c : Chain) (hsound : r.Sound scope order c.operand)
    (h : r.Halts scope order c.operand) {a : c.Carried} {ts rest : List Token} {e : Halt}
    (hrun : (Reader.loop (c.step r) a).run ts = ⟨.error e, rest⟩) :
    ∃ (p : Phrase order (.links c)) (u : List Token),
      u <+: p.tokens ∧ ts = u ++ rest ∧ Blame scope order e u rest := by
  induction a, ts using Reader.loop_induction (c.step r) with
  | nil a =>
      obtain ⟨rfl, rfl⟩ : Halt.pastEnd = e ∧ [] = rest := by simpa using hrun
      exact ⟨.done c, [], List.prefix_rfl, rfl, .pastEnd []⟩
  | stop a t ts hstep =>
      rw [Reader.run_loop_stop hstep] at hrun
      simp at hrun
  | go a t ts q hq ih =>
      rw [Reader.run_loop_go hq] at hrun
      rcases c.step_cases t with ⟨op, rfl⟩ | ⟨m, rfl⟩ | hnone
      · rw [step_token] at hq
        obtain rfl := Option.some.inj hq
        -- it halts in the operand behind the operator, or later
        rcases Reader.run_bind_eq_error hrun with hop | ⟨b, mid, hop, hrest⟩
        · rcases Reader.run_bind_eq_error hop with hx | ⟨x, mid, _, happly⟩
          · obtain ⟨operand, u, hu, rfl, hblame⟩ := h hx
            rw [c.before_operand] at hblame
            refine ⟨.link op operand (.done c), op.token :: u, ?_, rfl, hblame.append [op.token]⟩
            simpa [Phrase.tokens] using hu
          · obtain ⟨b, hb⟩ := op.apply_total a x
            simp [hb] at happly
        · obtain ⟨x, _, hx, happly⟩ := Reader.run_bind_eq_ok hop
          obtain ⟨-, rfl⟩ : op.apply a x = .ok b ∧ _ = mid := by simpa using happly
          obtain ⟨operand, rfl, -, -⟩ := hsound hx
          obtain ⟨p, u, hu, rfl, hblame⟩ := ih _ _ hop hrest
          refine ⟨.link op operand p, op.token :: (operand.tokens ++ u), ?_, by simp,
            hblame.append (op.token :: operand.tokens)⟩
          simpa [Phrase.tokens] using hu
      · rw [step_markToken r m] at hq
        obtain rfl := Option.some.inj hq
        obtain ⟨b, hb⟩ := m.apply_total a
        rw [hb] at hrun ih
        obtain ⟨p, u, hu, rfl, hblame⟩ := ih _ _ rfl hrun
        refine ⟨.mark m p, markToken :: u, ?_, rfl, hblame.append [markToken]⟩
        simpa [Phrase.tokens] using hu
      · simp [hnone] at hq

theorem reader_halts (c : Chain) (hsound : r.Sound scope order c.operand)
    (h : r.Halts scope order c.operand) {ts rest : List Token} {e : Halt}
    (hrun : (c.reader r).run ts = ⟨.error e, rest⟩) :
    ∃ (first : Phrase order (.whole c.operand)) (links : Phrase order (.links c))
      (u : List Token), u <+: first.tokens ++ links.tokens ∧ ts = u ++ rest ∧
        Blame scope order e u rest := by
  rcases Reader.run_bind_eq_error hrun with hfirst | ⟨x, mid, hx, hloop⟩
  · obtain ⟨first, u, hu, rfl, hblame⟩ := h hfirst
    rw [c.before_operand] at hblame
    exact ⟨first, .done c, u, hu.trans (List.prefix_append _ _), rfl, hblame⟩
  · obtain ⟨first, rfl, -, -⟩ := hsound hx
    obtain ⟨links, u, hu, rfl, hblame⟩ := c.loop_halts hsound h hloop
    refine ⟨first, links, first.tokens ++ u, ?_, (List.append_assoc ..).symm,
      hblame.append first.tokens⟩
    exact (List.prefix_append_right_inj _).2 hu

end Chain

namespace Level

theorem exponent_halts {tower : Reader Float} (h : tower.Halts scope order .powerRight) {b : Float}
    {ts rest : List Token} {e : Halt} (hrun : (exponent tower b).run ts = ⟨.error e, rest⟩) :
    ts = rest ∧ Blame scope order e [] rest ∨
      ∃ (p : Phrase order (.whole .powerRight)) (u : List Token),
        u <+: p.tokens ∧ ts = .op "^" :: (u ++ rest) ∧ Blame scope order e u rest := by
  cases ts with
  | nil =>
      obtain ⟨rfl, rfl⟩ : Halt.pastEnd = e ∧ [] = rest := by
        simpa [exponent, Reader.resume] using hrun
      exact .inl ⟨rfl, .pastEnd []⟩
  | cons t ts =>
    by_cases ht : t = .op "^"
    · subst ht
      right
      have hrun : (tower >>= fun x => Reader.compute (Arithmetic.power b x)).run ts =
          ⟨.error e, rest⟩ := by
        simpa [exponent, Reader.resume, Token.isOp] using hrun
      rcases Reader.run_bind_eq_error hrun with htower | ⟨x, mid, _, hpower⟩
      · obtain ⟨p, u, hu, rfl, hblame⟩ := h htower
        exact ⟨p, u, hu, rfl, hblame⟩
      · obtain ⟨y, hy⟩ := Arithmetic.power_total b x
        simp [Reader.compute, hy] at hpower
    · simp [exponent, Reader.resume, Token.isOp, ht] at hrun

/-- Where the reader halts in a call, with the name and the parenthesis before it. -/
theorem read_call_halts {frames : Nat} {name : String}
    (hsound : (read scope order frames .expression).Sound scope order .expression)
    (h : (read scope order frames .expression).Halts scope order .expression) :
    (read scope order (frames + 1) (.call name)).Halts scope order (.call name) := by
  intro ts e rest hrun
  rw [read_call] at hrun
  -- at the opening parenthesis, in an argument, at the closing parenthesis, or by the call itself
  rcases Reader.run_bind_eq_error hrun with hopen | ⟨_, mid, hopen, hrest⟩
  · obtain ⟨rfl, hblame⟩ := Reader.expect_blame scope order rfl hopen
    exact ⟨default, [], List.nil_prefix, rfl, hblame.append [.func name]⟩
  obtain rfl := Reader.run_expect_eq_ok hopen
  rcases Reader.run_bind_eq_error hrest with hargs | ⟨args, mid', hargs, hend⟩
  · obtain ⟨first, links, u, hu, rfl, hblame⟩ := Chain.arguments.reader_halts hsound h hargs
    refine ⟨.arguments name first links, .op "(" :: u, ?_, rfl,
      hblame.append [.func name, .op "("]⟩
    simp only [Phrase.tokens, List.prefix_cons_inj, ← List.append_assoc]
    exact hu.trans (List.prefix_append _ _)
  obtain ⟨first, links, rfl, hvalues, -⟩ := Chain.arguments.reader_sound hsound hargs
  rcases Reader.run_bind_eq_error hend with hclose | ⟨_, mid'', hclose, hcall⟩
  · obtain ⟨rfl, hblame⟩ := Reader.expect_blame scope order rfl hclose
    refine ⟨.arguments name first links, .op "(" :: (first.tokens ++ links.tokens), ?_, rfl, ?_⟩
    · simp [Phrase.tokens]
    · simpa [before] using hblame.append (.func name :: .op "(" :: (first.tokens ++ links.tokens))
  · obtain rfl := Reader.run_expect_eq_ok hclose
    obtain ⟨he, rfl⟩ : Builtin.callNamed name args = .error e ∧ mid'' = rest := by
      simpa using hcall
    have hxs : (Phrase.arguments name first links).values scope = .ok args := hvalues
    refine ⟨.arguments name first links, _, List.prefix_rfl, by simp [Phrase.tokens], ?_⟩
    exact .cause (.call hxs he [] mid'')

theorem primaryAt_halts {below : Level → Reader Float}
    (hsound : ∀ level, (below level).Sound scope order level)
    (h : ∀ level, (below level).Halts scope order level) {t : Token} {ts rest : List Token}
    {e : Halt} (hrun : (primaryAt scope below t).run (t :: ts) = ⟨.error e, rest⟩) :
    ∃ (p : Phrase order (.whole .primary)) (u : List Token),
      u <+: p.tokens ∧ t :: ts = u ++ rest ∧ Blame scope order e u rest := by
  unfold primaryAt at hrun
  split at hrun
  · -- a negation
    rw [Reader.run_skip_bind] at hrun
    rcases Reader.run_bind_eq_error hrun with hx | ⟨x, mid, _, hpure⟩
    · obtain ⟨p, u, hu, rfl, hblame⟩ := h .primary hx
      exact ⟨.negation p, .op "-" :: u, by simpa [Phrase.tokens] using hu, rfl,
        hblame.append [.op "-"]⟩
    · simp at hpure
  · -- an expression in parentheses
    rw [Reader.run_skip_bind] at hrun
    rcases Reader.run_bind_eq_error hrun with hx | ⟨x, mid, hx, hend⟩
    · obtain ⟨p, u, hu, rfl, hblame⟩ := h .expression hx
      refine ⟨.group p, .op "(" :: u, ?_, rfl, hblame.append [.op "("]⟩
      simpa [Phrase.tokens] using hu.trans (List.prefix_append _ _)
    · obtain ⟨p, rfl, -, -⟩ := hsound .expression hx
      rcases Reader.run_bind_eq_error hend with hclose | ⟨_, mid', _, hpure⟩
      · obtain ⟨rfl, hblame⟩ := Reader.expect_blame scope order rfl hclose
        refine ⟨.group p, .op "(" :: p.tokens, by simp [Phrase.tokens], rfl, ?_⟩
        simpa using hblame.append (.op "(" :: p.tokens)
      · simp at hpure
  · rw [Reader.run_skip_bind] at hrun
    simp at hrun
  · rename_i name
    cases hx : scope.vars.get? name with
    | none =>
      obtain ⟨rfl, rfl⟩ : Halt.fault (.undefinedVariable name) = e ∧ .var name :: ts = rest := by
        simpa [hx] using hrun
      exact ⟨default, [], List.nil_prefix, rfl, .cause (.unbound hx [] ts)⟩
    | some x =>
      simp only [hx, Reader.run_skip_bind] at hrun
      simp at hrun
  · rename_i name
    rw [Reader.run_skip_bind] at hrun
    cases hx : scope.constants.get? name with
    | none =>
      obtain ⟨rfl, rfl⟩ : Halt.unknownName name = e ∧ ts = rest := by simpa [hx] using hrun
      exact ⟨.const name, [.const name], List.prefix_rfl, rfl, .cause (.unknown hx [] ts)⟩
    | some x => simp [hx] at hrun
  · rename_i name
    rw [Reader.run_skip_bind] at hrun
    obtain ⟨p, u, hu, rfl, hblame⟩ := h (.call name) hrun
    exact ⟨.call name p, .func name :: u, by simpa [Phrase.tokens] using hu, rfl, hblame⟩
  · obtain ⟨rfl, rfl⟩ : Halt.fault (.unexpectedToken t) = e ∧ t :: ts = rest := by
      simpa using hrun
    exact ⟨default, [], List.nil_prefix, rfl, .grammar rfl [] t ts⟩

theorem read_halts (frames : Nat) (level : Level) :
    (read scope order frames level).Halts scope order level := by
  induction frames generalizing level with
  | zero =>
      intro ts e rest hrun
      obtain ⟨rfl, rfl⟩ : Halt.tooDeep = e ∧ ts = rest := by simpa [read_zero] using hrun
      exact ⟨default, [], List.nil_prefix, rfl, .tooDeep _ _⟩
  | succ frames ih =>
      have hsound : ∀ level, (read scope order frames level).Sound scope order level :=
        read_sound frames
      cases level with
      | expression =>
          intro ts e rest hrun
          obtain ⟨first, links, u, hu, rfl, hblame⟩ :=
            Chain.sums.reader_halts (hsound .factor) (ih .factor) hrun
          exact ⟨.expression first links, u, hu, rfl, hblame⟩
      | factor =>
          intro ts e rest hrun
          obtain ⟨first, links, u, hu, rfl, hblame⟩ :=
            Chain.products.reader_halts (hsound .power) (ih .power) hrun
          exact ⟨.factor first links, u, hu, rfl, hblame⟩
      | power =>
          intro ts e rest hrun
          cases horder : order with
          | fromLeft =>
              subst horder
              obtain ⟨first, links, u, hu, rfl, hblame⟩ :=
                Chain.powers.reader_halts (hsound .primary) (ih .primary) hrun
              exact ⟨.powerLeft rfl first links, u, hu, rfl, hblame⟩
          | fromRight =>
              subst horder
              obtain ⟨p, u, hu, rfl, hblame⟩ := ih .powerRight hrun
              exact ⟨.powerRight rfl p, u, hu, rfl, hblame⟩
      | powerRight =>
          intro ts e rest hrun
          rw [read_powerRight] at hrun
          rcases Reader.run_bind_eq_error hrun with hbase | ⟨b, mid, hbase, hexponent⟩
          · obtain ⟨base, marks, u, hu, rfl, hblame⟩ :=
              Chain.factorials.reader_halts (hsound .primary) (ih .primary) hbase
            exact ⟨.ground base marks, u, hu, rfl, hblame⟩
          obtain ⟨base, marks, rfl, -, -⟩ := Chain.factorials.reader_sound (hsound .primary) hbase
          rcases exponent_halts (ih .powerRight) hexponent with
            ⟨rfl, hblame⟩ | ⟨p, u, hu, rfl, hblame⟩
          · refine ⟨.ground base marks, _, List.prefix_rfl, rfl, ?_⟩
            simpa [before, Phrase.tokens] using hblame.append (base.tokens ++ marks.tokens)
          · refine ⟨.raised base marks p, base.tokens ++ (marks.tokens ++ .op "^" :: u), ?_, ?_, ?_⟩
            · simpa [Phrase.tokens] using hu
            · simp
            · have happend := hblame.append (base.tokens ++ (marks.tokens ++ [.op "^"]))
              rw [List.append_assoc, List.append_assoc] at happend
              exact happend
      | primary =>
          intro ts e rest hrun
          cases ts with
          | nil =>
              obtain ⟨rfl, rfl⟩ : Halt.pastEnd = e ∧ [] = rest := by
                simpa [read_primary, Reader.resume] using hrun
              exact ⟨default, [], List.nil_prefix, rfl, .pastEnd []⟩
          | cons t ts => exact primaryAt_halts hsound ih hrun
      | call name => exact read_call_halts (hsound .expression) (ih .expression)

end Level
end Reckoner
