import Reckoner.Proofs.Descent.Levels

/-!
What carries over to the levels. A property of readers that the single steps have, and that goes
along when one reader follows another, all levels have.
-/

namespace Reckoner

variable [Elementary] {scope : Scope} {order : PowerOrder}

/-- A property that readers have on some tokens, as it goes along the steps of a level. The name of
a function is consumed only before its call. -/
structure Closed (scope : Scope) (order : PowerOrder)
    (P : {α : Type} → Reader α → List Token → Prop) : Prop where
  pure : ∀ {α : Type} (a : α) ts, P (pure a : Reader α) ts
  fail : ∀ {α : Type} h ts, P (Reader.fail h : Reader α) ts
  ahead : ∀ ts, P Reader.ahead ts
  bind : ∀ {α β : Type} {r : Reader α} {f : α → Reader β} {ts}, P r ts →
    (∀ a mid, r.run ts = ⟨.ok a, mid⟩ → P (f a) mid) → P (r >>= f) ts
  skip : ∀ {t ts}, (∀ name, t ≠ .func name) → P Reader.skip (t :: ts)
  call : ∀ {frames name ts}, P (Level.read scope order frames (.call name)) ts →
    P (Reader.skip >>= fun _ => Level.read scope order frames (.call name)) (.func name :: ts)
  loopEnd : ∀ {α : Type} {step : α → Token → Option (Reader α)} {a ts},
    (∀ t, ts.head? = some t → step a t = none) → P (Reader.loop step a) ts
  loopGo : ∀ {α : Type} {step : α → Token → Option (Reader α)} {a t r ts}, step a t = some r →
    (∀ name, t ≠ .func name) → P (r >>= Reader.loop step) ts → P (Reader.loop step a) (t :: ts)

namespace Closed

variable {P : {α : Type} → Reader α → List Token → Prop} (hP : Closed scope order P)

include hP

theorem andThen {α β : Type} {r : Reader α} {f : α → Reader β} (hr : ∀ ts, P r ts)
    (hf : ∀ a ts, P (f a) ts) (ts : List Token) : P (r >>= f) ts :=
  hP.bind (hr ts) fun a mid _ => hf a mid

theorem ofExcept {α : Type} (outcome : Except Halt α) (ts : List Token) :
    P (Reader.ofExcept outcome) ts := by
  cases outcome with
  | ok a => exact hP.pure a ts
  | error h => exact hP.fail h ts

/-- What is read once the token ahead is known has that token ahead. -/
theorem aheadBind {β : Type} {f : Token → Reader β} (hf : ∀ t ts, P (f t) (t :: ts))
    (ts : List Token) : P (Reader.ahead >>= f) ts := by
  refine hP.bind (hP.ahead ts) fun t mid hrun => ?_
  cases ts with
  | nil => simp at hrun
  | cons t' ts =>
      obtain ⟨rfl, rfl⟩ : t' = t ∧ t' :: ts = mid := by simpa using hrun
      exact hf t' ts

theorem skipBind {β : Type} {f : Unit → Reader β} {t : Token} {ts : List Token}
    (ht : ∀ name, t ≠ .func name) (hf : ∀ ts, P (f ()) ts) : P (Reader.skip >>= f) (t :: ts) :=
  hP.bind (hP.skip ht) fun _ mid _ => hf mid

theorem expect (symbol : String) (otherwise : Fault) (ts : List Token) :
    P (Reader.expect symbol otherwise) ts := by
  refine hP.aheadBind (fun t ts => ?_) ts
  split
  · rename_i ht
    obtain rfl : t = .op symbol := by simpa [Token.isOp] using ht
    exact hP.skip nofun
  · exact hP.fail _ _

theorem loop {α : Type} {step : α → Token → Option (Reader α)}
    (h : ∀ a t r, step a t = some r → (∀ name, t ≠ .func name) ∧ ∀ ts, P r ts) (a : α)
    (ts : List Token) : P (Reader.loop step a) ts := by
  induction a, ts using Reader.loop_induction step with
  | nil a => exact hP.loopEnd nofun
  | stop a t ts hstep =>
      refine hP.loopEnd fun t' ht' => ?_
      obtain rfl := Option.some.inj ht'
      exact hstep
  | go a t ts r hr ih =>
      obtain ⟨ht, hsteps⟩ := h a t r hr
      exact hP.loopGo hr ht (hP.bind (hsteps ts) ih)

theorem chain (c : Chain) {r : Reader Float} (h : ∀ ts, P r ts) (ts : List Token) :
    P (c.reader r) ts := by
  refine hP.andThen h (fun x => hP.loop (fun a t q hq => ?_) _) ts
  rcases c.step_cases t with ⟨op, rfl⟩ | ⟨m, rfl⟩ | hnone
  · rw [Chain.step_token] at hq
    obtain rfl := Option.some.inj hq
    refine ⟨fun name => ?_, hP.andThen h fun y => hP.ofExcept _⟩
    cases op <;> exact nofun
  · rw [Chain.step_markToken r m] at hq
    obtain rfl := Option.some.inj hq
    exact ⟨nofun, hP.ofExcept _⟩
  · simp [hnone] at hq

theorem primaryAt {frames : Nat}
    (h : ∀ level ts, P (Level.read scope order frames level) ts) (t : Token) (ts : List Token) :
    P (Level.primaryAt scope (Level.read scope order frames) t) (t :: ts) := by
  unfold Level.primaryAt
  split
  · exact hP.skipBind nofun (hP.andThen (h _) fun _ => hP.pure _)
  · exact hP.skipBind nofun
      (hP.andThen (h _) fun _ => hP.andThen (hP.expect _ _) fun _ => hP.pure _)
  · exact hP.skipBind nofun (hP.pure _)
  · split
    · exact hP.skipBind nofun (hP.pure _)
    · exact hP.fail _ _
  · refine hP.skipBind nofun ?_
    split
    · exact hP.pure _
    · exact hP.fail _
  · exact hP.call (h _ ts)
  · exact hP.fail _ _

theorem exponent {tower : Reader Float} (h : ∀ ts, P tower ts) (b : Float) (ts : List Token) :
    P (Level.exponent tower b) ts := by
  refine hP.aheadBind (fun t ts => ?_) ts
  split
  · rename_i ht
    obtain rfl : t = .op "^" := by simpa [Token.isOp] using ht
    exact hP.skipBind nofun (hP.andThen h fun _ => hP.ofExcept _)
  · exact hP.pure _ _

theorem read (frames : Nat) (level : Level) (ts : List Token) :
    P (Level.read scope order frames level) ts := by
  induction frames generalizing level ts with
  | zero =>
      rw [Level.read_zero]
      exact hP.fail _ _
  | succ frames ih =>
      cases level with
      | expression => exact hP.chain .sums (ih _) ts
      | factor => exact hP.chain .products (ih _) ts
      | power =>
          cases horder : order with
          | fromLeft =>
              subst horder
              exact hP.chain .powers (ih _) ts
          | fromRight =>
              subst horder
              exact ih .powerRight ts
      | powerRight =>
          rw [Level.read_powerRight]
          exact hP.andThen (hP.chain .factorials (ih _)) (hP.exponent (ih _)) ts
      | primary => exact hP.aheadBind (hP.primaryAt ih) ts
      | call name =>
          rw [Level.read_call]
          exact hP.andThen (hP.expect _ _) (fun _ =>
            hP.andThen (hP.chain .arguments (ih _)) fun _ =>
              hP.andThen (hP.expect _ _) fun _ => hP.ofExcept _) ts

theorem wholeExpression (frames : Nat) (ts : List Token) :
    P (wholeExpression scope order frames) ts := by
  refine hP.andThen (hP.read frames .expression) (fun x => hP.aheadBind fun t ts => ?_) ts
  split
  · exact hP.pure _ _
  · exact hP.fail _ _

end Closed
end Reckoner
