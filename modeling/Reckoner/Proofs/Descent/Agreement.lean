import Reckoner.Proofs.Descent.Congruence
import Reckoner.Proofs.Scope

/-!
What a reader takes from its scope. Two scopes that give the same values to the names among the tokens
are read under alike, down to the failure and to where it is met.
-/

namespace Reckoner

variable {α β : Type}

/-- Two readers do the same on tokens of a kind. -/
def Reader.SameOn (P : Token → Prop) (r s : Reader α) : Prop :=
  ∀ ts, (∀ t ∈ ts, P t) → r.run ts = s.run ts

namespace Reader.SameOn

variable {P : Token → Prop}

theorem refl (r : Reader α) : r.SameOn P r := fun _ _ => rfl

/-- What a reader leaves are tokens that it was given. -/
theorem forall_rest {r : Reader α} {ts : List Token} (h : ∀ t ∈ ts, P t) :
    ∀ t ∈ (r.run ts).rest, P t :=
  fun t ht => h t ((r.suffix ts).subset ht)

theorem bind {r s : Reader α} {f g : α → Reader β} (hr : r.SameOn P s)
    (hf : ∀ a, (f a).SameOn P (g a)) : (r >>= f).SameOn P (s >>= g) := by
  intro ts hts
  have hrest : ∀ t ∈ (r.run ts).rest, P t := forall_rest hts
  rw [run_bind, run_bind, ← hr ts hts]
  cases hrun : r.run ts with
  | mk result rest =>
    rw [hrun] at hrest
    cases result with
    | ok a => exact hf a rest hrest
    | error e => rfl

theorem loop {step step' : α → Token → Option (Reader α)}
    (h : ∀ a t, (step a t = none ∧ step' a t = none) ∨
      ∃ r s, step a t = some r ∧ step' a t = some s ∧ r.SameOn P s) (a : α) :
    (Reader.loop step a).SameOn P (Reader.loop step' a) := by
  intro ts hts
  induction a, ts using loop_induction step with
  | nil a => simp
  | stop a t ts hstep =>
      rcases h a t with ⟨_, hnone'⟩ | ⟨r, _, hr, _⟩
      · rw [run_loop_stop hstep, run_loop_stop hnone']
      · simp [hstep] at hr
  | go a t ts q hq ih =>
      rcases h a t with ⟨hnone, _⟩ | ⟨r, s, hr, hs, hrs⟩
      · simp [hq] at hnone
      obtain rfl : q = r := by simpa [hq] using hr
      have hts' : ∀ t ∈ ts, P t := fun t ht => hts t (List.mem_cons_of_mem _ ht)
      have hrest : ∀ t ∈ (q.run ts).rest, P t := forall_rest hts'
      rw [run_loop_go hq, run_loop_go hs, run_bind, run_bind, ← hrs ts hts']
      cases hrun : q.run ts with
      | mk result rest =>
        rw [hrun] at hrest
        cases result with
        | ok b => exact ih b rest hrun hrest
        | error e => rfl

theorem congruence (P : Token → Prop) : Congruence fun r s => SameOn P r s where
  refl := refl
  bind := bind
  loop := loop

end Reader.SameOn

namespace Level

variable {scope scope' : Scope}

theorem primaryAt_same {below below' : Level → Reader Float}
    (h : ∀ level, (below level).SameOn (scope.AgreesOn scope') (below' level)) {t : Token}
    (ht : scope.AgreesOn scope' t) :
    (primaryAt scope below t).SameOn (scope.AgreesOn scope') (primaryAt scope' below' t) := by
  have hprimary := (Reader.SameOn.congruence _).primaryAt scope' h t
  have hscope : primaryAt scope below t = primaryAt scope' below t := by
    unfold primaryAt
    split
    · rfl
    · rfl
    · rfl
    · rename_i name
      replace ht : scope.vars.get? name = scope'.vars.get? name := ht
      rw [ht]
    · rename_i name
      replace ht : scope.constants.get? name = scope'.constants.get? name := ht
      rw [ht]
    · rfl
    · rfl
  rwa [hscope]

variable [Elementary] (order : PowerOrder)

theorem read_same (frames : Nat) (level : Level) :
    (read scope order frames level).SameOn (scope.AgreesOn scope')
      (read scope' order frames level) := by
  induction frames generalizing level with
  | zero =>
      rw [read_zero, read_zero]
      exact .refl _
  | succ frames ih =>
      refine (Reader.SameOn.congruence _).read_succ ih ?_ level
      intro ts hts
      cases ts with
      | nil => rfl
      | cons t ts => exact primaryAt_same ih (hts t List.mem_cons_self) (t :: ts) hts

end Level

/-- Where two scopes agree on the tokens, an expression is read under both alike. -/
theorem wholeExpression_same [Elementary] {scope scope' : Scope} (order : PowerOrder) (frames : Nat)
    {ts : List Token} (h : ∀ t ∈ ts, scope.AgreesOn scope' t) :
    (wholeExpression scope order frames).start ts =
      (wholeExpression scope' order frames).start ts := by
  have hrun := (Reader.SameOn.congruence _).wholeExpression
    (Level.read_same order frames .expression) ts h
  rw [Reader.start, hrun]
  rfl

end Reckoner
