import Reckoner.Proofs.Descent.Congruence

/-!
Frames only cut off. With fewer frames a level is either refused as nested too deeply, or read
exactly as with more.
-/

namespace Reckoner

variable {α β : Type}

/-- One reader does what another does wherever it does not find the nesting too deep. -/
def Reader.Within (r s : Reader α) : Prop :=
  ∀ ts, (r.run ts).result = .error .tooDeep ∨ r.run ts = s.run ts

namespace Reader.Within

@[refl] theorem refl (r : Reader α) : r.Within r := fun _ => .inr rfl

theorem trans {r s q : Reader α} (hrs : r.Within s) (hsq : s.Within q) : r.Within q := by
  intro ts
  rcases hrs ts with h | h
  · exact .inl h
  · rw [h]
    exact hsq ts

theorem bind {r s : Reader α} {f g : α → Reader β} (hr : r.Within s)
    (hf : ∀ a, (f a).Within (g a)) : (r >>= f).Within (s >>= g) := by
  intro ts
  simp only [run_bind]
  rcases hr ts with h | h
  · left
    cases hrun : r.run ts with
    | mk result rest =>
      rw [hrun] at h
      obtain rfl : result = .error .tooDeep := h
      rfl
  · rw [← h]
    obtain ⟨result, rest⟩ := r.run ts
    cases result with
    | ok a => exact hf a rest
    | error e => exact .inr rfl

theorem loop {step step' : α → Token → Option (Reader α)}
    (h : ∀ a t, (step a t = none ∧ step' a t = none) ∨
      ∃ r s, step a t = some r ∧ step' a t = some s ∧ r.Within s) (a : α) :
    (Reader.loop step a).Within (Reader.loop step' a) := by
  intro ts
  induction a, ts using loop_induction step with
  | nil a => exact .inr (by simp)
  | stop a t ts hstep =>
      rcases h a t with ⟨_, hnone'⟩ | ⟨r, _, hr, _⟩
      · exact .inr (by rw [run_loop_stop hstep, run_loop_stop hnone'])
      · simp [hstep] at hr
  | go a t ts q hq ih =>
      -- both loops go on, the second with at least as many frames
      rcases h a t with ⟨hnone, _⟩ | ⟨r, s, hr, hs, hrs⟩
      · simp [hq] at hnone
      obtain rfl : q = r := by simpa [hq] using hr
      rw [run_loop_go hq, run_loop_go hs, run_bind, run_bind]
      cases hrun : q.run ts with
      | mk result rest =>
        rcases hrs ts with hdeep | heq
        · rw [hrun] at hdeep
          obtain rfl : result = .error .tooDeep := hdeep
          exact .inl rfl
        · rw [← heq, hrun]
          cases result with
          | ok b => exact ih b rest hrun
          | error e => exact .inr rfl

end Reader.Within

theorem Reader.within_congruence : Reader.Congruence @Reader.Within where
  refl := .refl
  bind := .bind
  loop := .loop

namespace Level

variable [Elementary] {scope : Scope} {order : PowerOrder}

theorem read_within_succ (frames : Nat) (level : Level) :
    (read scope order frames level).Within (read scope order (frames + 1) level) := by
  induction frames generalizing level with
  | zero =>
      rw [read_zero]
      exact fun _ => .inl rfl
  | succ frames ih =>
      refine Reader.within_congruence.read_succ ih ?_ level
      exact .bind (.refl _) (Reader.within_congruence.primaryAt scope ih)

theorem read_within {frames frames' : Nat} (h : frames ≤ frames') (level : Level) :
    (read scope order frames level).Within (read scope order frames' level) := by
  induction h with
  | refl => exact .refl _
  | step _ ih => exact ih.trans (read_within_succ _ level)

end Level

theorem wholeExpression_within [Elementary] (scope : Scope) (order : PowerOrder) {frames frames' : Nat}
    (h : frames ≤ frames') :
    (wholeExpression scope order frames).Within (wholeExpression scope order frames') :=
  Reader.within_congruence.wholeExpression (Level.read_within h .expression)

end Reckoner
