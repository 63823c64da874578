import Reckoner.Proofs.Descent.Levels

/-!
Two readers side by side. A relation between readers that goes along when one reader follows another,
and along loops, carries over from the levels below to a level.
-/

namespace Reckoner

/-- A relation between readers that goes along their steps. -/
structure Reader.Congruence (R : {α : Type} → Reader α → Reader α → Prop) : Prop where
  refl : ∀ {α : Type} (r : Reader α), R r r
  bind : ∀ {α β : Type} {r s : Reader α} {f g : α → Reader β}, R r s → (∀ a, R (f a) (g a)) →
    R (r >>= f) (s >>= g)
  loop : ∀ {α : Type} {step step' : α → Token → Option (Reader α)},
    (∀ a t, (step a t = none ∧ step' a t = none) ∨
      ∃ r s, step a t = some r ∧ step' a t = some s ∧ R r s) →
    ∀ a, R (Reader.loop step a) (Reader.loop step' a)

namespace Reader.Congruence

variable {R : {α : Type} → Reader α → Reader α → Prop} (hR : Congruence R)

include hR

theorem primaryAt (scope : Scope) {below below' : Level → Reader Float}
    (h : ∀ level, R (below level) (below' level)) (t : Token) :
    R (Level.primaryAt scope below t) (Level.primaryAt scope below' t) := by
  unfold Level.primaryAt
  split
  · exact hR.bind (hR.refl _) fun _ => hR.bind (h _) fun _ => hR.refl _
  · exact hR.bind (hR.refl _) fun _ => hR.bind (h _) fun _ => hR.refl _
  · exact hR.refl _
  · exact hR.refl _
  · exact hR.refl _
  · exact hR.bind (hR.refl _) fun _ => h _
  · exact hR.refl _

variable [Elementary]

theorem chain (c : Chain) {r s : Reader Float} (h : R r s) : R (c.reader r) (c.reader s) := by
  refine hR.bind h fun x => hR.loop (fun a t => ?_) _
  rcases c.step_cases t with ⟨op, rfl⟩ | ⟨m, rfl⟩ | hnone
  · exact .inr ⟨_, _, c.step_token r op a, c.step_token s op a, hR.bind h fun y => hR.refl _⟩
  · exact .inr ⟨_, _, c.step_markToken r m a, c.step_markToken s m a, hR.refl _⟩
  · exact .inl ⟨hnone r a, hnone s a⟩

theorem exponent {r s : Reader Float} (h : R r s) (b : Float) :
    R (Level.exponent r b) (Level.exponent s b) := by
  refine hR.bind (hR.refl _) fun t => ?_
  split
  · exact hR.bind (hR.refl _) fun _ => hR.bind h fun _ => hR.refl _
  · exact hR.refl _

variable {scope scope' : Scope} {order : PowerOrder} {frames frames' : Nat}

/-- A level has the relation if the levels below it do. Names are looked up in primaries alone, so
for them it is asked for. -/
theorem read_succ
    (h : ∀ level, R (Level.read scope order frames level) (Level.read scope' order frames' level))
    (hprimary : R (Level.read scope order (frames + 1) .primary)
      (Level.read scope' order (frames' + 1) .primary)) (level : Level) :
    R (Level.read scope order (frames + 1) level)
      (Level.read scope' order (frames' + 1) level) := by
  cases level with
  | expression => exact hR.chain .sums (h _)
  | factor => exact hR.chain .products (h _)
  | power =>
      cases horder : order with
      | fromLeft =>
          subst horder
          exact hR.chain .powers (h _)
      | fromRight =>
          subst horder
          exact h .powerRight
  | powerRight =>
      rw [Level.read_powerRight, Level.read_powerRight]
      exact hR.bind (hR.chain .factorials (h _)) (hR.exponent (h _))
  | primary => exact hprimary
  | call name =>
      rw [Level.read_call, Level.read_call]
      exact hR.bind (hR.refl _) fun _ => hR.bind (hR.chain .arguments (h _)) fun _ => hR.refl _

theorem wholeExpression
    (h : R (Level.read scope order frames .expression)
      (Level.read scope' order frames' .expression)) :
    R (wholeExpression scope order frames) (wholeExpression scope' order frames') :=
  hR.bind h fun _ => hR.refl _

end Reader.Congruence
end Reckoner
