import Reckoner.Descent.Level
import Reckoner.Proofs.Builtin

/-!
How calls fail. A call is given too few arguments, or its function refuses the first of them:
outside of its domain, or at an infinite angle. No other failure of a part gets out.
-/

namespace Reckoner

/-- Whether the fault is one of the grammar: a token where no phrase can go on with it. -/
def Fault.isSyntax : Fault → Bool
  | .unclosed | .unopened _ | .unexpectedToken _ | .trailingToken _ => true
  | _ => false

namespace Builtin

theorem ofName?_eq_some_iff {name : String} {f : Builtin} :
    ofName? name = some f ↔ name = f.name := by
  constructor
  · intro h
    have hname := List.find?_some h
    exact (of_decide_eq_true hname).symm
  · rintro rfl
    exact ofName?_name f

variable [Elementary]

/-- The ways in which a call of a function that is known fails. -/
theorem call_eq_error {f : Builtin} {args : List Float} {h : Halt}
    (herror : f.call args = .error h) :
    h = .fault (.missingArguments f.name f.arity args.length) ∨ (∃ failure, h = .raised failure) ∨
      ∃ g x rest, f = .restricted g ∧ args = x :: rest ∧ h = .fault (.outsideDomain g) := by
  unfold call at herror
  split at herror
  · rename_i g x rest
    cases hx : g.apply x with
    | ok y =>
      rw [hx] at herror
      cases herror
    | error failure =>
      rw [hx] at herror
      exact .inr (.inl ⟨failure, (Except.error.inj herror).symm⟩)
  · rename_i g x rest
    cases hx : g.apply x with
    | ok y =>
      rw [hx] at herror
      cases herror
    | error r =>
      rw [hx] at herror
      obtain rfl : Halt.ofRefusal r = h := Except.error.inj herror
      rcases Restricted.apply_eq_error_iff.1 hx with ⟨rfl, -⟩ | ⟨rfl, -⟩
      · exact .inr (.inr ⟨g, x, rest, rfl, rfl, rfl⟩)
      · exact .inr (.inl ⟨_, rfl⟩)
  · rename_i g x y rest
    obtain ⟨z, hz⟩ := g.apply_total x y
    rw [hz] at herror
    cases herror
  · exact .inl (Except.error.inj herror).symm

/-- A call fails by itself, and not as a reader does. -/
theorem callNamed_eq_error {name : String} {args : List Float} {h : Halt}
    (herror : callNamed name args = .error h) :
    h = .unknownName name ∧ ofName? name = none ∨ (∃ failure, h = .raised failure) ∨
      ∃ fault : Fault, h = .fault fault ∧ fault.isSyntax = false := by
  unfold callNamed at herror
  split at herror
  · rcases call_eq_error herror with rfl | hraised | ⟨g, x, rest, rfl, rfl, rfl⟩
    · exact .inr (.inr ⟨_, rfl, rfl⟩)
    · exact .inr (.inl hraised)
    · exact .inr (.inr ⟨_, rfl, rfl⟩)
  · exact .inl ⟨(Except.error.inj herror).symm, ‹_›⟩

/-- No call lacks a variable. -/
theorem callNamed_ne_undefinedVariable (name : String) (args : List Float) (missing : String) :
    callNamed name args ≠ .error (.fault (.undefinedVariable missing)) := by
  intro herror
  unfold callNamed at herror
  split at herror
  · rcases call_eq_error herror with h | ⟨_, h⟩ | ⟨g, x, rest, -, -, h⟩ <;> cases h
  · cases herror

theorem call_restricted_eq_raised {g : Restricted} {args : List Float} {failure : MathFault}
    (herror : (restricted g).call args = .error (.raised failure)) :
    failure = .outside ∧ ∃ x rest, g.isReciprocal ∧ args = x :: rest ∧ x.isInf := by
  cases args with
  | nil => cases herror
  | cons x rest =>
    rw [call] at herror
    cases hx : g.apply x with
    | ok y =>
      rw [hx] at herror
      cases herror
    | error r =>
      rw [hx] at herror
      have hr : Halt.ofRefusal r = .raised failure := Except.error.inj herror
      rcases Restricted.apply_eq_error_iff.1 hx with ⟨rfl, -⟩ | ⟨rfl, hg, hinf⟩
      · cases hr
      · exact ⟨(Halt.raised.inj hr).symm, x, rest, hg, rfl, hinf⟩

/-- Of the failures of their parts calls let one out: where the reciprocal of a circular function has
an infinity for its first argument. -/
theorem callNamed_eq_raised_iff (h : Elementary.Documented) {name : String} {args : List Float}
    {failure : MathFault} :
    callNamed name args = .error (.raised failure) ↔ failure = .outside ∧
      ∃ g x rest, name = (restricted g).name ∧ g.isReciprocal ∧ args = x :: rest ∧ x.isInf := by
  unfold callNamed
  constructor
  · intro herror
    split at herror
    case h_2 => cases herror
    case h_1 f hf =>
      rw [ofName?_eq_some_iff] at hf
      cases f with
      | restricted g =>
        obtain ⟨rfl, x, rest, hg, rfl, hx⟩ := call_restricted_eq_raised herror
        exact ⟨rfl, g, x, rest, hf, hg, rfl, hx⟩
      | unary g =>
        match args, herror with
        | x :: rest, herror =>
          obtain ⟨y, hy⟩ := g.apply_total h x
          rw [call, hy] at herror
          cases herror
      | binary g =>
        match args, herror with
        | x :: y :: rest, herror =>
          obtain ⟨z, hz⟩ := g.apply_total x y
          rw [call, hz] at herror
          cases herror
  · rintro ⟨rfl, g, x, rest, rfl, hg, rfl, hx⟩
    rw [ofName?_name]
    have happly : g.apply x = .error (.raised .outside) :=
      Restricted.apply_eq_error_iff.2 (.inr ⟨rfl, hg, hx⟩)
    show (restricted g).call (x :: rest) = .error (.raised .outside)
    rw [call, happly]
    rfl

/-- A function that is not restricted has a value for all arguments, or for none of their number. -/
theorem callNamed_of_length (h : Elementary.Documented) {name : String}
    (hname : ∀ f : Restricted, name ≠ f.name) {xs ys : List Float} (hlength : xs.length = ys.length) :
    (∃ x y, callNamed name xs = .ok x ∧ callNamed name ys = .ok y) ∨
      ∃ h, callNamed name xs = .error h ∧ callNamed name ys = .error h := by
  unfold callNamed
  cases hf : ofName? name with
  | none => exact .inr ⟨_, rfl, rfl⟩
  | some f =>
    rw [ofName?_eq_some_iff] at hf
    cases f with
    | unary g =>
        match xs, ys, hlength with
        | [], [], _ => exact .inr ⟨_, rfl, rfl⟩
        | x :: _, y :: _, _ =>
          obtain ⟨a, ha⟩ := g.apply_total h x
          obtain ⟨b, hb⟩ := g.apply_total h y
          simp only [call, ha, hb, Halt.raising_ok]
          exact .inl ⟨a, b, rfl, rfl⟩
    | restricted g => exact absurd hf (hname g)
    | binary g =>
        match xs, ys, hlength with
        | [], [], _ => exact .inr ⟨_, rfl, rfl⟩
        | [x], [y], _ => exact .inr ⟨_, rfl, rfl⟩
        | x :: x' :: _, y :: y' :: _, _ =>
          obtain ⟨a, ha⟩ := g.apply_total x x'
          obtain ⟨b, hb⟩ := g.apply_total y y'
          simp only [call, ha, hb, Halt.raising_ok]
          exact .inl ⟨a, b, rfl, rfl⟩

end Builtin
end Reckoner
