import Reckoner.Fault.Basic

/-!
Readers of tokens. A reader takes tokens off the front of a list; what it leaves, also where it
fails, is an end of that list. So a reader can be repeated behind a token, and the repetition ends.
-/

namespace Reckoner

/-- What a reader has found, and the tokens from the first one it has not consumed. -/
structure Reply (α : Type) where
  result : Except Halt α
  rest : List Token

structure Reader (α : Type) where
  run : List Token → Reply α
  suffix : ∀ ts, (run ts).rest <:+ ts

namespace Reader

variable {α β : Type}

def done (a : α) : Reader α := ⟨fun ts => ⟨.ok a, ts⟩, List.suffix_refl⟩

def fail (h : Halt) : Reader α := ⟨fun ts => ⟨.error h, ts⟩, List.suffix_refl⟩

/-- Goes on with what a reply has found. -/
def resume (f : α → Reader β) : Reply α → Reply β
  | ⟨.ok a, rest⟩ => (f a).run rest
  | ⟨.error h, rest⟩ => ⟨.error h, rest⟩

theorem resume_suffix (f : α → Reader β) (r : Reply α) : (resume f r).rest <:+ r.rest := by
  obtain ⟨result, rest⟩ := r
  cases result with
  | ok a => exact (f a).suffix rest
  | error h => exact List.suffix_refl rest

def andThen (r : Reader α) (f : α → Reader β) : Reader β where
  run ts := resume f (r.run ts)
  suffix ts := (resume_suffix f (r.run ts)).trans (r.suffix ts)

instance : Monad Reader where
  pure := done
  bind := andThen

@[simp] theorem run_pure (a : α) (ts : List Token) : (pure a : Reader α).run ts = ⟨.ok a, ts⟩ := rfl

@[simp] theorem run_fail (h : Halt) (ts : List Token) :
    (fail h : Reader α).run ts = ⟨.error h, ts⟩ := rfl

@[simp] theorem run_bind (r : Reader α) (f : α → Reader β) (ts : List Token) :
    (r >>= f).run ts = resume f (r.run ts) := rfl

@[ext] theorem ext {r s : Reader α} (h : ∀ ts, r.run ts = s.run ts) : r = s := by
  obtain ⟨run, _⟩ := r
  obtain ⟨run', _⟩ := s
  obtain rfl : run = run' := funext h
  rfl

theorem resume_resume {γ : Type} (f : α → Reader β) (g : β → Reader γ) (r : Reply α) :
    resume g (resume f r) = resume (fun a => f a >>= g) r := by
  obtain ⟨result, rest⟩ := r
  cases result <;> rfl

theorem resume_done (r : Reply α) : resume done r = r := by
  obtain ⟨result, rest⟩ := r
  cases result <;> rfl

instance : LawfulMonad Reader := LawfulMonad.mk' Reader
  (fun r => ext fun ts => resume_done (r.run ts))
  (fun _ _ => rfl)
  (fun r f g => ext fun ts => resume_resume f g (r.run ts))

/-- The token ahead, which is not consumed. -/
def ahead : Reader Token where
  run
    | [] => ⟨.error .pastEnd, []⟩
    | t :: ts => ⟨.ok t, t :: ts⟩
  suffix ts := by cases ts <;> exact List.suffix_refl _

@[simp] theorem run_ahead_nil : ahead.run [] = ⟨.error .pastEnd, []⟩ := rfl

@[simp] theorem run_ahead_cons (t : Token) (ts : List Token) :
    ahead.run (t :: ts) = ⟨.ok t, t :: ts⟩ := rfl

/-- Consumes the token ahead. -/
def skip : Reader Unit where
  run ts := ⟨.ok (), ts.tail⟩
  suffix := List.tail_suffix

@[simp] theorem run_skip (ts : List Token) : skip.run ts = ⟨.ok (), ts.tail⟩ := rfl

theorem run_skip_bind (f : Unit → Reader β) (t : Token) (ts : List Token) :
    (skip >>= f).run (t :: ts) = (f ()).run ts := rfl

def ofExcept : Except Halt α → Reader α
  | .ok a => done a
  | .error h => fail h

@[simp] theorem run_ofExcept (outcome : Except Halt α) (ts : List Token) :
    (ofExcept outcome).run ts = ⟨outcome, ts⟩ := by
  cases outcome <;> rfl

/-- Consumes nothing, and has the result of a computation. -/
def compute (outcome : Except MathFault α) : Reader α := ofExcept (Halt.raising outcome)

/-- Consumes an operator, or fails as told. -/
def expect (symbol : String) (otherwise : Fault) : Reader Unit := do
  if (← ahead).isOp symbol then skip else fail (.fault otherwise)

/-- Goes on from `a` as long as `step` knows what to read behind the token ahead. -/
def iterate (step : α → Token → Option (Reader α)) (a : α) : List Token → Reply α
  | [] => ⟨.error .pastEnd, []⟩
  | t :: ts =>
    match step a t with
    | none => ⟨.ok a, t :: ts⟩
    | some r =>
      match _h : r.run ts with
      | ⟨.ok b, rest⟩ => iterate step b rest
      | ⟨.error h, rest⟩ => ⟨.error h, rest⟩
termination_by ts => ts.length
decreasing_by
  have hs := r.suffix ts
  rw [_h] at hs
  exact Nat.lt_succ_of_le hs.length_le

theorem iterate_suffix (step : α → Token → Option (Reader α)) (a : α) (ts : List Token) :
    (iterate step a ts).rest <:+ ts := by
  fun_induction iterate step a ts with
  | case1 => exact List.suffix_refl _
  | case2 => exact List.suffix_refl _
  | case3 a t ts r hr b rest hrun ih =>
      have hs := r.suffix ts
      rw [hrun] at hs
      exact (ih.trans hs).trans (List.suffix_cons t ts)
  | case4 a t ts r hr h rest hrun =>
      have hs := r.suffix ts
      rw [hrun] at hs
      exact hs.trans (List.suffix_cons t ts)

def loop (step : α → Token → Option (Reader α)) (a : α) : Reader α :=
  ⟨iterate step a, iterate_suffix step a⟩

section Loop

variable {step : α → Token → Option (Reader α)} {a : α} {t : Token}

@[simp] theorem run_loop_nil : (loop step a).run [] = ⟨.error .pastEnd, []⟩ := by
  simp [loop, iterate]

theorem run_loop_stop (h : step a t = none) (ts : List Token) :
    (loop step a).run (t :: ts) = ⟨.ok a, t :: ts⟩ := by
  simp only [loop]
  rw [iterate]
  simp only [h]

theorem run_loop_go {r : Reader α} (h : step a t = some r) (ts : List Token) :
    (loop step a).run (t :: ts) = (r >>= loop step).run ts := by
  rw [run_bind]
  simp only [loop]
  rw [iterate]
  simp only [h]
  split <;> rename_i hrun <;> rw [hrun] <;> rfl

/-- Induction along a loop: what holds of all that a step may leave holds of what it was given. -/
@[elab_as_elim]
theorem loop_induction (step : α → Token → Option (Reader α)) {motive : α → List Token → Prop}
    (nil : ∀ a, motive a [])
    (stop : ∀ a t ts, step a t = none → motive a (t :: ts))
    (go : ∀ a t ts r, step a t = some r → (∀ b rest, r.run ts = ⟨.ok b, rest⟩ → motive b rest) →
      motive a (t :: ts))
    (a : α) (ts : List Token) : motive a ts := by
  fun_induction iterate step a ts with
  | case1 a => exact nil a
  | case2 a t ts hstep => exact stop a t ts hstep
  | case3 a t ts r hr b rest hrun ih =>
      refine go a t ts r hr fun b' rest' hrun' => ?_
      obtain ⟨rfl, rfl⟩ : b = b' ∧ rest = rest' := by simpa [hrun] using hrun'
      exact ih
  | case4 a t ts r hr h rest hrun =>
      exact go a t ts r hr fun b' rest' hrun' => by simp [hrun] at hrun'

end Loop

end Reader
end Reckoner
