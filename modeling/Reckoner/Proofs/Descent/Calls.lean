import Reckoner.Proofs.Descent.Closure

/-!
The name of a function is consumed with its call. Behind each name that a reader has consumed it has
read the arguments, and it has failed if the call has.
-/

namespace Reckoner

variable [Elementary] {α β : Type} (scope : Scope) (order : PowerOrder)

namespace Reader

/-- On the tokens, the reader fails as the call behind any name that it consumes. -/
def HeedsAt (r : Reader α) (ts : List Token) : Prop :=
  ∀ ⦃u : List Token⦄ ⦃name : String⦄ ⦃w : List Token⦄, ts = u ++ .func name :: w →
    (r.run ts).rest.length ≤ w.length →
      ∃ frames, ∀ h, (((Level.call name).read scope order frames).run w).result = .error h →
        (r.run ts).result = .error h

variable {scope order}

theorem heedsAt_of_idle {r : Reader α} {ts : List Token} (h : (r.run ts).rest = ts) :
    r.HeedsAt scope order ts := by
  intro u name w hts hrest
  have hlength := congrArg List.length hts
  rw [List.length_append, List.length_cons] at hlength
  rw [h] at hrest
  omega

theorem HeedsAt.bind {r : Reader α} {f : α → Reader β} {ts : List Token}
    (hr : r.HeedsAt scope order ts)
    (hf : ∀ a mid, r.run ts = ⟨.ok a, mid⟩ → (f a).HeedsAt scope order mid) :
    (r >>= f).HeedsAt scope order ts := by
  intro u name w hts hrest
  rw [run_bind] at hrest ⊢
  cases hreply : r.run ts with
  | mk first mid =>
    rw [hreply] at hrest
    by_cases hmid : mid.length ≤ w.length
    · obtain ⟨frames, hcall⟩ := hr hts (by rw [hreply]; exact hmid)
      refine ⟨frames, fun h herror => ?_⟩
      obtain rfl : first = .error h := by simpa [hreply] using hcall h herror
      rfl
    · -- the name has been left to the second reader
      have hname : .func name :: w <:+ ts := ⟨u, hts.symm⟩
      have hsuffix := r.suffix ts
      rw [hreply] at hsuffix
      have hlength : (Token.func name :: w).length ≤ mid.length := by
        rw [List.length_cons]
        omega
      obtain ⟨v, rfl⟩ := List.suffix_of_suffix_length_le hname hsuffix hlength
      cases first with
      | error e => exact absurd hrest hmid
      | ok a => exact hf a _ hreply rfl hrest

end Reader

theorem heedsAt_closed (scope : Scope) (order : PowerOrder) :
    Closed scope order (Reader.HeedsAt scope order) where
  pure _ _ := Reader.heedsAt_of_idle rfl
  fail _ _ := Reader.heedsAt_of_idle rfl
  ahead ts := Reader.heedsAt_of_idle (by cases ts <;> rfl)
  bind := Reader.HeedsAt.bind
  skip {t ts} ht := by
    intro u name w hts hrest
    cases u with
    | nil => exact absurd (List.cons.inj hts).1 (ht name)
    | cons c u =>
        have hlength : ts.length = (u ++ .func name :: w).length :=
          congrArg List.length (List.cons.inj hts).2
        rw [List.length_append, List.length_cons] at hlength
        replace hrest : ts.length ≤ w.length := hrest
        omega
  call {frames name ts} h := by
    intro u name' w hts hrest
    rw [Reader.run_skip_bind] at hrest ⊢
    cases u with
    | nil =>
        obtain ⟨rfl, rfl⟩ : name = name' ∧ ts = w := by simpa using hts
        exact ⟨frames, fun _ herror => herror⟩
    | cons c u => exact h (List.cons.inj hts).2 hrest
  loopEnd {α step a ts} hend := by
    cases ts with
    | nil => exact Reader.heedsAt_of_idle (by simp)
    | cons t ts => exact Reader.heedsAt_of_idle (by rw [Reader.run_loop_stop (hend t rfl)])
  loopGo hr ht h := by
    intro u name w hts hrest
    rw [Reader.run_loop_go hr] at hrest ⊢
    cases u with
    | nil => exact absurd (List.cons.inj hts).1 (ht name)
    | cons c u => exact h (List.cons.inj hts).2 hrest

end Reckoner
