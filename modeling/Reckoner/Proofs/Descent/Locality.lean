import Reckoner.Proofs.Descent.Closure

/-!
Readers look one token ahead. What a reader has found and where it has stopped stay the same
whatever comes behind the token ahead of it there.
-/

namespace Reckoner

variable {α β : Type}

namespace Reader

/-- What the reader makes of the tokens, it makes of all that go on differently only behind the
token where it stops. -/
def LocalAt (r : Reader α) (ts : List Token) : Prop :=
  ∀ ⦃u m m' : List Token⦄ ⦃result : Except Halt α⦄, ts = u ++ m → m.head? = m'.head? →
    r.run ts = ⟨result, m⟩ → r.run (u ++ m') = ⟨result, m'⟩

/-- A reader is local that consumes nothing and looks at no more than the token ahead. -/
theorem localAt_of_idle {r : Reader α} (hrest : ∀ ts, (r.run ts).rest = ts)
    (hresult : ∀ ts ts', ts.head? = ts'.head? → (r.run ts).result = (r.run ts').result)
    (ts : List Token) : r.LocalAt ts := by
  rintro u m m' result rfl hhead hrun
  have hm : u ++ m = m := by rw [← hrest (u ++ m), hrun]
  obtain rfl : u = [] := List.append_left_eq_self.1 hm
  have hidle : r.run m' = ⟨(r.run m').result, (r.run m').rest⟩ := rfl
  rw [List.nil_append] at hrun
  rw [List.nil_append, hidle, hrest, ← hresult m m' hhead, hrun]

theorem localAt_skip (t : Token) (ts : List Token) : skip.LocalAt (t :: ts) := by
  intro u m m' result hts hhead hrun
  obtain ⟨rfl, rfl⟩ : Except.ok () = result ∧ ts = m := by simpa using hrun
  replace hts : [t] ++ ts = u ++ ts := hts
  obtain rfl : [t] = u := List.append_cancel_right hts
  rfl

theorem LocalAt.bind {r : Reader α} {f : α → Reader β} {ts : List Token} (hr : r.LocalAt ts)
    (hf : ∀ a mid, r.run ts = ⟨.ok a, mid⟩ → (f a).LocalAt mid) : (r >>= f).LocalAt ts := by
  intro u m m' result hts hhead hrun
  rw [run_bind] at hrun
  cases hreply : r.run ts with
  | mk first mid =>
    rw [hreply] at hrun
    cases first with
    | error e =>
        obtain ⟨rfl, rfl⟩ : Except.error e = result ∧ mid = m := by simpa [resume] using hrun
        rw [run_bind, hr hts hhead hreply]
        rfl
    | ok a =>
        replace hrun : (f a).run mid = ⟨result, m⟩ := hrun
        -- `w` is what the first reader consumes, `v` what the second does
        obtain ⟨w, hw⟩ := r.suffix ts
        obtain ⟨v, hv⟩ := (f a).suffix mid
        rw [hreply] at hw
        rw [hrun] at hv
        subst hv
        obtain rfl : u = w ++ v := by
          rw [← hw, ← List.append_assoc] at hts
          exact (List.append_cancel_right hts).symm
        have hmid : (v ++ m).head? = (v ++ m').head? := by
          cases v with
          | nil => exact hhead
          | cons t v => rfl
        have hfirst : r.run (w ++ (v ++ m')) = ⟨.ok a, v ++ m'⟩ := hr hw.symm hmid hreply
        rw [List.append_assoc, run_bind, hfirst]
        exact hf a _ hreply rfl hhead hrun

theorem localAt_loop_end {step : α → Token → Option (Reader α)} {a : α} {ts : List Token}
    (hend : ∀ t, ts.head? = some t → step a t = none) : (loop step a).LocalAt ts := by
  intro u m m' result hts hhead hrun
  cases ts with
  | nil =>
      obtain ⟨rfl, rfl⟩ : u = [] ∧ m = [] := by simpa using hts
      obtain rfl : m' = [] := by simpa using hhead.symm
      exact hrun
  | cons t ts =>
      have hstep := hend t rfl
      rw [run_loop_stop hstep] at hrun
      obtain ⟨rfl, rfl⟩ : Except.ok a = result ∧ t :: ts = m := by simpa using hrun
      obtain rfl : u = [] := List.append_left_eq_self.1 hts.symm
      obtain ⟨ts', rfl⟩ := List.head?_eq_some_iff.1 hhead.symm
      exact run_loop_stop hstep ts'

theorem localAt_loop_go {step : α → Token → Option (Reader α)} {a : α} {t : Token} {r : Reader α}
    {ts : List Token} (hr : step a t = some r) (h : (r >>= loop step).LocalAt ts) :
    (loop step a).LocalAt (t :: ts) := by
  intro u m m' result hts hhead hrun
  rw [run_loop_go hr] at hrun
  cases u with
  | nil =>
      -- the token before `ts` has been consumed
      have hsuffix := ((r >>= loop step).suffix ts).length_le
      obtain rfl : t :: ts = m := hts
      rw [hrun, List.length_cons] at hsuffix
      omega
  | cons c u =>
      obtain ⟨rfl, rfl⟩ : t = c ∧ ts = u ++ m := by simpa using hts
      rw [List.cons_append, run_loop_go hr]
      exact h rfl hhead hrun

end Reader

theorem localAt_closed [Elementary] (scope : Scope) (order : PowerOrder) :
    Closed scope order @Reader.LocalAt where
  pure a ts := Reader.localAt_of_idle (fun _ => rfl) (fun _ _ _ => rfl) ts
  fail h ts := Reader.localAt_of_idle (fun _ => rfl) (fun _ _ _ => rfl) ts
  ahead ts := by
    refine Reader.localAt_of_idle (fun ts => ?_) (fun ts ts' hhead => ?_) ts
    · cases ts <;> rfl
    · cases ts <;> cases ts' <;> simp at hhead
      · rfl
      · rw [hhead]
        rfl
  bind := Reader.LocalAt.bind
  skip _ := Reader.localAt_skip _ _
  call h := by
    refine (Reader.localAt_skip _ _).bind fun _ mid hskip => ?_
    obtain rfl := congrArg Reply.rest hskip
    exact h
  loopEnd := Reader.localAt_loop_end
  loopGo hr _ h := Reader.localAt_loop_go hr h

end Reckoner
