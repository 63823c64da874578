import Reckoner.Proofs.Descent.Levels
import Reckoner.Proofs.Grammar.Cause

/-!
Readers that go the same way. Two readers run in parallel if they consume the same tokens and halt
for the same cause, whatever values they compute; so do the readers that are put together of such.
-/

namespace Reckoner

variable {α α' β β' : Type}

/-- Two replies that came about in the same way: both have a value, and the values are related, or
both halt for the same cause, and in either case the same tokens are left. Nothing is said where one
of them finds the nesting too deep. -/
inductive Reply.Alike (V : α → β → Prop) : Reply α → Reply β → Prop
  | values {a : α} {b : β} (h : V a b) (rest : List Token) : Alike V ⟨.ok a, rest⟩ ⟨.ok b, rest⟩
  | halts (h : Halt) (rest : List Token) : Alike V ⟨.error h, rest⟩ ⟨.error h, rest⟩
  | deepLeft (rest : List Token) (s : Reply β) : Alike V ⟨.error .tooDeep, rest⟩ s
  | deepRight (r : Reply α) (rest : List Token) : Alike V r ⟨.error .tooDeep, rest⟩

namespace Reply.Alike

variable {V : α → β → Prop} {W : α' → β' → Prop}

theorem symm {r : Reply α} {s : Reply β} (h : r.Alike V s) : s.Alike (fun b a => V a b) r := by
  cases h with
  | values h rest => exact Alike.values (V := fun b a => V a b) h rest
  | halts h rest => exact .halts h rest
  | deepLeft rest s => exact .deepRight s rest
  | deepRight r rest => exact .deepLeft rest r

/-- Both go on from what they have found, if they have found something. -/
theorem resume {r : Reply α} {s : Reply β} (h : r.Alike V s) {f : α → Reader α'}
    {g : β → Reader β'}
    (hf : ∀ a b rest, r = ⟨.ok a, rest⟩ → V a b → ((f a).run rest).Alike W ((g b).run rest)) :
    (Reader.resume f r).Alike W (Reader.resume g s) := by
  cases h with
  | values h rest => exact hf _ _ rest rfl h
  | halts h rest => exact .halts h rest
  | deepLeft rest s => exact .deepLeft rest _
  | deepRight r rest => exact .deepRight _ rest

/-- Unless the nesting is too deep, both have a value or both have the same halt. -/
theorem of_shallow {r : Reply α} {s : Reply β} (h : r.Alike V s)
    (hr : r.result ≠ .error .tooDeep) (hs : s.result ≠ .error .tooDeep) :
    r.rest = s.rest ∧ ((∃ a b, r.result = .ok a ∧ s.result = .ok b) ∨
      ∃ e, r.result = .error e ∧ s.result = .error e) := by
  cases h with
  | values h rest => exact ⟨rfl, .inl ⟨_, _, rfl, rfl⟩⟩
  | halts e rest => exact ⟨rfl, .inr ⟨e, rfl, rfl⟩⟩
  | deepLeft rest s => exact absurd rfl hr
  | deepRight r rest => exact absurd rfl hs

end Reply.Alike

/-- Two readers go the same way through tokens of a kind, and come to related values. -/
def Reader.Parallel (P : Token → Prop) (V : α → β → Prop) (r : Reader α) (s : Reader β) : Prop :=
  ∀ ts, (∀ t ∈ ts, P t) → (r.run ts).Alike V (s.run ts)

/-- Two values of whatever size. -/
def Unrelated (_ _ : Float) : Prop := True

namespace Reader.Parallel

variable {P : Token → Prop} {V : α → β → Prop} {W : α' → β' → Prop}

theorem symm {r : Reader α} {s : Reader β} (h : r.Parallel P V s) :
    s.Parallel P (fun b a => V a b) r :=
  fun ts hts => (h ts hts).symm

theorem pure {a : α} {b : β} (h : V a b) : (pure a : Reader α).Parallel P V (pure b) :=
  fun ts _ => .values h ts

theorem fail (h : Halt) : (Reader.fail h : Reader α).Parallel P V (Reader.fail h) :=
  fun ts _ => .halts h ts

theorem ofTooDeep (s : Reader β) : (Reader.fail .tooDeep : Reader α).Parallel P V s :=
  fun ts _ => .deepLeft ts _

/-- A reader goes its own way. -/
theorem refl (r : Reader α) : r.Parallel P Eq r := by
  intro ts _
  cases r.run ts with
  | mk result rest =>
    cases result with
    | ok a => exact .values rfl rest
    | error h => exact .halts h rest

/-- What a reader leaves are tokens that it was given. -/
theorem forall_rest {r : Reader α} {ts rest : List Token} {result : Except Halt α}
    (hts : ∀ t ∈ ts, P t) (hrun : r.run ts = ⟨result, rest⟩) : ∀ t ∈ rest, P t := by
  have hsuffix := r.suffix ts
  rw [hrun] at hsuffix
  exact fun t ht => hts t (hsuffix.subset ht)

theorem bind {r : Reader α} {s : Reader β} {f : α → Reader α'} {g : β → Reader β'}
    (hr : r.Parallel P V s) (hf : ∀ a b, V a b → (f a).Parallel P W (g b)) :
    (r >>= f).Parallel P W (s >>= g) := by
  intro ts hts
  rw [run_bind, run_bind]
  refine (hr ts hts).resume fun a b rest hrun hab => ?_
  exact hf a b hab rest (forall_rest hts hrun)

/-- The same is read first by both. -/
theorem after {γ : Type} {r : Reader γ} {f : γ → Reader α} {g : γ → Reader β}
    (h : ∀ c, (f c).Parallel P V (g c)) : (r >>= f).Parallel P V (r >>= g) := by
  refine (refl r).bind fun c c' hc => ?_
  subst hc
  exact h c

/-- What is read once the token ahead is known, which is of the kind. -/
theorem ahead_bind {f : Token → Reader α} {g : Token → Reader β}
    (h : ∀ t, P t → (f t).Parallel P V (g t)) :
    (Reader.ahead >>= f).Parallel P V (Reader.ahead >>= g) := by
  intro ts hts
  cases ts with
  | nil => exact .halts .pastEnd []
  | cons t ts => exact h t (hts t List.mem_cons_self) (t :: ts) hts

theorem loop {step : α → Token → Option (Reader α)} {step' : β → Token → Option (Reader β)}
    (h : ∀ a b t, V a b → (step a t = none ∧ step' b t = none) ∨
      ∃ r s, step a t = some r ∧ step' b t = some s ∧ r.Parallel P V s) {a : α} {b : β}
    (hab : V a b) : (Reader.loop step a).Parallel P V (Reader.loop step' b) := by
  intro ts hts
  induction a, ts using loop_induction step generalizing b with
  | nil a =>
      rw [run_loop_nil, run_loop_nil]
      exact .halts .pastEnd []
  | stop a t ts hstep =>
      rcases h a b t hab with ⟨_, hnone'⟩ | ⟨r, _, hr, _⟩
      · rw [run_loop_stop hstep, run_loop_stop hnone']
        exact .values hab (t :: ts)
      · simp [hstep] at hr
  | go a t ts q hq ih =>
      rcases h a b t hab with ⟨hnone, _⟩ | ⟨r, s, hr, hs, hrs⟩
      · simp [hq] at hnone
      obtain rfl : q = r := by simpa [hq] using hr
      have htail : ∀ t ∈ ts, P t := fun t ht => hts t (List.mem_cons_of_mem _ ht)
      rw [run_loop_go hq, run_loop_go hs, run_bind, run_bind]
      refine (hrs ts htail).resume fun a' b' rest hrun hab' => ?_
      exact ih a' rest hrun hab' (forall_rest htail hrun)

end Reader.Parallel

/-! ### Chains -/

/-- As many arguments, or any two running values. -/
def Chain.Alike : (c : Chain) → c.Carried → c.Carried → Prop
  | .arguments, (xs : List Float), (ys : List Float) => xs.length = ys.length
  | .sums, _, _ | .products, _, _ | .powers, _, _ | .factorials, _, _ => True

namespace Chain

variable {P : Token → Prop}

theorem alike_start (c : Chain) (x y : Float) : c.Alike (c.start x) (c.start y) := by
  cases c <;> trivial

theorem alike_mark {c : Chain} (m : c.Mark) (a b : c.Carried) :
    ∃ a' b', m.apply a = .ok a' ∧ m.apply b = .ok b' ∧ c.Alike a' b' := by
  obtain ⟨a', ha⟩ := m.apply_total a
  obtain ⟨b', hb⟩ := m.apply_total b
  refine ⟨a', b', ha, hb, ?_⟩
  cases m <;> trivial

variable [Elementary]

/-- Both operations have a value, whatever the values they are made of. -/
theorem alike_apply {c : Chain} (op : c.Operator) {a b : c.Carried} (h : c.Alike a b)
    (x y : Float) :
    ∃ a' b', op.apply a x = .ok a' ∧ op.apply b y = .ok b' ∧ c.Alike a' b' := by
  obtain ⟨a', ha⟩ := op.apply_total a x
  obtain ⟨b', hb⟩ := op.apply_total b y
  refine ⟨a', b', ha, hb, ?_⟩
  cases op with
  | comma =>
      obtain rfl := Except.ok.inj ha
      obtain rfl := Except.ok.inj hb
      have hlength : List.length a = List.length b := h
      show List.length (a ++ [x]) = List.length (b ++ [y])
      rw [List.length_append, List.length_append, hlength]
      rfl
  | _ => trivial

theorem loop_parallel (c : Chain) {r s : Reader Float} (h : r.Parallel P Unrelated s)
    {a b : c.Carried} (hab : c.Alike a b) :
    (Reader.loop (c.step r) a).Parallel P c.Alike (Reader.loop (c.step s) b) := by
  refine .loop (fun a b t hab => ?_) hab
  rcases c.step_cases t with ⟨op, rfl⟩ | ⟨m, rfl⟩ | hnone
  · refine .inr ⟨_, _, c.step_token r op a, c.step_token s op b, ?_⟩
    refine h.bind fun x y _ => ?_
    obtain ⟨a', b', ha, hb, halike⟩ := alike_apply op hab x y
    rw [ha, hb]
    exact .pure halike
  · refine .inr ⟨_, _, c.step_markToken r m a, c.step_markToken s m b, ?_⟩
    obtain ⟨a', b', ha, hb, halike⟩ := alike_mark m a b
    rw [ha, hb]
    exact .pure halike
  · exact .inl ⟨hnone r a, hnone s b⟩

theorem reader_parallel (c : Chain) {r s : Reader Float} (h : r.Parallel P Unrelated s) :
    (c.reader r).Parallel P c.Alike (c.reader s) :=
  h.bind fun x y _ => c.loop_parallel h (c.alike_start x y)

end Chain

end Reckoner
