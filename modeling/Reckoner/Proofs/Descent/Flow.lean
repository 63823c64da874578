import Reckoner.Proofs.Call
import Reckoner.Proofs.Descent.Depth
import Reckoner.Proofs.Descent.Parallel
import Reckoner.Proofs.Descent.Viable
import Reckoner.Proofs.Grammar.Orders

/-!
What steers the reader. Which tokens are read, how far, and why the reader halts does not hang on the
values that it computes, as long as no function may refuse one; nor does it hang on the order of
powers, although a power from the left is read in a loop and one from the right in a recursion.
-/

namespace Reckoner

/-- The token is not the name of a restricted function. -/
def Token.Unrestricted (t : Token) : Prop := ∀ f : Restricted, t ≠ .func f.name

/-- The level is not that of a call of a restricted function. -/
def Level.Unrestricted (level : Level) : Prop := ∀ f : Restricted, level ≠ .call f.name

/-- Two scopes know the same names, with whatever values. -/
structure Scope.SameNames (s s' : Scope) : Prop where
  constants : ∀ name, s.constants.contains name = s'.constants.contains name
  vars : ∀ name, s.vars.contains name = s'.vars.contains name

namespace Scope.SameNames

variable {s s' : Scope}

theorem symm (h : s.SameNames s') : s'.SameNames s :=
  ⟨fun name => (h.constants name).symm, fun name => (h.vars name).symm⟩

theorem setVariable (s : Scope) (name : String) (x y : Float) :
    (s.setVariable name x).SameNames (s.setVariable name y) where
  constants _ := rfl
  vars other := by
    simp only [vars_setVariable, Table.contains, Table.get?_insert]
    split <;> rfl

end Scope.SameNames

/-- Two tables that know the same names know a name both or neither. -/
theorem Table.get?_cases {t t' : Table Float} {name : String}
    (h : t.contains name = t'.contains name) :
    (t.get? name = none ∧ t'.get? name = none) ∨
      ∃ x y, t.get? name = some x ∧ t'.get? name = some y := by
  unfold contains at h
  cases hx : t.get? name with
  | none =>
      rw [hx] at h
      exact .inl ⟨rfl, Option.not_isSome_iff_eq_none.1 (by simp [← h])⟩
  | some x =>
      rw [hx] at h
      obtain ⟨y, hy⟩ := Option.isSome_iff_exists.1 h.symm
      exact .inr ⟨x, y, rfl, hy⟩

namespace Level

/-- The readers of two levels go the same way through tokens without restricted functions. -/
abbrev Parallel (r s : Reader Float) : Prop := r.Parallel Token.Unrestricted Unrelated s

variable {scope scope' : Scope}

theorem primaryAt_parallel (hnames : scope.SameNames scope') {below below' : Level → Reader Float}
    (h : ∀ level : Level, level.Unrestricted → Parallel (below level) (below' level)) (t : Token)
    (ht : t.Unrestricted) : Parallel (primaryAt scope below t) (primaryAt scope' below' t) := by
  have hvalue (x y : Float) : Parallel (pure x) (pure y) := .pure trivial
  unfold primaryAt
  split
  · exact .after fun _ => (h .primary nofun).bind fun x y _ => hvalue _ _
  · exact .after fun _ => (h .expression nofun).bind fun x y _ => .after fun _ => hvalue _ _
  · exact .after fun _ => hvalue _ _
  · rename_i name
    rcases Table.get?_cases (hnames.vars name) with ⟨hx, hy⟩ | ⟨x, y, hx, hy⟩
    · simp only [hx, hy]
      exact .fail _
    · simp only [hx, hy]
      exact .after fun _ => hvalue _ _
  · rename_i name
    refine .after fun _ => ?_
    rcases Table.get?_cases (hnames.constants name) with ⟨hx, hy⟩ | ⟨x, y, hx, hy⟩
    · simp only [hx, hy]
      exact .fail _
    · simp only [hx, hy]
      exact hvalue _ _
  · rename_i name
    refine .after fun _ => h _ fun f hf => ?_
    exact ht f (congrArg Token.func (Level.call.inj hf))
  · exact .fail _

section Elementary

variable [Elementary] {order order' : PowerOrder}

theorem exponent_parallel {r s : Reader Float} (h : Parallel r s) (a b : Float) :
    Parallel (exponent r a) (exponent s b) := by
  refine .after fun t => ?_
  split
  · refine .after fun _ => h.bind fun x y _ => ?_
    obtain ⟨x', hx⟩ := Arithmetic.power_total a x
    obtain ⟨y', hy⟩ := Arithmetic.power_total b y
    rw [hx, hy]
    exact .pure trivial
  · exact .pure trivial

/-- An exponent, its sign having been read. -/
theorem run_exponent_raise (tower : Reader Float) (b : Float) (ts : List Token) :
    (exponent tower b).run (.op "^" :: ts) =
      (tower >>= fun x => Reader.compute (Arithmetic.power b x)).run ts := by
  simp [exponent, Token.isOp, Reader.resume]

/-- No exponent. -/
theorem run_exponent_stop (tower : Reader Float) (b : Float) {t : Token} (ht : t ≠ .op "^")
    (ts : List Token) : (exponent tower b).run (t :: ts) = ⟨.ok b, t :: ts⟩ := by
  simp [exponent, Reader.resume, Token.isOp, ht]

/-- What is left of a row goes the way of factorials with an exponent behind, if an operand with the
rest of the row goes the way of the exponent. -/
theorem row_parallel {operand operand' tower : Reader Float}
    (h : ∀ f : Float → Float,
      Parallel (operand >>= fun x => Reader.loop (Chain.powers.step operand) (f x)) tower)
    (a b : Float) :
    Parallel (Reader.loop (Chain.powers.step operand) a)
      (Reader.loop (Chain.factorials.step operand') b >>= exponent tower) := by
  intro ts hts
  induction ts generalizing a b with
  | nil =>
      rw [Reader.run_bind, Reader.run_loop_nil, Reader.run_loop_nil]
      exact .halts .pastEnd []
  | cons t ts ih =>
      have htail : ∀ t ∈ ts, t.Unrestricted := fun t ht => hts t (List.mem_cons_of_mem _ ht)
      rw [Reader.run_bind]
      by_cases hraise : t = .op "^"
      · -- the loop reads an operand and goes on, the recursion reads the exponent
        subst hraise
        have hstop : Chain.factorials.step operand' b (.op "^") = none := rfl
        have hgo : Chain.powers.step operand a (.op "^") =
          some (operand >>= fun x => Reader.compute (Arithmetic.power a x)) := rfl
        rw [Reader.run_loop_stop hstop, Reader.run_loop_go hgo, Reader.resume, run_exponent_raise,
          bind_assoc]
        -- each power has a value, which is what the operand is made into
        choose f hf using Arithmetic.power_total a
        have hrest := (h f).bind (W := Unrelated) (f := pure)
          (g := fun y => Reader.compute (Arithmetic.power b y)) fun x y _ => by
            obtain ⟨z, hz⟩ := Arithmetic.power_total b y
            rw [hz]
            exact .pure trivial
        simpa only [bind_pure, hf, Reader.compute_ok, pure_bind] using hrest ts htail
      by_cases hmark : t = .op "!"
      · subst hmark
        obtain ⟨a', ha⟩ := Arithmetic.factorial_total a
        obtain ⟨b', hb⟩ := Arithmetic.factorial_total b
        have hgo : Chain.powers.step operand a (.op "!") = some (pure a') :=
          congrArg (some ∘ Reader.compute) ha
        have hgo' : Chain.factorials.step operand' b (.op "!") = some (pure b') :=
          congrArg (some ∘ Reader.compute) hb
        rw [Reader.run_loop_go hgo, Reader.run_loop_go hgo', pure_bind, pure_bind,
          ← Reader.run_bind]
        exact ih _ _ htail
      · have hstop : Chain.powers.step operand a t = none := by
          refine Chain.step_eq_none (c := .powers) operand (fun op => ?_) (fun _ => hmark) a
          cases op
          exact hraise
        have hstop' : Chain.factorials.step operand' b t = none := by
          refine Chain.step_eq_none (c := .factorials) operand' (fun op => ?_) (fun _ => hmark) b
          cases op
        rw [Reader.run_loop_stop hstop, Reader.run_loop_stop hstop', Reader.resume,
          run_exponent_stop tower b hraise]
        exact .values trivial (t :: ts)

/-- A row of powers goes the way of a tower, whatever its first operand is made into. -/
theorem tower_parallel {operand : Reader Float}
    (h : ∀ k, Parallel operand (read scope order k .primary)) (k : Nat) (f : Float → Float) :
    Parallel (operand >>= fun x => Reader.loop (Chain.powers.step operand) (f x))
      (read scope order k .powerRight) := by
  induction k generalizing f with
  | zero =>
      rw [read_zero]
      exact (Reader.Parallel.ofTooDeep _).symm
  | succ k ih =>
      rw [read_powerRight, Chain.reader, bind_assoc]
      exact (h k).bind fun x y _ => row_parallel ih (f x) y

variable (hlaws : Elementary.Documented)

include hlaws

theorem callNamed_parallel {name : String} (hname : (Level.call name).Unrestricted)
    {xs ys : List Float} (h : Chain.arguments.Alike xs ys) :
    Parallel (Reader.ofExcept (Builtin.callNamed name xs))
      (Reader.ofExcept (Builtin.callNamed name ys)) := by
  have hlength : xs.length = ys.length := h
  have hrestricted : ∀ f : Restricted, name ≠ f.name := fun f hf =>
    hname f (congrArg Level.call hf)
  rcases Builtin.callNamed_of_length hlaws hrestricted hlength with ⟨x, y, hx, hy⟩ | ⟨e, hx, hy⟩
  · rw [hx, hy]
    exact .pure trivial
  · rw [hx, hy]
    exact .fail e

/-- All levels go the same way if the level of powers does whenever those below it do. -/
theorem read_parallel_of_power (hnames : scope.SameNames scope')
    (hpower : ∀ n n',
      (∀ m (level : Level), level.Unrestricted →
        Parallel (read scope order n level) (read scope' order' m level)) →
      Parallel (read scope order (n + 1) .power) (read scope' order' (n' + 1) .power)) (n n' : Nat)
    (level : Level) (hlevel : level.Unrestricted) :
    Parallel (read scope order n level) (read scope' order' n' level) := by
  induction n generalizing n' level with
  | zero =>
      rw [read_zero]
      exact .ofTooDeep _
  | succ n ih =>
      cases n' with
      | zero =>
          rw [read_zero scope' order']
          exact (Reader.Parallel.ofTooDeep _).symm
      | succ n' =>
          cases level with
          | expression =>
              exact Chain.sums.reader_parallel (ih n' .factor nofun)
          | factor =>
              exact Chain.products.reader_parallel (ih n' .power nofun)
          | power => exact hpower n n' ih
          | powerRight =>
              rw [read_powerRight, read_powerRight]
              have hbase := Chain.factorials.reader_parallel (ih n' .primary nofun)
              exact hbase.bind fun a b _ => exponent_parallel (ih n' .powerRight nofun) a b
          | primary => exact .ahead_bind fun t ht => primaryAt_parallel hnames (ih n') t ht
          | call name =>
              rw [read_call, read_call]
              have hargs := Chain.arguments.reader_parallel (ih n' .expression nofun)
              exact .after fun _ => hargs.bind fun xs ys hxs =>
                .after fun _ => callNamed_parallel hlaws hlevel hxs

/-- The same order of powers. -/
theorem read_parallel (hnames : scope.SameNames scope') (order : PowerOrder) (n n' : Nat)
    (level : Level) (hlevel : level.Unrestricted) :
    Parallel (read scope order n level) (read scope' order n' level) := by
  refine read_parallel_of_power hlaws hnames (fun n n' ih => ?_) n n' level hlevel
  cases order with
  | fromLeft =>
      exact Chain.powers.reader_parallel (ih n' .primary nofun)
  | fromRight => exact ih n' .powerRight nofun

/-- Powers from the left go the way of those from the right. -/
theorem read_parallel_orders (hnames : scope.SameNames scope') (n n' : Nat) (level : Level)
    (hlevel : level.Unrestricted) :
    Parallel (read scope .fromLeft n level) (read scope' .fromRight n' level) := by
  refine read_parallel_of_power hlaws hnames (fun n n' ih => ?_) n n' level hlevel
  exact tower_parallel (fun k => ih k .primary nofun) n' id

/-- Whatever the orders of powers. -/
theorem read_parallel_any (hnames : scope.SameNames scope') (order order' : PowerOrder)
    (n n' : Nat) (level : Level) (hlevel : level.Unrestricted) :
    Parallel (read scope order n level) (read scope' order' n' level) := by
  cases order with
  | fromLeft =>
      cases order' with
      | fromLeft => exact read_parallel hlaws hnames .fromLeft n n' level hlevel
      | fromRight => exact read_parallel_orders hlaws hnames n n' level hlevel
  | fromRight =>
      cases order' with
      | fromLeft => exact (read_parallel_orders hlaws hnames.symm n' n level hlevel).symm
      | fromRight => exact read_parallel hlaws hnames .fromRight n n' level hlevel

end Elementary

end Level

variable {scope scope' : Scope}

theorem wholeExpression_parallel [Elementary] (hlaws : Elementary.Documented)
    (hnames : scope.SameNames scope') (order order' : PowerOrder)
    (frames frames' : Nat) :
    Level.Parallel (wholeExpression scope order frames) (wholeExpression scope' order' frames') := by
  have hread := Level.read_parallel_any hlaws hnames order order' frames frames' .expression nofun
  refine hread.bind fun x y _ => .after fun t => ?_
  split
  · exact .pure trivial
  · exact .fail _

/-- The sentences are the same in both orders of powers. -/
theorem Sentence.reordered {order : PowerOrder} {ts : List Token} (h : Sentence order ts)
    (order' : PowerOrder) : Sentence order' ts := by
  obtain ⟨tree, rfl⟩ := h
  obtain ⟨tree', htree⟩ := tree.exists_reordered order'
  exact ⟨tree', by rw [htree]⟩

/-- Through tokens that name no restricted function the reader takes one way, whatever the values of
the names and the order of powers: with frames enough for it, it comes as far, and to a value or to
the same fault. In particular both orders have the same sentences. -/
theorem wholeExpression_flow [Elementary] (hlaws : Elementary.Documented)
    (hnames : scope.SameNames scope') (order order' : PowerOrder)
    {ts : List Token} (hts : ∀ f : Restricted, .func f.name ∉ ts) :
    (∃ enough, ∀ frames, enough ≤ frames →
      ((wholeExpression scope order frames).start ts).result ≠ .error .tooDeep ∧
        ((wholeExpression scope' order' frames).start ts).result ≠ .error .tooDeep) ∧
    (∀ frames frames',
      ((wholeExpression scope order frames).start ts).result ≠ .error .tooDeep →
      ((wholeExpression scope' order' frames').start ts).result ≠ .error .tooDeep →
        ((wholeExpression scope order frames).start ts).cursor =
            ((wholeExpression scope' order' frames').start ts).cursor ∧
          ((∃ x y, ((wholeExpression scope order frames).start ts).result = .ok x ∧
              ((wholeExpression scope' order' frames').start ts).result = .ok y) ∨
            ∃ h, ((wholeExpression scope order frames).start ts).result = .error h ∧
              ((wholeExpression scope' order' frames').start ts).result = .error h)) ∧
    (Sentence order ts ↔ Sentence order' ts) := by
  refine ⟨?_, ?_, fun h => h.reordered order', fun h => h.reordered order⟩
  · refine ⟨max (Level.expression.height order + Token.framesOf order ts)
      (Level.expression.height order' + Token.framesOf order' ts), fun frames hframes => ?_⟩
    obtain ⟨hleft, hright⟩ := Nat.max_le.1 hframes
    exact ⟨wholeExpression_fits scope hleft, wholeExpression_fits scope' hright⟩
  · intro frames frames' hdeep hdeep'
    have hunrestricted : ∀ t ∈ ts, t.Unrestricted := by
      rintro t ht f rfl
      exact hts f ht
    have halike := wholeExpression_parallel hlaws hnames order order' frames frames' ts hunrestricted
    obtain ⟨hrest, hresult⟩ := halike.of_shallow hdeep hdeep'
    refine ⟨?_, hresult⟩
    simp only [Reader.start, hrest]

/-- An exponent is missing before the parenthesis, for each value of `x` and in both orders. -/
theorem wholeExpression_flow_missing_exponent :
    letI := Elementary.coarse
    (Elementary.Documented ∧
      (Scope.builtin.setVariable "x" 1).SameNames (Scope.builtin.setVariable "x" 2) ∧
      ∀ f : Restricted, .func f.name ∉ [Token.var "x", .op "^", .op ")", .ending]) ∧
    ((wholeExpression (Scope.builtin.setVariable "x" 1) .fromLeft 10).start
        [Token.var "x", .op "^", .op ")", .ending]).cursor =
      ((wholeExpression (Scope.builtin.setVariable "x" 2) .fromRight 10).start
        [Token.var "x", .op "^", .op ")", .ending]).cursor ∧
    ((wholeExpression (Scope.builtin.setVariable "x" 2) .fromRight 10).start
        [Token.var "x", .op "^", .op ")", .ending]).result =
      .error (.fault (.unexpectedToken (.op ")"))) := by
  let _ := Elementary.coarse
  have hnames := Scope.SameNames.setVariable Scope.builtin "x" 1 2
  have hts : ∀ f : Restricted, .func f.name ∉ [Token.var "x", .op "^", .op ")", .ending] := by
    simp
  have hleft : ((wholeExpression (Scope.builtin.setVariable "x" 1) .fromLeft 10).start
      [Token.var "x", .op "^", .op ")", .ending]).result =
        .error (.fault (.unexpectedToken (.op ")"))) := by
    with_unfolding_all rfl
  have hright : ((wholeExpression (Scope.builtin.setVariable "x" 2) .fromRight 10).start
      [Token.var "x", .op "^", .op ")", .ending]).result ≠ .error .tooDeep :=
    wholeExpression_fits _ (by decide)
  obtain ⟨hcursor, hresults⟩ := (wholeExpression_flow Elementary.coarse_documented hnames .fromLeft
    .fromRight hts).2.1 10 10 (by simp [hleft]) hright
  refine ⟨⟨Elementary.coarse_documented, hnames, hts⟩, hcursor, ?_⟩
  rcases hresults with ⟨x, y, hx, -⟩ | ⟨h, hh, hh'⟩
  · simp [hleft] at hx
  · rw [hh', ← hh, hleft]

end Reckoner
