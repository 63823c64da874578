import Reckoner.Proofs.Call
import Reckoner.Proofs.Descent.Soundness
import Reckoner.Proofs.Grammar.Cause

/-!
How many frames tokens can take. A level comes down to its primaries through the levels between, and
only a parenthesis, the operand of a minus, a call, and an exponent that is read from the right nest
any further. So the frames are counted off the tokens: chains of operators, however long, take none.
-/

namespace Reckoner

/-- The frames between a power and its primaries, and behind the sign of an exponent. -/
def PowerOrder.nesting : PowerOrder → Nat
  | .fromLeft => 0
  | .fromRight => 1

/-- The frames from a level down to its primaries. -/
def Level.height (order : PowerOrder) : Level → Nat
  | .expression => 4 + order.nesting
  | .factor => 3 + order.nesting
  | .power => 2 + order.nesting
  | .powerRight => 2
  | .primary | .call _ => 1

/-- The frames that are taken anew behind a token. -/
def Token.frames (order : PowerOrder) : Token → Nat
  | .op "(" => Level.expression.height order
  | .op "-" | .func _ => 1
  | .op "^" => order.nesting
  | _ => 0

/-- The frames that all of the tokens take, if they nest. -/
def Token.framesOf (order : PowerOrder) : List Token → Nat
  | [] => 0
  | t :: ts => t.frames order + Token.framesOf order ts

namespace Token

variable (order : PowerOrder)

@[simp] theorem framesOf_cons (t : Token) (ts : List Token) :
    framesOf order (t :: ts) = t.frames order + framesOf order ts := rfl

theorem framesOf_append (ts ts' : List Token) :
    framesOf order (ts ++ ts') = framesOf order ts + framesOf order ts' := by
  induction ts with
  | nil => simp [framesOf]
  | cons t ts ih =>
      rw [List.cons_append, framesOf_cons, framesOf_cons, ih]
      omega

variable {order} in
theorem framesOf_le_of_suffix {ts ts' : List Token} (h : ts <:+ ts') :
    framesOf order ts ≤ framesOf order ts' := by
  obtain ⟨front, rfl⟩ := h
  rw [framesOf_append]
  omega

end Token

variable {α β : Type} {order : PowerOrder} {n : Nat}

/-- The reader does not find the nesting too deep on the tokens. -/
def Reader.Fits (r : Reader α) (ts : List Token) : Prop :=
  (r.run ts).result ≠ .error .tooDeep

theorem Reader.Fits.bind {r : Reader α} {f : α → Reader β} {ts : List Token} (hr : r.Fits ts)
    (hf : ∀ a mid, r.run ts = ⟨.ok a, mid⟩ → (f a).Fits mid) : (r >>= f).Fits ts := by
  unfold Fits
  rw [run_bind]
  cases hrun : r.run ts with
  | mk result mid =>
    cases result with
    | ok a => exact hf a mid hrun
    | error e =>
        intro hdeep
        apply hr
        rw [hrun]
        exact congrArg Except.error (Except.error.inj hdeep)

/-- The reader does not find the nesting too deep where the tokens take at most `n` frames. -/
def Reader.FitsIn (order : PowerOrder) (n : Nat) (r : Reader α) : Prop :=
  ∀ ts, Token.framesOf order ts ≤ n → r.Fits ts

namespace Reader.FitsIn

theorem pure (a : α) : (pure a : Reader α).FitsIn order n := by
  intro ts _ h
  cases h

theorem fail {h : Halt} (hne : h ≠ .tooDeep) : (Reader.fail h : Reader α).FitsIn order n := by
  intro ts _ hdeep
  exact hne (Except.error.inj hdeep)

/-- What a reader leaves takes no more frames than what it was given. -/
theorem framesOf_rest {r : Reader α} {ts mid : List Token} {result : Except Halt α}
    (hts : Token.framesOf order ts ≤ n) (hrun : r.run ts = ⟨result, mid⟩) :
    Token.framesOf order mid ≤ n := by
  have hsuffix := r.suffix ts
  rw [hrun] at hsuffix
  have hle : Token.framesOf order mid ≤ Token.framesOf order ts :=
    Token.framesOf_le_of_suffix hsuffix
  exact Nat.le_trans hle hts

theorem bind {r : Reader α} {f : α → Reader β} (hr : r.FitsIn order n)
    (hf : ∀ a, (f a).FitsIn order n) : (r >>= f).FitsIn order n := by
  intro ts hts
  refine (hr ts hts).bind fun a mid hrun => ?_
  exact hf a mid (framesOf_rest hts hrun)

theorem ahead : Reader.ahead.FitsIn order n := by
  intro ts _
  cases ts <;> exact nofun

theorem skip : Reader.skip.FitsIn order n := by
  intro ts _ h
  cases h

theorem expect (symbol : String) (fault : Fault) :
    (Reader.expect symbol fault).FitsIn order n := by
  refine ahead.bind fun t => ?_
  split
  · exact skip
  · exact fail nofun

theorem loop {step : α → Token → Option (Reader α)}
    (h : ∀ a t r, step a t = some r → r.FitsIn order n) (a : α) :
    (Reader.loop step a).FitsIn order n := by
  intro ts hts
  induction a, ts using loop_induction step with
  | nil a => simp [Fits]
  | stop a t ts hstep => simp [Fits, run_loop_stop hstep]
  | go a t ts r hr ih =>
      have htail : Token.framesOf order ts ≤ n := by
        rw [Token.framesOf_cons] at hts
        omega
      have hbind : (r >>= Reader.loop step).Fits ts :=
        (h a t r hr ts htail).bind fun b mid hrun => ih b mid hrun (framesOf_rest htail hrun)
      unfold Fits
      rw [run_loop_go hr]
      exact hbind

/-- Behind a token there are its frames less. -/
theorem skip_bind {f : Unit → Reader β} {t : Token} {ts : List Token}
    (hts : Token.framesOf order (t :: ts) ≤ n)
    (h : t.frames order ≤ n → (f ()).FitsIn order (n - t.frames order)) :
    (Reader.skip >>= f).Fits (t :: ts) := by
  rw [Token.framesOf_cons] at hts
  have htoken : t.frames order ≤ n := by omega
  exact h htoken ts (by omega)

/-- What is read once the token ahead is known has that token ahead. -/
theorem ahead_bind {f : Token → Reader β}
    (h : ∀ t ts, Token.framesOf order (t :: ts) ≤ n → (f t).Fits (t :: ts)) :
    (Reader.ahead >>= f).FitsIn order n := by
  intro ts hts
  cases ts with
  | nil => exact nofun
  | cons t ts => exact h t ts hts

theorem chain [Elementary] (c : Chain) {r : Reader Float} (h : r.FitsIn order n) :
    (c.reader r).FitsIn order n := by
  refine h.bind fun x => loop (fun a t q hq => ?_) _
  rcases c.step_cases t with ⟨op, rfl⟩ | ⟨m, rfl⟩ | hnone
  · rw [Chain.step_token] at hq
    obtain rfl := Option.some.inj hq
    refine h.bind fun y => ?_
    obtain ⟨b, hb⟩ := op.apply_total a y
    rw [hb]
    exact pure b
  · rw [Chain.step_markToken r m] at hq
    obtain rfl := Option.some.inj hq
    obtain ⟨b, hb⟩ := m.apply_total a
    rw [hb]
    exact pure b
  · simp [hnone] at hq

end Reader.FitsIn

namespace Level

variable {scope : Scope}

/-- Whether the order of powers comes to the level at all. -/
def Occurs (order : PowerOrder) (level : Level) : Prop :=
  level = .powerRight → order = .fromRight

/-- Each level has all that it needs above its height for the tokens. -/
def FitsBelow (order : PowerOrder) (n : Nat) (below : Level → Reader Float) : Prop :=
  ∀ level : Level, level.Occurs order →
    ∀ k, k + level.height order ≤ n → (below level).FitsIn order k

section Below

variable {below : Level → Reader Float} {k : Nat} (h : FitsBelow order n below) (hk : k ≤ n)

include h hk

theorem primaryAt_fits (t : Token) (ts : List Token)
    (hts : Token.framesOf order (t :: ts) ≤ k) : (primaryAt scope below t).Fits (t :: ts) := by
  have hidle : ∀ t x, (do Reader.skip; return x : Reader Float).Fits (t :: ts) := by
    intro t x hdeep
    cases hdeep
  unfold primaryAt
  split
  · refine Reader.FitsIn.skip_bind hts fun hone => ?_
    have hone : 1 ≤ k := hone
    have hoperand : (below .primary).FitsIn order (k - 1) :=
      h .primary nofun (k - 1) (by simp only [height]; omega)
    exact hoperand.bind fun x => .pure _
  · refine Reader.FitsIn.skip_bind hts fun hheight => ?_
    have hcontent := h .expression nofun (k - Level.expression.height order) (by
      have hheight : Level.expression.height order ≤ k := hheight
      omega)
    exact hcontent.bind fun x => (Reader.FitsIn.expect _ _).bind fun _ => .pure _
  · exact hidle _ _
  · split
    · exact hidle _ _
    · exact nofun
  · refine Reader.FitsIn.skip_bind hts fun _ => ?_
    split
    · exact .pure _
    · exact .fail nofun
  · rename_i name
    refine Reader.FitsIn.skip_bind hts fun hone => ?_
    have hone : 1 ≤ k := hone
    exact h (.call name) nofun (k - 1) (by simp only [height]; omega)
  · exact nofun

theorem call_fits [Elementary] (name : String) :
    Reader.FitsIn order k (do
      Reader.expect "(" (.unopened name)
      let args ← Chain.arguments.reader (below .expression)
      Reader.expect ")" .unclosed
      Reader.ofExcept (Builtin.callNamed name args)) := by
  intro ts hts
  have hopen : (Reader.expect "(" (.unopened name)).Fits ts := Reader.FitsIn.expect _ _ ts hts
  refine hopen.bind fun _ mid hrun => ?_
  -- the parenthesis has been read, and it stands for the frames of an expression
  obtain rfl := Reader.run_expect_eq_ok hrun
  rw [Token.framesOf_cons] at hts
  have hparenthesis : Token.frames order (.op "(") = Level.expression.height order := rfl
  have hargs : (Chain.arguments.reader (below .expression)).FitsIn order
      (k - Level.expression.height order) :=
    .chain .arguments (h .expression nofun _ (by omega))
  have hcall : ∀ args, (Reader.ofExcept (Builtin.callNamed name args)).FitsIn order
      (k - Level.expression.height order) := by
    intro args ts _ hdeep
    rw [Reader.run_ofExcept] at hdeep
    have hfails := Builtin.callNamed_eq_error hdeep
    simp at hfails
  exact (hargs.bind fun args => (Reader.FitsIn.expect _ _).bind fun _ => hcall args) mid (by omega)

end Below

theorem exponent_fits [Elementary] {tower : Reader Float} {k : Nat} (horder : order = .fromRight)
    (h : 1 ≤ k → tower.FitsIn order (k - 1)) (b : Float) :
    (exponent tower b).FitsIn order k := by
  refine Reader.FitsIn.ahead_bind fun t ts hts => ?_
  split
  · rename_i ht
    obtain rfl : t = .op "^" := by simpa [Token.isOp] using ht
    have hone : Token.frames order (.op "^") = 1 := by
      subst horder
      rfl
    refine Reader.FitsIn.skip_bind hts fun hk => ?_
    rw [hone] at hk ⊢
    refine (h hk).bind fun x => ?_
    obtain ⟨y, hy⟩ := Arithmetic.power_total b x
    rw [hy]
    exact .pure y
  · exact Reader.FitsIn.pure b (t :: ts) hts

/-- A level is read with as many frames as its height and the tokens take. -/
theorem read_fits [Elementary] (scope : Scope) (order : PowerOrder) (frames : Nat) :
    FitsBelow order frames (read scope order frames) := by
  induction frames with
  | zero =>
      intro level _ k hk
      cases level <;> simp only [height] at hk <;> omega
  | succ n ih =>
      intro level hoccurs k hk
      cases level with
      | expression =>
          simp only [height] at hk
          exact .chain .sums (ih .factor nofun k (by simp only [height]; omega))
      | factor =>
          simp only [height] at hk
          exact .chain .products (ih .power nofun k (by simp only [height]; omega))
      | power =>
          simp only [height] at hk
          cases order with
          | fromLeft => exact .chain .powers (ih .primary nofun k (by simp only [height]; omega))
          | fromRight =>
              have hnesting : PowerOrder.fromRight.nesting = 1 := rfl
              exact ih .powerRight (fun _ => rfl) k (by simp only [height]; omega)
      | powerRight =>
          simp only [height] at hk
          rw [read_powerRight]
          have hbase := ih .primary nofun k (by simp only [height]; omega)
          refine (Reader.FitsIn.chain .factorials hbase).bind fun b => ?_
          refine exponent_fits (hoccurs rfl) (fun hone => ?_) b
          exact ih .powerRight hoccurs (k - 1) (by simp only [height]; omega)
      | primary =>
          simp only [height] at hk
          exact .ahead_bind (primaryAt_fits ih (by omega))
      | call name =>
          simp only [height] at hk
          rw [read_call]
          exact call_fits ih (by omega) name

end Level

/-- A whole expression is nested too deeply only with fewer frames than its tokens take. -/
theorem wholeExpression_fits [Elementary] (scope : Scope) {frames : Nat} {ts : List Token}
    (h : Level.expression.height order + Token.framesOf order ts ≤ frames) :
    ((wholeExpression scope order frames).start ts).result ≠ .error .tooDeep := by
  have hread := Level.read_fits scope order frames .expression nofun (Token.framesOf order ts)
    (by omega)
  refine (hread.bind fun x => Reader.FitsIn.ahead.bind fun t => ?_) ts (Nat.le_refl _)
  split
  · exact .pure _
  · exact .fail nofun

end Reckoner
