import Reckoner.Proofs.Descent.Depth
import Reckoner.Proofs.Descent.Frames

/-!
The limit on frames. It cuts a reading off or leaves it as it is, and it can only be met by nesting:
the frames that suffice are counted by the tokens that nest.
-/

namespace Reckoner

variable {order : PowerOrder}

/-- Whether a token is the name of a function. -/
def Token.isFunction : Token → Bool
  | .func _ => true
  | _ => false

/-- The frames of a token, told by what it is. -/
theorem Token.frames_eq (order : PowerOrder) (t : Token) :
    t.frames order =
      Level.expression.height order * (if t == .op "(" then 1 else 0)
        + (if t.isFunction then 1 else 0) + (if t == .op "-" then 1 else 0)
        + order.nesting * (if t == .op "^" then 1 else 0) := by
  unfold Token.frames
  split
  · simp [Token.isFunction]
  · simp [Token.isFunction]
  · simp [Token.isFunction]
  · simp [Token.isFunction]
  · rename_i hopen hminus hfunc hpower
    have hfunction : t.isFunction = false := by
      cases t with
      | func name => exact absurd rfl (hfunc name)
      | _ => rfl
    rw [beq_eq_false_iff_ne.2 hopen, beq_eq_false_iff_ne.2 hminus, beq_eq_false_iff_ne.2 hpower,
      hfunction]
    simp

/-- All frames of the tokens, counted by what takes them. -/
theorem Token.framesOf_eq (order : PowerOrder) (ts : List Token) :
    Token.framesOf order ts =
      Level.expression.height order * ts.count (.op "(") + ts.countP Token.isFunction
        + ts.count (.op "-") + order.nesting * ts.count (.op "^") := by
  induction ts with
  | nil => rfl
  | cons t ts ih =>
      rw [Token.framesOf_cons, ih, Token.frames_eq, List.count_cons, List.count_cons,
        List.count_cons, List.countP_cons, Nat.mul_add, Nat.mul_add]
      omega

namespace Level

variable [Elementary] (scope : Scope)

/-- With fewer frames a level is found too deep, or is read as with more. -/
theorem start_eq_or_tooDeep (level : Level) {frames frames' : Nat} (h : frames ≤ frames')
    (ts : List Token) :
    ((level.read scope order frames).start ts).result = .error .tooDeep ∨
      (level.read scope order frames).start ts = (level.read scope order frames').start ts := by
  rcases Level.read_within h level ts with hdeep | hsame
  · exact .inl hdeep
  · rw [Reader.start, Reader.start, hsame]
    exact .inr rfl

/-- An expression is read with the frames of its height and those of the tokens. -/
theorem start_ne_tooDeep {frames : Nat} {ts : List Token}
    (h : Level.expression.height order + Token.framesOf order ts ≤ frames) :
    ((Level.expression.read scope order frames).start ts).result ≠ .error .tooDeep :=
  Level.read_fits scope order frames .expression nofun (Token.framesOf order ts) (by omega) ts
    (Nat.le_refl _)

end Level

/-- The limit on frames cuts off and alters nothing, and only nesting meets it.
- With fewer frames each level is found too deep, or is read with the same outcome and the same cursor.
- An expression is found too deep only if there are fewer frames than its parentheses, functions, signs
  and, from the right, powers account for.
- So chains of the other operators take four frames, however long they are. -/
theorem Level.limit_only_cuts_off [Elementary] (scope : Scope) (order : PowerOrder)
    (ts : List Token) :
    (∀ (level : Level) (frames frames' : Nat), frames ≤ frames' →
      ((level.read scope order frames).start ts).result = .error .tooDeep ∨
        (level.read scope order frames).start ts = (level.read scope order frames').start ts) ∧
    (∀ frames, ((Level.expression.read scope order frames).start ts).result = .error .tooDeep →
      frames < (4 + order.nesting) * (1 + ts.count (.op "(")) + ts.countP Token.isFunction
        + ts.count (.op "-") + order.nesting * ts.count (.op "^")) ∧
    (order = .fromLeft →
      (∀ t ∈ ts, t ≠ .op "(" ∧ t ≠ .op "-" ∧ t.isFunction = false) →
        ∀ frames, 4 ≤ frames →
          ((Level.expression.read scope order frames).start ts).result ≠ .error .tooDeep ∧
          (Level.expression.read scope order frames).start ts =
            (Level.expression.read scope order 4).start ts) := by
  have hheight : Level.expression.height order = 4 + order.nesting := rfl
  refine ⟨fun level frames frames' h => level.start_eq_or_tooDeep scope h ts, fun frames hdeep => ?_,
    fun horder hflat frames hframes => ?_⟩
  · refine Nat.lt_of_not_le fun hmany => Level.start_ne_tooDeep scope ?_ hdeep
    rw [Token.framesOf_eq, hheight]
    rw [Nat.mul_add, Nat.mul_one] at hmany
    omega
  · subst horder
    have hopen : ts.count (.op "(") = 0 := List.count_eq_zero.2 fun h => (hflat _ h).1 rfl
    have hminus : ts.count (.op "-") = 0 := List.count_eq_zero.2 fun h => (hflat _ h).2.1 rfl
    have hfunction : ts.countP Token.isFunction = 0 :=
      List.countP_eq_zero.2 fun t ht => by simp [(hflat t ht).2.2]
    have hnone : Token.framesOf .fromLeft ts = 0 := by
      rw [Token.framesOf_eq, hopen, hminus, hfunction]
      simp [PowerOrder.nesting]
    have hfits : ((Level.expression.read scope .fromLeft 4).start ts).result ≠ .error .tooDeep :=
      Level.start_ne_tooDeep scope (by rw [hnone]; decide)
    rcases Level.expression.start_eq_or_tooDeep scope hframes ts with hdeep | hsame
    · exact absurd hdeep hfits
    · rw [← hsame]
      exact ⟨hfits, rfl⟩

/-- The tokens of `-(2)` take nine frames, and eight are too few; those of `2 ^ 3 !` take four. -/
theorem Level.limit_only_cuts_off_sign :
    ((Level.expression.read .builtin .fromLeft 8).start
        [.op "-", .op "(", .number 2, .op ")", .ending]).result = .error .tooDeep ∧
      8 < (4 + PowerOrder.fromLeft.nesting) *
            (1 + [Token.op "-", .op "(", .number 2, .op ")", .ending].count (.op "(")) +
          [Token.op "-", .op "(", .number 2, .op ")", .ending].countP Token.isFunction +
          [Token.op "-", .op "(", .number 2, .op ")", .ending].count (.op "-") +
        PowerOrder.fromLeft.nesting *
          [Token.op "-", .op "(", .number 2, .op ")", .ending].count (.op "^") ∧
      (Level.expression.read .builtin .fromLeft 9).start
          [.op "-", .op "(", .number 2, .op ")", .ending] =
        (Level.expression.read .builtin .fromLeft 1000).start
          [.op "-", .op "(", .number 2, .op ")", .ending] ∧
      (Level.expression.read .builtin .fromLeft 5).start
          [.number 2, .op "^", .number 3, .op "!", .ending] =
        (Level.expression.read .builtin .fromLeft 4).start
          [.number 2, .op "^", .number 3, .op "!", .ending] := by
  have hdeep : ((Level.expression.read .builtin .fromLeft 8).start
      [.op "-", .op "(", .number 2, .op ")", .ending]).result = .error .tooDeep := by
    with_unfolding_all rfl
  obtain ⟨hcut, hbound, -⟩ := Level.limit_only_cuts_off .builtin .fromLeft
    [.op "-", .op "(", .number 2, .op ")", .ending]
  have hfits : ((Level.expression.read .builtin .fromLeft 9).start
      [.op "-", .op "(", .number 2, .op ")", .ending]).result ≠ .error .tooDeep := by
    intro hnine
    have hfew := hbound 9 hnine
    revert hfew
    decide +kernel
  have hflat : ∀ t ∈ [Token.number 2, .op "^", .number 3, .op "!", .ending],
      t ≠ .op "(" ∧ t ≠ .op "-" ∧ t.isFunction = false := by
    simp [Token.isFunction]
  refine ⟨hdeep, hbound 8 hdeep, (hcut .expression 9 1000 (by decide)).resolve_left hfits, ?_⟩
  exact ((Level.limit_only_cuts_off .builtin .fromLeft _).2.2 rfl hflat 5 (by decide)).2

end Reckoner
