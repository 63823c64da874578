import Reckoner.Proofs.Descent.Limit
import Reckoner.Proofs.Descent.Whole

/-!
How far a level reads. In any tokens, from any cursor on, a level that has a value has taken the
longest phrase of its own, which is not empty; and it runs past the end only where no ending is ahead.
It always comes to an end: each token that is ahead makes up for the frames taken behind it.
-/

namespace Reckoner

variable {scope : Scope} {order : PowerOrder} {level : Level}

namespace Phrase

theorem invalid_not_mem {category : Category} (p : Phrase order category) :
    Token.invalid ∉ p.tokens := by
  induction p with
  | link op operand rest ihOperand ihRest => cases op <;> simp_all [tokens, Chain.Operator.token]
  | _ => simp_all [tokens, Chain.markToken]

theorem tokens_ne_nil {level : Level} : (p : Phrase order (.whole level)) → p.tokens ≠ []
  | .expression first _ | .factor first _ | .powerLeft _ first _ =>
    List.append_ne_nil_of_left_ne_nil first.tokens_ne_nil _
  | .powerRight _ tower => tower.tokens_ne_nil
  | .ground base _ | .raised base _ _ =>
    List.append_ne_nil_of_left_ne_nil base.tokens_ne_nil _
  | .negation _ | .number _ | .var _ | .const _ | .call _ _ | .group _ | .arguments _ _ _ =>
    List.cons_ne_nil _ _

/-- Where what is behind a phrase does not go on with it, no phrase of the level is longer. -/
theorem length_le_of_prefix {p p' : Phrase order (.whole level)} {rest : List Token}
    (hstop : StopsAt level.extensions rest) (h : p'.tokens <+: p.tokens ++ rest) :
    p'.tokens.length ≤ p.tokens.length := by
  obtain ⟨rest', h⟩ := h
  rcases List.append_eq_append_iff.1 h with ⟨w, hp, -⟩ | ⟨w, hp', hrest⟩
  · rw [hp]
    simp
  · -- with an ending behind, the tokens of the longer phrase are those of the shorter one
    have hstop' : StopsAt level.extensions (w ++ [.ending]) := by
      cases w with
      | nil => exact stopsAt_ending (.whole level) []
      | cons t w =>
          rw [hrest] at hstop
          exact hstop
    have htokens : p.tokens ++ (w ++ [.ending]) = p'.tokens ++ [.ending] := by
      rw [hp', List.append_assoc]
    obtain ⟨rfl, -⟩ := p.determined hstop' (stopsAt_ending (.whole level) []) htokens
    exact Nat.le_refl _

end Phrase

/-! ### Every level comes to an end -/

namespace Token

/-- No token takes more frames than an opening parenthesis does where powers are read from the
right. -/
theorem frames_le (order : PowerOrder) (t : Token) : t.frames order ≤ t.frames .fromRight := by
  cases order with
  | fromRight => exact Nat.le_refl _
  | fromLeft =>
      unfold frames
      split <;> simp [Level.height, PowerOrder.nesting]

theorem framesOf_le (order : PowerOrder) (ts : List Token) :
    framesOf order ts ≤ framesOf .fromRight ts := by
  induction ts with
  | nil => exact Nat.le_refl _
  | cons t ts ih => exact Nat.add_le_add (t.frames_le order) ih

theorem framesOf_fromRight_le (ts : List Token) : framesOf .fromRight ts ≤ 5 * ts.length := by
  induction ts with
  | nil => exact Nat.le_refl _
  | cons t ts ih =>
      have ht : t.frames .fromRight ≤ 5 := by
        unfold frames
        split <;> simp [Level.height, PowerOrder.nesting]
      rw [framesOf_cons, List.length_cons]
      omega

end Token

theorem Reader.FitsIn.fromRight {α : Type} {r : Reader α} {n : Nat} (h : r.FitsIn order n) :
    r.FitsIn .fromRight n :=
  fun ts hts => h ts (Nat.le_trans (Token.framesOf_le order ts) hts)

namespace Level

theorem height_le (order : PowerOrder) (level : Level) : level.height order ≤ 5 := by
  cases order <;> cases level <;> simp [height, PowerOrder.nesting]

/-- The level of powers from the right, on its own, also where powers in parentheses are read from the
left. -/
theorem powerRight_fits [Elementary] (scope : Scope) (order : PowerOrder) (frames k : Nat)
    (h : k + 2 ≤ frames) : (read scope order frames .powerRight).FitsIn .fromRight k := by
  induction frames generalizing k with
  | zero => omega
  | succ n ih =>
      rw [read_powerRight]
      have hbase : (read scope order n .primary).FitsIn order k :=
        read_fits scope order n .primary nofun k (by simp only [height]; omega)
      refine (Reader.FitsIn.chain .factorials hbase.fromRight).bind fun b => ?_
      exact exponent_fits rfl (fun hone => ih (k - 1) (by omega)) b

theorem read_fits_length [Elementary] (scope : Scope) (order : PowerOrder) (level : Level)
    {frames : Nat} {ts : List Token} (h : 5 * (1 + ts.length) ≤ frames) :
    (read scope order frames level).Fits ts := by
  have htokens := Token.framesOf_fromRight_le ts
  by_cases hlevel : level = .powerRight
  · subst hlevel
    exact powerRight_fits scope order frames _ (by omega) ts (Nat.le_refl _)
  · have hheight := level.height_le order
    have hread : (read scope order frames level).FitsIn order (5 * ts.length) :=
      read_fits scope order frames level (fun h => absurd h hlevel) _ (by omega)
    exact hread ts (Nat.le_trans (Token.framesOf_le order ts) htokens)

end Level

/-! ### What a level takes -/

/-- Reads from a cursor on; the cursor of the reading counts from the first token. -/
def Reader.startAt (r : Reader Float) (cursor : Nat) (tokens : List Token) : Reading :=
  let reading := r.start (tokens.drop cursor)
  { reading with cursor := cursor + reading.cursor }

/-- Between two cursors stands the longest phrase of a level, and it comes to a value. -/
structure LongestPhrase [Elementary] (scope : Scope) (order : PowerOrder) (level : Level)
    (tokens : List Token) (cursor stop : Nat) (x : Float) : Prop where
  cursor_lt : cursor < stop
  le_length : stop ≤ tokens.length
  phrase : ∃ p : Phrase order (.whole level),
    p.tokens = tokens.extract cursor stop ∧ p.outcome scope = .ok x
  longest : ∀ stop', stop < stop' → stop' ≤ tokens.length →
    ∀ p : Phrase order (.whole level), p.tokens ≠ tokens.extract cursor stop'
  ending_not_mem : .ending ∉ tokens.extract cursor stop
  invalid_not_mem : .invalid ∉ tokens.extract cursor stop

/-- A phrase at a cursor that nothing behind goes on with. -/
theorem Phrase.longestPhrase [Elementary] {p : Phrase order (.whole level)}
    {tokens rest : List Token} {cursor : Nat} {x : Float} (htokens : tokens.drop cursor = p.tokens ++ rest)
    (hp : p.outcome scope = .ok x) (hstop : StopsAt level.extensions rest) :
    LongestPhrase scope order level tokens cursor (cursor + p.tokens.length) x := by
  have hslice : tokens.extract cursor (cursor + p.tokens.length) = p.tokens := by
    rw [List.extract_eq_take_drop, Nat.add_sub_cancel_left, htokens, List.take_left]
  have hpos : 0 < p.tokens.length := List.length_pos_iff.2 p.tokens_ne_nil
  have hlength : tokens.length - cursor = p.tokens.length + rest.length := by
    rw [← List.length_drop, htokens, List.length_append]
  refine ⟨by omega, by omega, ⟨p, hslice.symm, hp⟩, ?_, ?_, ?_⟩
  · intro stop' hlonger hle p' hp'
    rw [List.extract_eq_take_drop, htokens] at hp'
    have hshort : p'.tokens.length ≤ p.tokens.length :=
      p.length_le_of_prefix hstop (hp' ▸ List.take_prefix _ _)
    rw [hp', List.length_take, List.length_append] at hshort
    omega
  · rw [hslice]
    exact p.ending_not_mem
  · rw [hslice]
    exact p.invalid_not_mem

/-- Past the end there is nothing left. -/
theorem Blame.eq_nil_of_pastEnd [Elementary] {u rest : List Token}
    (b : Blame scope order .pastEnd u rest) :
    rest = [] := by
  cases b with
  | pastEnd => rfl
  | cause c =>
      cases c with
      | call _ hcall =>
          have hfails := Builtin.callNamed_eq_error hcall
          simp at hfails

/-- Running past the end, a level has consumed all of the tokens, and none was an ending. -/
theorem Level.ending_not_mem_of_pastEnd [Elementary] {frames : Nat} {ts rest : List Token}
    (h : (level.read scope order frames).run ts = ⟨.error .pastEnd, rest⟩) : .ending ∉ ts := by
  obtain ⟨p, u, hu, rfl, hblame⟩ := Level.read_halts frames level h
  obtain rfl := hblame.eq_nil_of_pastEnd
  rw [List.append_nil]
  exact fun hmem => p.ending_not_mem (hu.subset hmem)

theorem Reader.startAt_eq {r : Reader Float} {tokens rest : List Token} {cursor : Nat}
    {result : Except Halt Float} (h : r.run (tokens.drop cursor) = ⟨result, rest⟩) :
    r.startAt cursor tokens =
      ⟨result, cursor + ((tokens.drop cursor).length - rest.length)⟩ := by
  simp [startAt, start, h]

/-- Each level comes to an end, goes forward and takes the longest phrase, in any tokens and from any
cursor on.
- Five frames for each token ahead, and five more, are never too few, and more make no difference.
- The cursor never goes backward, nor beyond the end of the tokens, and what stands from it on is left.
- With a value it has gone over at least one token and over the longest phrase of the level, which has
  that value and holds no ending and no invalid token.
- The level runs past the end only if no ending is ahead. -/
theorem Level.read_takes_longest_phrase [Elementary] (scope : Scope) (order : PowerOrder)
    (level : Level) (tokens : List Token) (cursor : Nat) :
    (∀ frames frames', 5 * (1 + (tokens.drop cursor).length) ≤ frames → frames ≤ frames' →
      ((level.read scope order frames).startAt cursor tokens).result ≠ .error .tooDeep ∧
      (level.read scope order frames').startAt cursor tokens =
        (level.read scope order frames).startAt cursor tokens) ∧
    ∀ frames,
      cursor ≤ ((level.read scope order frames).startAt cursor tokens).cursor ∧
      (cursor ≤ tokens.length →
        ((level.read scope order frames).startAt cursor tokens).cursor ≤ tokens.length) ∧
      ((level.read scope order frames).run (tokens.drop cursor)).rest =
        tokens.drop ((level.read scope order frames).startAt cursor tokens).cursor ∧
      (∀ x, ((level.read scope order frames).startAt cursor tokens).result = .ok x →
        LongestPhrase scope order level tokens cursor
          ((level.read scope order frames).startAt cursor tokens).cursor x) ∧
      (((level.read scope order frames).startAt cursor tokens).result = .error .pastEnd →
        .ending ∉ tokens.drop cursor) := by
  constructor
  · intro frames frames' hframes hmore
    have hfits := level.read_fits_length scope order hframes
    refine ⟨hfits, ?_⟩
    rcases level.start_eq_or_tooDeep scope hmore (tokens.drop cursor) with hdeep | hsame
    · exact absurd hdeep hfits
    · rw [Reader.startAt, Reader.startAt, hsame]
  · intro frames
    have hsuffix := (level.read scope order frames).suffix (tokens.drop cursor)
    cases hrun : (level.read scope order frames).run (tokens.drop cursor) with
    | mk result rest =>
      rw [hrun] at hsuffix
      rw [Reader.startAt_eq hrun]
      refine ⟨Nat.le_add_right _ _, fun hle => ?_, ?_, fun x hx => ?_, fun hend => ?_⟩
      · show cursor + ((tokens.drop cursor).length - rest.length) ≤ tokens.length
        rw [List.length_drop]
        omega
      · rw [← List.drop_drop]
        exact List.suffix_iff_eq_drop.1 hsuffix
      · obtain rfl : result = .ok x := hx
        obtain ⟨p, htokens, hp, hstop⟩ := Level.read_sound frames level hrun
        have hlength : (tokens.drop cursor).length - rest.length = p.tokens.length := by
          rw [htokens, List.length_append, Nat.add_sub_cancel]
        show LongestPhrase scope order level tokens cursor
          (cursor + ((tokens.drop cursor).length - rest.length)) x
        rw [hlength]
        exact p.longestPhrase htokens hp hstop
      · obtain rfl : result = .error .pastEnd := hend
        exact Level.ending_not_mem_of_pastEnd hrun

/-- Behind an ending a product is read up to the plus, which goes on with a sum but not with a
product. -/
theorem Level.read_takes_longest_phrase_product :
    LongestPhrase .builtin .fromLeft .factor
        [.ending, .op "-", .number 2, .op "*", .number 3, .op "+", .number 4, .op "?", .invalid]
        1 5 ((-2) * 3) ∧
      .ending ∉ [Token.ending, .number 2, .op "*"].drop 1 := by
  have hvalue : ((Level.factor.read .builtin .fromLeft 10).startAt 1
      [.ending, .op "-", .number 2, .op "*", .number 3, .op "+", .number 4, .op "?", .invalid]) =
        ⟨.ok ((-2) * 3), 5⟩ := by
    with_unfolding_all rfl
  have hend : ((Level.factor.read .builtin .fromLeft 10).startAt 1
      [.ending, .number 2, .op "*"]).result = .error .pastEnd := by
    with_unfolding_all rfl
  have htakes := ((Level.read_takes_longest_phrase .builtin .fromLeft .factor _ 1).2 10).2.2.2.1 _
    (congrArg Reading.result hvalue)
  have hnone := ((Level.read_takes_longest_phrase .builtin .fromLeft .factor _ 1).2 10).2.2.2.2 hend
  rw [hvalue] at htakes
  exact ⟨htakes, hnone⟩

end Reckoner
