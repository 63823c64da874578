import Mathlib.Data.List.Basic
import Reckoner.Proofs.Descent.Completeness
import Reckoner.Proofs.Descent.Frames
import Reckoner.Proofs.Descent.Halting
import Reckoner.Proofs.Grammar.Unambiguous

/-!
Whole expressions. The one pass that reads and evaluates does what a parser and an evaluator of
trees would do one after the other.
-/

namespace Reckoner

variable {scope : Scope} {order : PowerOrder}

namespace Phrase

theorem ending_not_mem {category : Category} (p : Phrase order category) :
    Token.ending ∉ p.tokens := by
  induction p with
  | link op operand rest ihOperand ihRest => cases op <;> simp_all [tokens, Chain.Operator.token]
  | _ => simp_all [tokens, Chain.markToken]

end Phrase

/-- What is left of a sentence without its ending, where the ending has not been consumed. -/
theorem exists_rest_of_ending {body u rest : List Token} (h : body ++ [.ending] = u ++ rest)
    (hu : .ending ∉ u) : ∃ v, body = u ++ v ∧ rest = v ++ [.ending] := by
  rcases List.append_eq_append_iff.1 h with ⟨c, rfl, hc⟩ | ⟨c, rfl, rfl⟩
  · cases c with
    | nil => exact ⟨[], by simp, hc.symm⟩
    | cons t c =>
        obtain rfl : .ending = t := (List.cons.inj hc).1
        simp at hu
  · exact ⟨c, rfl, rfl⟩

theorem resolves_append_ending {body : List Token} (hresolves : ∀ t ∈ body, scope.Resolves t) :
    ∀ t ∈ body ++ [.ending], scope.Resolves t := by
  intro t ht
  rcases List.mem_append.1 ht with ht | ht
  · exact hresolves t ht
  · obtain rfl := List.mem_singleton.1 ht
    trivial

/-- What a reader has found in tokens of which it leaves some. -/
theorem Reader.start_eq {r : Reader Float} {u rest : List Token} {result : Except Halt Float}
    (h : r.run (u ++ rest) = ⟨result, rest⟩) : r.start (u ++ rest) = ⟨result, u.length⟩ := by
  simp [start, h]

section Elementary

variable [Elementary]

/-- On a sentence the reader has the outcome of the tree, and a value leaves the ending. -/
theorem wholeExpression_gives (scope : Scope) (tree : Phrase order (.whole .expression))
    {frames : Nat} (h : tree.frames ≤ frames) (ts : List Token) :
    ((wholeExpression scope order frames).run (tree.tokens ++ .ending :: ts)).Gives
      (tree.outcome scope) (.ending :: ts) := by
  have hstop : StopsAt Level.expression.extensions (.ending :: ts) := by
    simp [StopsAt, Level.extensions, Chain.extensions]
  rw [← bind_pure (tree.outcome scope)]
  refine Reader.gives_bind (tree.followed frames _ h hstop) fun x => ?_
  exact Reader.gives_pure x (.ending :: ts)

/-- A value is the outcome of a tree, and comes before an ending. -/
theorem wholeExpression_sound {frames : Nat} {ts rest : List Token} {x : Float}
    (hrun : (wholeExpression scope order frames).run ts = ⟨.ok x, rest⟩) :
    ∃ (tree : Phrase order (.whole .expression)) (behind : List Token),
      ts = tree.tokens ++ rest ∧ rest = .ending :: behind ∧ tree.outcome scope = .ok x := by
  obtain ⟨y, mid, hread, hend⟩ := Reader.run_bind_eq_ok hrun
  obtain ⟨tree, rfl, hy, -⟩ := Level.read_sound frames .expression hread
  cases mid with
  | nil => simp [Reader.resume] at hend
  | cons t behind =>
    cases t with
    | ending =>
        obtain ⟨rfl, rfl⟩ : y = x ∧ .ending :: behind = rest := by
          simpa [Reader.resume] using hend
        exact ⟨tree, behind, rfl, rfl, hy⟩
    | _ => simp [Reader.resume] at hend

/-- With any number of frames a sentence is nested too deeply, or has the outcome of the tree. -/
theorem wholeExpression_tooDeep_or_outcome (scope : Scope)
    (tree : Phrase order (.whole .expression)) (frames : Nat) (ts : List Token) :
    ((wholeExpression scope order frames).run (tree.tokens ++ .ending :: ts)).result =
        .error .tooDeep ∨
      ((wholeExpression scope order frames).run (tree.tokens ++ .ending :: ts)).result =
        tree.outcome scope := by
  rcases wholeExpression_within scope order (Nat.le_max_left frames tree.frames)
    (tree.tokens ++ .ending :: ts) with hdeep | heq
  · exact .inl hdeep
  · right
    rw [heq]
    exact (wholeExpression_gives scope tree (Nat.le_max_right frames tree.frames) ts).result_eq

/-- The tree of an expression that has a value, up to its first ending. -/
theorem exists_tree_of_result {frames : Nat} {ts : List Token} {x : Float}
    (h : ((wholeExpression scope order frames).start ts).result = .ok x) :
    ∃ (tree : Phrase order (.whole .expression)) (behind : List Token),
      ts = tree.tokens ++ .ending :: behind ∧ tree.outcome scope = .ok x := by
  cases hrun : (wholeExpression scope order frames).run ts with
  | mk result rest =>
    obtain rfl : result = .ok x := by simpa [Reader.start, hrun] using h
    obtain ⟨tree, behind, hts, rfl, houtcome⟩ := wholeExpression_sound hrun
    exact ⟨tree, behind, hts, houtcome⟩

/-- What has been consumed where the reader halts is the front of a sentence. -/
theorem wholeExpression_halts {frames : Nat} {ts rest : List Token} {h : Halt}
    (hrun : (wholeExpression scope order frames).run ts = ⟨.error h, rest⟩) :
    ∃ (tree : Phrase order (.whole .expression)) (u : List Token),
      u <+: tree.tokens ∧ ts = u ++ rest ∧ Blame scope order h u rest := by
  rcases Reader.run_bind_eq_error hrun with hread | ⟨x, mid, hread, hend⟩
  · obtain ⟨tree, u, hu, hts, hblame⟩ := Level.read_halts frames .expression hread
    exact ⟨tree, u, hu, hts, hblame⟩
  · obtain ⟨tree, rfl, -, -⟩ := Level.read_sound frames .expression hread
    refine ⟨tree, tree.tokens, List.prefix_rfl, ?_⟩
    -- the expression has been read, and what is ahead of it is no ending
    cases mid with
    | nil =>
        obtain ⟨rfl, rfl⟩ : Halt.pastEnd = h ∧ [] = rest := by simpa [Reader.resume] using hend
        exact ⟨rfl, .pastEnd _⟩
    | cons t behind =>
      cases t with
      | ending => simp [Reader.resume] at hend
      | _ =>
        obtain ⟨rfl, rfl⟩ : Halt.fault (.trailingToken _) = h ∧ _ :: behind = rest := by
          simpa [Reader.resume] using hend
        exact ⟨rfl, .grammar rfl _ _ _⟩

/-- Where a whole expression with one ending halts, and for which cause. -/
theorem wholeExpression_exists_blame {body : List Token} {frames : Nat} {h : Halt}
    (hresult : ((wholeExpression scope order frames).start (body ++ [.ending])).result = .error h) :
    ∃ u v, body = u ++ v ∧
      ((wholeExpression scope order frames).start (body ++ [.ending])).cursor = u.length ∧
      Blame scope order h u (v ++ [.ending]) := by
  cases hrun : (wholeExpression scope order frames).run (body ++ [.ending]) with
  | mk result rest =>
    obtain rfl : result = .error h := by simpa [Reader.start, hrun] using hresult
    obtain ⟨tree, u, hu, hts, hblame⟩ := wholeExpression_halts hrun
    obtain ⟨v, hbody, rfl⟩ :=
      exists_rest_of_ending hts fun hmem => tree.ending_not_mem (hu.subset hmem)
    refine ⟨u, v, hbody, ?_, hblame⟩
    rw [hts] at hrun ⊢
    rw [Reader.start_eq hrun]

/-- A sentence that halts, and not for want of frames, halts right behind a call that fails on the
values of its arguments. -/
theorem wholeExpression_halts_at_call {tree : Phrase order (.whole .expression)}
    (hresolves : ∀ t ∈ tree.tokens, scope.Resolves t) {frames : Nat}
    (hframes : tree.frames ≤ frames) {h : Halt} (herror : tree.outcome scope = .error h) :
    ∃ (u v : List Token) (name : String) (args : Phrase order (.whole (.call name)))
      (xs : List Float), tree.tokens = u ++ .func name :: args.tokens ++ v ∧
        ((wholeExpression scope order frames).start (tree.tokens ++ [.ending])).cursor =
          (u ++ .func name :: args.tokens).length ∧
        args.values scope = .ok xs ∧ Builtin.callNamed name xs = .error h := by
  have hresult :
      ((wholeExpression scope order frames).start (tree.tokens ++ [.ending])).result = .error h :=
    (wholeExpression_gives scope tree hframes []).result_eq.trans herror
  obtain ⟨u, v, hbody, hcursor, hblame⟩ := wholeExpression_exists_blame hresult
  have hknown : ∀ t ∈ u ++ (v ++ [.ending]), scope.Resolves t := by
    rw [← List.append_assoc, ← hbody]
    exact resolves_append_ending hresolves
  -- by the tree the cause is a call, so the reader has not halted for a cause of its own
  obtain ⟨_, _, htree, hcause⟩ := tree.explained herror
  obtain ⟨_, _, _, _, -, -, hcall⟩ := hcause.exists_call (by rw [← htree]; exact hresolves)
  obtain ⟨front, name, args, xs, rfl, hvalues, hfails⟩ := hblame.exists_call hknown hcall
  exact ⟨front, v, name, args, xs, hbody, hcursor, hvalues, hfails⟩

/-- The one pass over tokens with one ending and with names that are known is the evaluation of the
tree they have in the grammar. A value is that of their only tree; and if they have a tree, then the
pass ends as its evaluation does, as long as there are frames for it, where a failure is that of a
call on the values of its arguments, and is met right behind it. -/
theorem wholeExpression_refines_tree {body : List Token} (hending : .ending ∉ body)
    (hresolves : ∀ t ∈ body, scope.Resolves t) :
    (∀ frames x,
      ((wholeExpression scope order frames).start (body ++ [.ending])).result = .ok x →
        ∃ tree : Phrase order (.whole .expression),
          (tree.tokens = body ∧ ∀ other : Phrase order (.whole .expression),
            other.tokens = body → other = tree) ∧
          tree.outcome scope = .ok x) ∧
    ∀ tree : Phrase order (.whole .expression), tree.tokens = body → ∀ frames,
      (((wholeExpression scope order frames).start (body ++ [.ending])).result =
          .error .tooDeep ∨
        ((wholeExpression scope order frames).start (body ++ [.ending])).result =
          tree.outcome scope) ∧
      (tree.frames ≤ frames →
        ((wholeExpression scope order frames).start (body ++ [.ending])).result =
          tree.outcome scope ∧
        ∀ h, tree.outcome scope = .error h →
          ∃ (u v : List Token) (name : String) (args : Phrase order (.whole (.call name)))
            (xs : List Float), body = u ++ .func name :: args.tokens ++ v ∧
              ((wholeExpression scope order frames).start (body ++ [.ending])).cursor =
                (u ++ .func name :: args.tokens).length ∧
              args.values scope = .ok xs ∧ Builtin.callNamed name xs = .error h) := by
  refine ⟨fun frames x hx => ?_, ?_⟩
  · cases hrun : (wholeExpression scope order frames).run (body ++ [.ending]) with
    | mk result rest =>
      obtain rfl : result = .ok x := by simpa [Reader.start, hrun] using hx
      obtain ⟨tree, behind, hts, rfl, houtcome⟩ := wholeExpression_sound hrun
      obtain ⟨rfl, -, -⟩ := (List.append_cons_inj_of_notMem hending List.not_mem_nil).1 hts
      exact ⟨tree, ⟨rfl, fun other hother => Phrase.tokens_injective hother⟩, houtcome⟩
  · rintro tree rfl frames
    have hdone {frames : Nat} (hframes : tree.frames ≤ frames) :=
      (wholeExpression_gives scope tree hframes []).result_eq
    refine ⟨?_, fun hframes => ⟨hdone hframes, fun h herror => ?_⟩⟩
    · rcases wholeExpression_within scope order (Nat.le_max_left frames tree.frames) _ with
        hdeep | heq
      · exact .inl hdeep
      · right
        rw [Reader.start, heq]
        exact hdone (Nat.le_max_right frames tree.frames)
    · exact wholeExpression_halts_at_call hresolves hframes herror

end Elementary

/-- The minus belongs to the operand of the factorial. -/
theorem wholeExpression_refines_tree_negation :
    (.ending ∉ [Token.op "-", .number 3, .op "!"] ∧
      ∀ t ∈ [Token.op "-", .number 3, .op "!"], Scope.builtin.Resolves t) ∧
    ∃ tree : Phrase .fromRight (.whole .expression),
      tree = .expression (.factor (.powerRight rfl (.ground (.negation (.number 3))
        (.mark .factorialAlone (.done _)))) (.done _)) (.done _) ∧
      ((wholeExpression Scope.builtin .fromRight 10).start
        [.op "-", .number 3, .op "!", .ending]).result = tree.outcome Scope.builtin := by
  have hending : .ending ∉ [Token.op "-", .number 3, .op "!"] := by simp
  have hresolves : ∀ t ∈ [Token.op "-", .number 3, .op "!"], Scope.builtin.Resolves t := by
    simp [Scope.Resolves]
  have htree :=
    (@wholeExpression_refines_tree Scope.builtin .fromRight _ _ hending hresolves).2
  exact ⟨⟨hending, hresolves⟩, _, rfl, ((htree _ rfl 10).2 (by decide)).1⟩

end Reckoner
