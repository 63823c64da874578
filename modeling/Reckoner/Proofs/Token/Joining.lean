import Reckoner.Proofs.Token.Mention

/-!
Texts joined by blanks. Scanning comes to the blanks with nothing begun, since no lexeme goes on with
a blank, and then does with the second text what it does with that text alone, further on.
-/

namespace Reckoner

/-- The fault with the position that it tells, if it tells one, moved on. -/
def Fault.moved (n : Nat) : Fault → Fault
  | .unexpectedCharacter c position => .unexpectedCharacter c (position + n)
  | .malformedNumber text position => .malformedNumber text (position + n)
  | fault => fault

section Run

variable {part : Char → Bool} {ds : List Char}

theorem head?_dropWhile_append (hstop : ∀ c, ds.head? = some c → part c = false)
    (cs : List Char) : ∀ c, (cs.dropWhile part ++ ds).head? = some c → part c = false := by
  cases hcs : cs.dropWhile part with
  | nil => exact hstop
  | cons d rest =>
    intro c hc
    exact head?_dropWhile_run part cs c (by rw [hcs]; exact hc)

/-- A run ends where the second text begins, if that does not go on with it. -/
theorem takeWhile_append_stop (hstop : ∀ c, ds.head? = some c → part c = false)
    (cs : List Char) : (cs ++ ds).takeWhile part = cs.takeWhile part := by
  have htaken : ∀ c ∈ cs.takeWhile part, part c := fun _ hc => List.mem_takeWhile_imp hc
  have hrun := takeWhile_run htaken (head?_dropWhile_append hstop cs)
  rwa [← List.append_assoc, List.takeWhile_append_dropWhile] at hrun

theorem dropWhile_append_stop (hstop : ∀ c, ds.head? = some c → part c = false)
    (cs : List Char) : (cs ++ ds).dropWhile part = cs.dropWhile part ++ ds := by
  have htaken : ∀ c ∈ cs.takeWhile part, part c := fun _ hc => List.mem_takeWhile_imp hc
  have hrun := dropWhile_run htaken (head?_dropWhile_append hstop cs)
  rwa [← List.append_assoc, List.takeWhile_append_dropWhile] at hrun

end Run

namespace Token

variable {scope : Scope}

/-! ### Further on in a text -/

theorem ofNumeral_moved (text : String) (position n : Nat) :
    ofNumeral text (position + n) = (ofNumeral text position).mapError (Fault.moved n) := by
  unfold ofNumeral
  cases Numeral.real? text <;> rfl

theorem ofName_moved (name : String) (n : Nat) :
    ofName scope name = (ofName scope name).mapError (Fault.moved n) := by
  unfold ofName
  split <;> rfl

theorem bind_moved {α β : Type} (n : Nat) (x : Except Fault α) (f : α → Except Fault β) :
    (x >>= f).mapError (Fault.moved n) =
      x.mapError (Fault.moved n) >>= fun a => (f a).mapError (Fault.moved n) := by
  cases x <;> rfl

theorem cons_moved (n : Nat) (t : Token) (tail : Except Fault (List Token)) :
    (tail >>= fun ts => pure (t :: ts)).mapError (Fault.moved n) =
      tail.mapError (Fault.moved n) >>= fun ts => pure (t :: ts) :=
  bind_moved n tail _

/-- Where a text begins is told by the positions of its faults, and by nothing else. -/
theorem scanFrom_moved (n position : Nat) (cs : List Char) :
    scanFrom scope (position + n) cs =
      (scanFrom scope position cs).mapError (Fault.moved n) := by
  fun_induction scanFrom scope position cs with
  | case1 => exact scanFrom_nil
  | case2 position c cs hc run ih =>
      conv_lhs => rw [scanFrom, if_pos hc]
      rw [bind_moved, ← ofNumeral_moved]
      refine bind_congr fun token => ?_
      rw [cons_moved, ← ih, Nat.add_right_comm]
  | case3 position c cs hnumber hc run ih =>
      conv_lhs => rw [scanFrom, if_neg hnumber, if_pos hc]
      rw [bind_moved, ← ofName_moved]
      refine bind_congr fun token => ?_
      rw [cons_moved, ← ih, Nat.add_right_comm]
  | case4 position c cs hnumber hname hc ih =>
      conv_lhs => rw [scanFrom, if_neg hnumber, if_neg hname, if_pos hc]
      rw [cons_moved, ← ih, Nat.add_right_comm]
  | case5 position cs hnumber hname hoperator ih =>
      conv_lhs => rw [scanFrom, if_neg hnumber, if_neg hname, if_neg hoperator, if_pos rfl]
      rw [cons_moved, ← ih, Nat.add_right_comm]
  | case6 position c cs hnumber hname hoperator hcomma hblank ih =>
      rw [scanFrom_blank hblank, ← ih, Nat.add_right_comm]
  | case7 position c cs hnumber hname hoperator hcomma hblank =>
      conv_lhs => rw [scanFrom, if_neg hnumber, if_neg hname, if_neg hoperator, if_neg hcomma,
        if_neg hblank]
      rfl

theorem scanFrom_blanks {ws : List Char} (h : ∀ c ∈ ws, Text.isBlank c) (position : Nat)
    (cs : List Char) :
    scanFrom scope position (ws ++ cs) = scanFrom scope (position + ws.length) cs := by
  induction ws generalizing position with
  | nil => rfl
  | cons w ws ih =>
      obtain ⟨hw, hws⟩ := List.forall_mem_cons.1 h
      rw [List.cons_append, scanFrom_blank hw, ih hws, List.length_cons, Nat.add_assoc,
        Nat.add_comm 1]

/-! ### A text in two parts -/

/-- The tokens of a text, with those of what stands behind it in place of its ending. -/
def joined (back : Except Fault (List Token)) (ts : List Token) : Except Fault (List Token) :=
  back >>= fun us => .ok (ts.dropLast ++ us)

theorem joined_cons (back : Except Fault (List Token)) (t : Token) {ts : List Token}
    (h : ts ≠ []) : joined back (t :: ts) = joined back ts >>= fun us => .ok (t :: us) := by
  unfold joined
  rw [List.dropLast_cons_of_ne_nil h]
  cases back <;> rfl

/-- A token in front, and the tokens of the rest in two parts. -/
theorem cons_joined {position : Nat} {cs : List Char} (back : Except Fault (List Token))
    (t : Token) :
    (scanFrom scope position cs >>= joined back >>= fun us => .ok (t :: us)) =
      (scanFrom scope position cs >>= fun ts => .ok (t :: ts)) >>= joined back := by
  rw [bind_assoc, bind_assoc]
  refine Except.bind_congr_of_ok fun ts hts => ?_
  obtain ⟨us, rfl, -⟩ := (spelt_of_scanFrom hts).proper
  exact (joined_cons back t (by simp)).symm

/-- A text is scanned to its end before what a blank parts from it. -/
theorem scanFrom_append {ds : List Char} (hblank : ∀ c, ds.head? = some c → Text.isBlank c)
    (position : Nat) (cs : List Char) :
    scanFrom scope position (cs ++ ds) =
      scanFrom scope position cs >>= joined (scanFrom scope (position + cs.length) ds) := by
  have hnumber : ∀ c, ds.head? = some c → isNumberPart c = false :=
    fun c hc => (isBlank_disjoint (hblank c hc)).1
  have hname : ∀ c, ds.head? = some c → Text.isNamePart c = false :=
    fun c hc => isNamePart_of_isBlank (hblank c hc)
  have hlength (part : Char → Bool) (position : Nat) (c : Char) (cs : List Char) :
      position + (c :: cs.takeWhile part).length + (cs.dropWhile part).length =
        position + (c :: cs).length := by
    have hsum := congrArg List.length (List.takeWhile_append_dropWhile (p := part) (l := cs))
    rw [List.length_append] at hsum
    rw [List.length_cons, List.length_cons]
    omega
  fun_induction scanFrom scope position cs with
  | case1 position =>
      rw [List.nil_append, List.length_nil, Nat.add_zero]
      cases scanFrom scope position ds <;> rfl
  | case2 position c cs hc run ih =>
      rw [List.cons_append, scanFrom, if_pos hc, takeWhile_append_stop hnumber,
        dropWhile_append_stop hnumber, bind_assoc]
      refine bind_congr fun token => ?_
      rw [ih, hlength]
      exact cons_joined _ token
  | case3 position c cs hnot hc run ih =>
      rw [List.cons_append, scanFrom, if_neg hnot, if_pos hc, takeWhile_append_stop hname,
        dropWhile_append_stop hname, bind_assoc]
      refine bind_congr fun token => ?_
      rw [ih, hlength]
      exact cons_joined _ token
  | case4 position c cs hnot hnot' hc ih =>
      rw [List.cons_append, scanFrom, if_neg hnot, if_neg hnot', if_pos hc, ih, Nat.add_assoc,
        Nat.add_comm 1]
      exact cons_joined _ _
  | case5 position cs hnot hnot' hnot'' ih =>
      rw [List.cons_append, scanFrom, if_neg hnot, if_neg hnot', if_neg hnot'', if_pos rfl, ih,
        Nat.add_assoc, Nat.add_comm 1]
      exact cons_joined _ _
  | case6 position c cs _ _ _ _ hc ih =>
      rw [List.cons_append, scanFrom_blank hc, ih, Nat.add_assoc, Nat.add_comm 1]
      rfl
  | case7 position c cs hnot hnot' hnot'' hcomma hc =>
      rw [List.cons_append, scanFrom, if_neg hnot, if_neg hnot', if_neg hnot'', if_neg hcomma,
        if_neg hc]
      rfl

theorem scan_eq_scanFrom {limit : Int} {text : String} (h : (text.length : Int) ≤ limit) :
    scan scope limit text = scanFrom scope 0 text.toList :=
  if_neg (by omega)

/-- Two texts joined by blanks are scanned one after the other. The result is the fault of the first
text, if it has one; else the fault of the second, told at its place in the joined text; else the
tokens of the first text without their ending, and those of the second. -/
theorem scan_append_blanks {limit : Int} {text blanks text' : String} (hne : blanks ≠ "")
    (hblanks : ∀ c ∈ blanks.toList, Text.isBlank c)
    (hlimit : ((text ++ blanks ++ text').length : Int) ≤ limit) :
    (∀ fault, scan scope limit text = .error fault →
      scan scope limit (text ++ blanks ++ text') = .error fault) ∧
    ∀ ts, scan scope limit text = .ok ts →
      (∀ fault, scan scope limit text' = .error fault →
        scan scope limit (text ++ blanks ++ text') =
          .error (fault.moved (text.length + blanks.length))) ∧
      ∀ us, scan scope limit text' = .ok us →
        scan scope limit (text ++ blanks ++ text') = .ok (ts.dropLast ++ us) := by
  have hhead : ∀ c, (blanks.toList ++ text'.toList).head? = some c → Text.isBlank c := by
    intro c hc
    cases hcs : blanks.toList with
    | nil => exact absurd (String.toList_eq_nil_iff.1 hcs) hne
    | cons d rest =>
      obtain rfl : d = c := by simpa [hcs] using hc
      exact hblanks d (by simp [hcs])
  have hlengths : text.length + blanks.length + text'.length =
      (text ++ blanks ++ text').length := by
    simp only [String.length_append]
  -- the second text alone, moved to where it begins in the joined text
  have hback : scanFrom scope (0 + text.toList.length) (blanks.toList ++ text'.toList) =
      (scan scope limit text').mapError (Fault.moved (text.length + blanks.length)) := by
    rw [scanFrom_blanks hblanks, scan_eq_scanFrom (by omega), Nat.add_assoc, scanFrom_moved]
    simp only [String.length_toList]
  have hjoined : scan scope limit (text ++ blanks ++ text') =
      scan scope limit text >>= joined
        ((scan scope limit text').mapError (Fault.moved (text.length + blanks.length))) := by
    have hfirst : (text.length : Int) ≤ limit := by omega
    rw [scan_eq_scanFrom hlimit, scan_eq_scanFrom hfirst, ← hback, ← scanFrom_append hhead]
    simp only [String.toList_append, List.append_assoc]
  refine ⟨fun fault hfault => ?_, fun ts hts => ⟨fun fault hfault => ?_, fun us hus => ?_⟩⟩
  · rw [hjoined, hfault]
    rfl
  · rw [hjoined, hts, hfault]
    rfl
  · rw [hjoined, hts, hus]
    rfl

/-- The number with two points stands at the seventh character behind the first. -/
theorem scan_append_blanks_two_points :
    (" \n" ≠ "" ∧ (∀ c ∈ " \n".toList, Text.isBlank c) ∧
      (("2 + e" ++ " \n" ++ "1..2").length : Int) ≤ 100 ∧
      scan Scope.builtin 100 "2 + e" = .ok [.number 2, .op "+", .const "e", .ending] ∧
      scan Scope.builtin 100 "1..2" = .error (.malformedNumber "1..2" 0)) ∧
    scan Scope.builtin 100 ("2 + e" ++ " \n" ++ "1..2") = .error (.malformedNumber "1..2" 7) := by
  have hblanks : ∀ c ∈ " \n".toList, Text.isBlank c := by
    have htext : " \n".toList = [' ', '\n'] := rfl
    simp [htext, Text.isBlank]
  have hlimit : (("2 + e" ++ " \n" ++ "1..2").length : Int) ≤ 100 := by decide
  have hfirst : scan Scope.builtin 100 "2 + e" =
      .ok [.number 2, .op "+", .const "e", .ending] := by
    decide +kernel
  have hsecond : scan Scope.builtin 100 "1..2" = .error (.malformedNumber "1..2" 0) := by
    decide +kernel
  exact ⟨⟨by decide, hblanks, hlimit, hfirst, hsecond⟩,
    ((scan_append_blanks (by decide) hblanks hlimit).2 _ hfirst).1 _ hsecond⟩

end Token
end Reckoner
