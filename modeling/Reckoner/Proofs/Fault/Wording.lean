import Reckoner.Proofs.Call
import Reckoner.Proofs.Decimal.Plain
import Reckoner.Proofs.Descent.Levels
import Reckoner.Proofs.Evaluation

/-!
Faults are worded on one line. A fault of a text quotes what it has of the text, or names an identifier;
one of its tokens describes a token, and all that a scanned token holds is a number, an identifier or
one of the operators.
-/

namespace Reckoner

open Text (OneLine Plain isPlain)

variable {scope : Scope} {order : PowerOrder}

/-! ### Wordings -/

namespace Wording

variable {char text name position arity supplied length limit : String}

theorem oneLine_character (hc : OneLine char) (hp : OneLine position) :
    OneLine (character char position) := by
  unfold character
  simp only [Text.oneLine_append]
  exact ⟨⟨⟨by decide, hc⟩, by decide⟩, hp⟩

theorem oneLine_numeral (ht : OneLine text) (hp : OneLine position) :
    OneLine (numeral text position) := by
  unfold numeral
  simp only [Text.oneLine_append]
  exact ⟨⟨⟨by decide, ht⟩, by decide⟩, hp⟩

theorem oneLine_identifier (h : OneLine name) : OneLine (identifier name) :=
  Text.oneLine_append.2 ⟨by decide, h⟩

theorem oneLine_variableName (h : OneLine name) : OneLine (variableName name) := by
  unfold variableName
  simp only [Text.oneLine_append]
  exact ⟨⟨by decide, h⟩, by decide⟩

theorem oneLine_arguments (hn : OneLine name) (ha : OneLine arity) (hs : OneLine supplied) :
    OneLine (arguments name arity supplied) := by
  unfold arguments
  simp only [Text.oneLine_append]
  exact ⟨⟨⟨⟨⟨by decide, hn⟩, by decide⟩, ha⟩, by decide⟩, hs⟩

theorem oneLine_length (hl : OneLine length) (hm : OneLine limit) :
    OneLine (Wording.length length limit) := by
  unfold Wording.length
  simp only [Text.oneLine_append]
  exact ⟨⟨⟨⟨by decide, hl⟩, by decide⟩, hm⟩, by decide⟩

end Wording

theorem Restricted.oneLine_outsideDomain (g : Restricted) :
    OneLine (Fault.outsideDomain g).message := by
  cases g <;> decide

namespace Token

/-! ### Tokens -/

theorem plain_kind (t : Token) : Plain t.kind := by
  cases t <;> simp only [kind] <;> decide

theorem isPlain_of_isOperator {c : Char} (h : isOperator c) : isPlain c := by
  rw [isOperator_iff] at h
  simp only [List.mem_cons, List.not_mem_nil, or_false] at h
  rw [Text.isPlain_iff]
  omega

/-- Whatever stands for a lexeme is described in printable ASCII. -/
theorem plain_describe_of_token? {l : Lexeme} {t : Token} (hl : l.WellFormed)
    (h : l.token? scope = some t) : Plain t.describe := by
  have hdescribe {payload : String} (hpayload : Plain payload) (t : Token) :
      Plain ("Token(" ++ t.kind ++ payload ++ ")") := by
    simp only [Text.plain_append]
    exact ⟨⟨⟨by decide, t.plain_kind⟩, hpayload⟩, by decide⟩
  have hlabelled {label content : String} (hlabel : Plain label) (hcontent : Plain content) :
      Plain (label ++ content) := Text.plain_append.2 ⟨hlabel, hcontent⟩
  cases l with
  | number run =>
    obtain rfl := Option.some.inj h
    exact hdescribe (hlabelled (by decide) (Decimal.plain_shortestText _)) _
  | operator c =>
    obtain rfl := Option.some.inj h
    refine hdescribe (hlabelled (by decide) ?_) _
    rw [String.singleton_eq_ofList, Text.plain_ofList]
    simpa using isPlain_of_isOperator hl
  | comma =>
    obtain rfl := Option.some.inj h
    decide
  | name run =>
    have hname : Plain (String.ofList run) := Text.plain_ofList.2 (Text.isPlain_of_isName hl)
    have hpayload := hlabelled (by decide : Plain ", name: ") hname
    rcases Lexeme.named?_cases h with ⟨rfl, -⟩ | ⟨rfl, -⟩ | ⟨rfl, -⟩
    · exact hdescribe hpayload _
    · exact hdescribe hpayload _
    · exact hdescribe hpayload _

end Token

theorem Token.plain_describe_of_scan {limit : Int} {text : String} {tokens : List Token}
    (h : Token.scan scope limit text = .ok tokens) : ∀ t ∈ tokens, Plain t.describe := by
  intro t ht
  rcases (Token.scan_eq_ok_iff.1 h).2.exists_lexeme ht with rfl | ⟨l, hl, htoken⟩
  · decide
  · exact plain_describe_of_token? hl htoken

/-! ### Faults of a text -/

namespace Token

theorem oneLine_of_ofName {name : String} (hname : Plain name) {fault : Fault}
    (h : ofName scope name = .error fault) : OneLine fault.message := by
  unfold ofName at h
  split at h
  · cases h
  · cases h
  · cases h
  · obtain rfl := Except.error.inj h
    exact Wording.oneLine_identifier hname.oneLine

theorem oneLine_of_ofNumeral {run : String} {position : Nat} {fault : Fault}
    (h : ofNumeral run position = .error fault) : OneLine fault.message := by
  unfold ofNumeral at h
  split at h
  · cases h
  · obtain rfl := Except.error.inj h
    exact Wording.oneLine_numeral (Text.oneLine_quote run) (Text.plain_toString_nat position).oneLine

theorem oneLine_of_tail {tokens : Except Fault (List Token)} {t : Token} {fault : Fault}
    (hrest : ∀ fault, tokens = .error fault → OneLine fault.message)
    (h : (tokens >>= fun ts => pure (t :: ts)) = .error fault) : OneLine fault.message := by
  rcases Except.bind_eq_error h with htokens | ⟨ts, -, hok⟩
  · exact hrest fault htokens
  · cases hok

theorem oneLine_of_scanFrom {position : Nat} {cs : List Char} {fault : Fault}
    (h : scanFrom scope position cs = .error fault) : OneLine fault.message := by
  fun_induction scanFrom scope position cs generalizing fault with
  | case1 => cases h
  | case2 =>
    rename_i position c cs _ run ih
    rcases Except.bind_eq_error h with htoken | ⟨t, -, htail⟩
    · exact oneLine_of_ofNumeral htoken
    · exact oneLine_of_tail (fun fault => ih) htail
  | case3 =>
    rename_i position c cs _ hstart run ih
    have hname : Plain (String.ofList (c :: cs.takeWhile Text.isNamePart)) :=
      Text.plain_ofList.2 (Text.isPlain_of_isName (Lexeme.wellFormed_name_run hstart cs))
    rcases Except.bind_eq_error h with htoken | ⟨t, -, htail⟩
    · exact oneLine_of_ofName hname htoken
    · exact oneLine_of_tail (fun fault => ih) htail
  | case4 position c cs _ _ _ ih => exact oneLine_of_tail (fun fault => ih) h
  | case5 position cs _ _ _ ih => exact oneLine_of_tail (fun fault => ih) h
  | case6 position c cs _ _ _ _ _ ih => exact ih h
  | case7 position c =>
    obtain rfl := Except.error.inj h
    exact Wording.oneLine_character (Text.oneLine_quote _) (Text.plain_toString_nat position).oneLine

theorem oneLine_of_scan {limit : Int} {text : String} {fault : Fault}
    (h : scan scope limit text = .error fault) : OneLine fault.message := by
  unfold scan at h
  split at h
  · obtain rfl := Except.error.inj h
    exact Wording.oneLine_length (Text.plain_toString_nat _).oneLine (Text.plain_toString_int _).oneLine
  · exact oneLine_of_scanFrom h

end Token

/-! ### Faults of calls -/

theorem Builtin.oneLine_of_callNamed [Elementary] {name : String} {args : List Float} {fault : Fault}
    (h : callNamed name args = .error (.fault fault)) : OneLine fault.message := by
  unfold callNamed at h
  split at h
  case h_2 => cases h
  case h_1 f _ =>
    have hname : OneLine f.name := by
      have hall : ∀ f ∈ all, OneLine f.name := by decide
      exact hall f (mem_all f)
    rcases call_eq_error h with hfault | ⟨_, hraised⟩ | ⟨g, x, rest, rfl, rfl, hfault⟩
    · obtain rfl := Halt.fault.inj hfault
      exact Wording.oneLine_arguments hname (Text.plain_toString_nat _).oneLine
        (Text.plain_toString_nat _).oneLine
    · cases hraised
    · obtain rfl := Halt.fault.inj hfault
      exact g.oneLine_outsideDomain

/-! ### Faults of a reader -/

/-- Among tokens that are described on one line the reader finds faults that are worded on one. -/
def Reader.Worded {α : Type} (r : Reader α) : Prop :=
  ∀ ts, (∀ t ∈ ts, OneLine t.describe) → ∀ fault, (r.run ts).result = .error (.fault fault) →
    OneLine fault.message

namespace Reader.Worded

variable {α β : Type}

theorem pure (a : α) : (pure a : Reader α).Worded := by
  intro ts _ fault h
  cases h

theorem fail {h : Halt} (hworded : ∀ fault, h = .fault fault → OneLine fault.message) :
    (Reader.fail h : Reader α).Worded := by
  intro ts _ fault herror
  exact hworded fault (Except.error.inj herror)

theorem ofExcept {outcome : Except Halt α}
    (hworded : ∀ fault, outcome = .error (.fault fault) → OneLine fault.message) :
    (Reader.ofExcept outcome).Worded := by
  intro ts _ fault h
  rw [run_ofExcept] at h
  exact hworded fault h

theorem bind {r : Reader α} {f : α → Reader β} (hr : r.Worded) (hf : ∀ a, (f a).Worded) :
    (r >>= f).Worded := by
  intro ts hts fault h
  rw [run_bind] at h
  have hsuffix := r.suffix ts
  have hfirst := hr ts hts
  cases hreply : r.run ts with
  | mk result mid =>
    rw [hreply] at h hsuffix hfirst
    cases result with
    | ok a => exact hf a mid (fun t ht => hts t (hsuffix.subset ht)) fault h
    | error e =>
      obtain rfl : e = .fault fault := Except.error.inj h
      exact hfirst fault rfl

theorem ahead : Reader.ahead.Worded := by
  intro ts _ fault h
  cases ts with
  | nil => cases h
  | cons t ts => cases h

theorem skip : Reader.skip.Worded := by
  intro ts _ fault h
  cases h

/-- A reader that knows the token ahead may describe it. -/
theorem ahead_bind {f : Token → Reader β} (hf : ∀ t, OneLine t.describe → (f t).Worded) :
    (Reader.ahead >>= f).Worded := by
  intro ts hts fault h
  cases ts with
  | nil => cases h
  | cons t ts => exact hf t (hts t List.mem_cons_self) (t :: ts) hts fault h

theorem expect {symbol : String} {otherwise : Fault} (h : OneLine otherwise.message) :
    (Reader.expect symbol otherwise).Worded := by
  refine ahead.bind fun t => ?_
  split
  · exact skip
  · exact fail fun fault hfault => Halt.fault.inj hfault ▸ h

theorem loop {step : α → Token → Option (Reader α)}
    (h : ∀ a t r, step a t = some r → r.Worded) (a : α) : (Reader.loop step a).Worded := by
  intro ts hts
  induction a, ts using Reader.loop_induction step with
  | nil a =>
    intro fault herror
    rw [run_loop_nil] at herror
    cases herror
  | stop a t ts hstep =>
    intro fault herror
    rw [run_loop_stop hstep] at herror
    cases herror
  | go a t ts r hr ih =>
    have htail : ∀ t ∈ ts, OneLine t.describe := (List.forall_mem_cons.1 hts).2
    intro fault herror
    rw [run_loop_go hr, run_bind] at herror
    have hsuffix := r.suffix ts
    have hfirst := h a t r hr ts htail
    cases hreply : r.run ts with
    | mk result mid =>
      rw [hreply] at herror hsuffix hfirst
      cases result with
      | ok b => exact ih b mid hreply (fun t ht => htail t (hsuffix.subset ht)) fault herror
      | error e =>
        obtain rfl : e = .fault fault := Except.error.inj herror
        exact hfirst fault rfl

theorem chain [Elementary] (c : Chain) {r : Reader Float} (h : r.Worded) : (c.reader r).Worded := by
  refine h.bind fun x => loop (fun a t q hq => ?_) _
  rcases c.step_cases t with ⟨op, rfl⟩ | ⟨m, rfl⟩ | hnone
  · rw [Chain.step_token] at hq
    obtain rfl := Option.some.inj hq
    refine h.bind fun y => ?_
    obtain ⟨b, hb⟩ := op.apply_total a y
    rw [hb]
    exact pure b
  · rw [Chain.step_markToken r m] at hq
    obtain rfl := Option.some.inj hq
    obtain ⟨b, hb⟩ := m.apply_total a
    rw [hb]
    exact pure b
  · simp [hnone] at hq

end Reader.Worded

namespace Level

open Reader

/-- The message of a fault that describes a token. -/
theorem oneLine_unexpectedToken {t : Token} (h : OneLine t.describe) :
    ∀ fault, Halt.fault (.unexpectedToken t) = .fault fault → OneLine fault.message := by
  rintro fault hfault
  obtain rfl := Halt.fault.inj hfault
  exact Text.oneLine_append.2 ⟨by decide, h⟩

/-- A name that a token has is described with the token. -/
theorem oneLine_of_describe {kind label name : String}
    (h : OneLine ("Token(" ++ kind ++ (label ++ name) ++ ")")) : OneLine name := by
  simp only [Text.oneLine_append] at h
  exact h.1.2.2

theorem worded_primaryAt {below : Level → Reader Float} (h : ∀ level : Level,
      (∀ name, level = .call name → OneLine name) → (below level).Worded) {t : Token}
    (ht : OneLine t.describe) : (primaryAt scope below t).Worded := by
  have hunclosed : OneLine Fault.unclosed.message := by decide
  unfold primaryAt
  split
  · exact .bind .skip fun _ => (h .primary nofun).bind fun x => .pure _
  · exact .bind .skip fun _ => (h .expression nofun).bind fun x =>
      .bind (.expect hunclosed) fun _ => .pure _
  · exact .bind .skip fun _ => .pure _
  · rename_i name
    split
    · exact .bind .skip fun _ => .pure _
    · refine .fail fun fault hfault => ?_
      obtain rfl := Halt.fault.inj hfault
      exact Wording.oneLine_variableName (oneLine_of_describe ht)
  · refine .bind .skip fun _ => ?_
    split
    · exact .pure _
    · exact .fail nofun
  · rename_i name
    refine .bind .skip fun _ => h _ fun name' hname => ?_
    obtain rfl := Level.call.inj hname
    exact oneLine_of_describe ht
  · exact .fail (oneLine_unexpectedToken ht)

theorem worded_exponent [Elementary] {tower : Reader Float} (h : tower.Worded) (b : Float) :
    (exponent tower b).Worded := by
  refine Worded.ahead.bind fun t => ?_
  split
  · refine .bind .skip fun _ => h.bind fun x => ?_
    obtain ⟨y, hy⟩ := Arithmetic.power_total b x
    rw [hy]
    exact .pure y
  · exact .pure _

theorem worded_read [Elementary] (frames : Nat) (level : Level)
    (hlevel : ∀ name, level = .call name → OneLine name) :
    (read scope order frames level).Worded := by
  have hunclosed : OneLine Fault.unclosed.message := by decide
  induction frames generalizing level with
  | zero =>
    rw [read_zero]
    exact .fail nofun
  | succ frames ih =>
    cases level with
    | expression => exact .chain .sums (ih .factor nofun)
    | factor => exact .chain .products (ih .power nofun)
    | power =>
      cases order with
      | fromLeft => exact .chain .powers (ih .primary nofun)
      | fromRight => exact ih .powerRight nofun
    | powerRight =>
      rw [read_powerRight]
      exact .bind (.chain .factorials (ih .primary nofun)) (worded_exponent (ih .powerRight nofun))
    | primary => exact .ahead_bind fun t ht => worded_primaryAt ih ht
    | call name =>
      have hunopened : OneLine (Fault.unopened name).message :=
        Text.oneLine_append.2 ⟨by decide, hlevel name rfl⟩
      rw [read_call]
      exact .bind (.expect hunopened) fun _ =>
        .bind (.chain .arguments (ih .expression nofun)) fun args =>
          .bind (.expect hunclosed) fun _ => .ofExcept fun _ => Builtin.oneLine_of_callNamed

end Level

theorem worded_wholeExpression [Elementary] (frames : Nat) :
    (wholeExpression scope order frames).Worded := by
  refine .bind (Level.worded_read frames .expression nofun) fun x => .ahead_bind fun t ht => ?_
  split
  · exact .pure _
  · refine .fail fun fault hfault => ?_
    obtain rfl := Halt.fault.inj hfault
    exact Text.oneLine_append.2 ⟨by decide, ht⟩

/-- The fault of an evaluation is worded on one line, whatever the text. -/
theorem oneLine_of_evaluate [Elementary] {limits : Limits} {text : String} {fault : Fault}
    (h : (evaluate limits scope order text).result = .error (.fault fault)) :
    OneLine fault.message := by
  unfold evaluate at h
  cases hscan : Token.scan scope limits.length text with
  | error found =>
    obtain rfl : found = fault := by simpa [hscan] using h
    exact Token.oneLine_of_scan hscan
  | ok tokens =>
    rw [hscan] at h
    exact worded_wholeExpression limits.frames tokens
      (fun t ht => (Token.plain_describe_of_scan hscan t ht).oneLine) fault h

end Reckoner
