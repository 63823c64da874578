import Reckoner.Proofs.Command.OneShot

/-!
The expression as a word of its own. Joined to its flag by an equals sign it may be any text but two
dashes. Behind the flag it has to be an argument by its looks: a word with a dash in front is none
unless it is a negative number or holds a space, and not even then if a flag can be read off it.
-/

namespace Reckoner.Command

namespace Flag

theorem exists_ofSpelling?_iff {word : String} :
    (∃ f, ofSpelling? word = some f) ↔ ∃ entry ∈ spellings, entry.1 = word := by
  rw [← not_iff_not]
  push Not
  constructor
  · intro h
    have hnone : ofSpelling? word = none := Option.eq_none_iff_forall_ne_some.2 h
    intro entry hentry heq
    exact absurd heq.symm (by simpa using List.lookup_eq_none_iff.1 hnone entry hentry)
  · intro h f hf
    have hnone : ofSpelling? word = none :=
      List.lookup_eq_none_iff.2 fun entry hentry => by
        rw [bne_iff_ne]
        exact (h entry hentry).symm
    cases hnone.symm.trans hf

theorem exists_of_ofSpelling? {word : String} {f : Flag} (h : ofSpelling? word = some f) :
    ∃ c rest, word.toList = '-' :: c :: rest := by
  have hdash : ∀ entry ∈ spellings, ['-'] <+: entry.1.toList ∧ entry.1.toList.length ≠ 1 := by
    decide
  obtain ⟨entry, hentry, rfl⟩ := exists_ofSpelling?_iff.1 ⟨f, h⟩
  obtain ⟨⟨cs, hcs⟩, hlength⟩ := hdash entry hentry
  rw [← hcs] at hlength ⊢
  cases cs with
  | nil => exact absurd rfl hlength
  | cons c rest => exact ⟨c, rest, rfl⟩

end Flag

namespace Word

/-! ### Words with a dash in front -/

/-- Whether a flag is read off a word: behind two dashes by the beginning of its name, which any
equals sign ends, behind one by its letter. -/
def ShowsFlag (word : List Char) : Prop :=
  if ['-', '-'] <+: word then
    ∃ entry ∈ Flag.spellings, word.takeWhile (· ≠ '=') <+: entry.1.toList
  else ∃ entry ∈ Flag.spellings, entry.1.toList = word.take 2

instance (word : List Char) : Decidable (ShowsFlag word) :=
  inferInstanceAs (Decidable (ite _ _ _))

/-- Whether a word of its own is an argument. With a dash in front it is one if it is nothing else,
or if it shows no flag and is a negative number or holds a space. -/
def IsArgument (word : List Char) : Prop :=
  word.head? = some '-' →
    word = ['-'] ∨ ¬ShowsFlag word ∧ (isNegativeNumber word = true ∨ ' ' ∈ word)

instance (word : List Char) : Decidable (IsArgument word) :=
  inferInstanceAs (Decidable (word.head? = some '-' → _))

theorem toList_divide (word : List Char) : (divide word).1.toList = word.takeWhile (· ≠ '=') := by
  unfold divide
  rw [List.span_eq_takeWhile_dropWhile]
  cases word.dropWhile (· ≠ '=') <;> simp

/-- What is spelled up to the equals sign shows its flag. -/
theorem showsFlag_of_front {word : List Char}
    (h : ∃ entry ∈ Flag.spellings, entry.1.toList = word.takeWhile (· ≠ '=')) :
    ShowsFlag word := by
  have hshort : ∀ entry ∈ Flag.spellings,
      ¬['-', '-'] <+: entry.1.toList → entry.1.toList.length = 2 := by decide
  obtain ⟨entry, hentry, hfront⟩ := h
  have hprefix : entry.1.toList <+: word := hfront ▸ List.takeWhile_prefix _
  unfold ShowsFlag
  split
  case isTrue => exact ⟨entry, hentry, hfront ▸ List.prefix_rfl⟩
  case isFalse hlong =>
      have hlength := hshort entry hentry fun hdashes => hlong (hdashes.trans hprefix)
      exact ⟨entry, hentry, by rw [List.prefix_iff_eq_take.1 hprefix, hlength]⟩

theorem showsFlag_of_spelling {text : String} {f : Flag} (h : Flag.ofSpelling? text = some f) :
    ShowsFlag text.toList := by
  have hequals : '=' ∉ text.toList := by
    intro hmem
    cases (Flag.ofSpelling?_eq_none hmem).symm.trans h
  obtain ⟨entry, hentry, rfl⟩ := Flag.exists_ofSpelling?_iff.1 ⟨f, h⟩
  refine showsFlag_of_front ⟨entry, hentry, ?_⟩
  refine (List.takeWhile_eq_self_iff.2 fun c hc => ?_).symm
  exact decide_eq_true fun heq => hequals (heq ▸ hc)

/-- A word with two dashes shows a flag if it may be cut from a spelling. -/
theorem candidates_eq_nil_iff {word : List Char} (hlong : ['-', '-'] <+: word) :
    candidates (divide word).1 = [] ↔ ¬ShowsFlag word := by
  simp only [candidates, ShowsFlag, if_pos hlong, List.filter_eq_nil_iff,
    List.isPrefixOf_iff_prefix, toList_divide]
  push Not
  rfl

/-- Another word with a dash shows a flag if the dash and its letter spell one. -/
theorem ofSpelling?_take_eq_none_iff {word : List Char} (hshort : ¬['-', '-'] <+: word) :
    Flag.ofSpelling? (String.ofList (word.take 2)) = none ↔ ¬ShowsFlag word := by
  rw [ShowsFlag, if_neg hshort, ← not_iff_not, not_not, ← ne_eq, Option.ne_none_iff_exists',
    Flag.exists_ofSpelling?_iff]
  simp only [← String.toList_inj, String.toList_ofList]

/-- The flags that a long word may be cut from. -/
def offered (word : List Char) : List String := (candidates (divide word).1).map Prod.fst

/-- How a word is taken that shows a flag: for the flag, or for none of several. -/
inductive ForFlag (word : List Char) : Except OptionFault Word → Prop
  | flag (f : Flag) (joined : Option (List Char)) : ForFlag word (.ok (.flag f joined))
  | ambiguous : ForFlag word (.error (.ambiguous (String.ofList word) (offered word)))

/-- How a word with a dash in front is taken, by whether it shows a flag. -/
def Taken (word : List Char) (result : Except OptionFault Word) : Prop :=
  if ShowsFlag word then ForFlag word result else result = .ok (ofOther word)

theorem ForFlag.taken {word : List Char} {result : Except OptionFault Word}
    (h : ForFlag word result) (hshows : ShowsFlag word) : Taken word result := by
  rw [Taken, if_pos hshows]
  exact h

theorem taken_ofOther {word : List Char} (hnone : ¬ShowsFlag word) :
    Taken word (.ok (ofOther word)) := by
  rw [Taken, if_neg hnone]

theorem taken_ofLong {word : List Char} (hlong : ['-', '-'] <+: word) :
    Taken word (ofLong word) := by
  have hoffers := candidates_eq_nil_iff hlong
  fun_cases ofLong word
  case case1 front joined hdivide hnil =>
      rw [hdivide] at hoffers
      exact taken_ofOther (hoffers.1 hnil)
  case case2 front joined hdivide spelling f hone =>
      rw [hdivide, hone] at hoffers
      have hshows : ShowsFlag word := by simpa using hoffers
      exact (ForFlag.flag f joined).taken hshows
  case case3 front joined hdivide hsome hseveral =>
      rw [hdivide] at hoffers
      have hshows : ShowsFlag word := not_not.1 fun hnone => hsome (hoffers.2 hnone)
      have hoffered : (candidates front).map Prod.fst = offered word := by
        rw [offered, hdivide]
      rw [hoffered]
      exact ForFlag.ambiguous.taken hshows

theorem taken_ofShort {word : List Char} (hshort : ¬['-', '-'] <+: word) :
    Taken word (.ok (ofShort word)) := by
  have hspells := ofSpelling?_take_eq_none_iff hshort
  fun_cases ofShort word
  case case1 f hf =>
      rw [hf] at hspells
      have hshows : ShowsFlag word := by simpa using hspells
      exact (ForFlag.flag f _).taken hshows
  case case2 hnone => exact taken_ofOther (hspells.1 hnone)

theorem taken_classify {text : String} {c : Char} {cs : List Char}
    (htext : text.toList = '-' :: c :: cs) : Taken text.toList (classify text) := by
  fun_cases classify text
  -- the word is a spelling, or it is one up to the equals sign, or it is a long or a short word
  case case1 f hf => exact (ForFlag.flag f none).taken (showsFlag_of_spelling hf)
  case case2 second rest hword hnone front joined f hf hdivide =>
      obtain ⟨entry, hentry, hspelled⟩ := Flag.exists_ofSpelling?_iff.1 ⟨f, hf⟩
      have hfront : entry.1.toList = text.toList.takeWhile (· ≠ '=') := by
        rw [hspelled, ← toList_divide, hword, hdivide]
      exact (ForFlag.flag f _).taken (showsFlag_of_front ⟨entry, hentry, hfront⟩)
  case case3 rest hnone front joined hother hword hdivide =>
      rw [hword]
      exact taken_ofLong ⟨rest, rfl⟩
  case case4 second rest hword hnone front joined hdivide hsecond hother =>
      rw [hword]
      exact taken_ofShort (by simp [Ne.symm hsecond])
  case case5 hnone hdashless => exact absurd htext (hdashless c cs)

theorem classify_of_dashless {text : String} (h : ∀ c rest, text.toList ≠ '-' :: c :: rest) :
    classify text = .ok .argument := by
  fun_cases classify text
  case case1 f hf =>
      obtain ⟨c, rest, hword⟩ := Flag.exists_of_ofSpelling? hf
      exact absurd hword (h c rest)
  case case2 second rest hword _ _ _ _ _ _ => exact absurd hword (h second rest)
  case case3 rest _ _ _ _ hword _ => exact absurd hword (h '-' rest)
  case case4 second rest hword _ _ _ _ _ _ => exact absurd hword (h second rest)
  case case5 => rfl

theorem ofOther_eq_argument_iff {word : List Char} :
    ofOther word = .argument ↔ isNegativeNumber word = true ∨ ' ' ∈ word := by
  simp [ofOther, or_iff_not_imp_left]

/-- An argument is a word without a dash, or one by its looks. -/
theorem classify_eq_argument_iff {text : String} :
    classify text = .ok .argument ↔ IsArgument text.toList := by
  by_cases hdash : ∃ c rest, text.toList = '-' :: c :: rest
  case neg =>
      push Not at hdash
      refine iff_of_true (classify_of_dashless hdash) fun hhead => .inl ?_
      obtain ⟨cs, hcs⟩ := List.head?_eq_some_iff.1 hhead
      cases cs with
      | nil => exact hcs
      | cons c rest => exact absurd hcs (hdash c rest)
  case pos =>
      obtain ⟨c, rest, hword⟩ := hdash
      have hargument : IsArgument text.toList ↔
          ¬ShowsFlag text.toList ∧ ofOther text.toList = .argument := by
        rw [ofOther_eq_argument_iff]
        simp [IsArgument, hword]
      have htaken := taken_classify hword
      rw [Taken] at htaken
      rw [hargument]
      split at htaken
      case isTrue hshows =>
          refine iff_of_false ?_ fun h => h.1 hshows
          intro hresult
          rw [hresult] at htaken
          cases htaken
      case isFalse hnone =>
        rw [htaken]
        simp [hnone]

example : IsArgument "-(1 + 2)".toList ∧ ¬IsArgument "-(1+2)".toList ∧
    ¬IsArgument "-pi + 2".toList := by
  decide

/-- Where a word cannot be taken at all, several flags could be meant. -/
theorem eq_ambiguous_of_classify {text : String} {fault : OptionFault}
    (h : classify text = .error fault) : fault = .ambiguous text (offered text.toList) := by
  by_cases hdash : ∃ c rest, text.toList = '-' :: c :: rest
  case neg =>
      push Not at hdash
      cases h.symm.trans (classify_of_dashless hdash)
  case pos =>
      obtain ⟨c, rest, hword⟩ := hdash
      have htaken := taken_classify hword
      rw [Taken, h] at htaken
      split at htaken
      case isTrue =>
          cases htaken
          rw [String.ofList_toList]
      case isFalse => cases htaken

end Word

namespace Options

variable {o : Options} {others : List String} {settings : Settings} {text : String}

/-- A flag with nothing joined takes the argument behind it. -/
theorem takeAll_bare {f : Flag} (hf : f.takesArgument) (word text : String)
    (rest : List (String × Word)) :
    o.takeAll others ((word, .flag f none) :: (text, .argument) :: rest) =
      o.set f (.given text) >>= fun o => o.takeAll others rest := by
  rw [takeAll]
  show (if f.takesArgument = true then _ else _) = _
  rw [if_pos hf]

theorem takeAll_bare_of_ne {f : Flag} (hf : f.takesArgument) (word text : String) {w : Word}
    (hw : w ≠ .argument) (rest : List (String × Word)) :
    o.takeAll others ((word, .flag f none) :: (text, w) :: rest) = .error (.noArgument f) := by
  rw [takeAll]
  show (if f.takesArgument = true then _ else _) = _
  rw [if_pos hf]
  cases w with
  | argument => exact absurd rfl hw
  | divider | unknown => rfl
  | flag g joined => rfl

/-- The options of a command that evaluates an expression, with the settings for all else. -/
def asking (settings : Settings) (argument : Argument String) : Options where
  expression := some argument
  logLevel := .given (Text.upper settings.logLevel)

theorem parse_joined (settings : Settings) (text : String) :
    parse settings [Flag.expression.join text] =
      .ok (.run (asking settings (.ofJoined text))) := by
  have hset (o : Options) : o.set .expression (.ofJoined text) =
      .ok { o with expression := some (.ofJoined text) } := by
    cases Argument.ofJoined text <;> rfl
  exact parseFrom_join_ofJoined rfl (hset _) []

/-- What is left of a command behind the flag is the word that is to be its argument. -/
theorem parse_separate_eq (settings : Settings) {word : Word} (hne : text ≠ "--")
    (hword : Word.classify text = .ok word) :
    parse settings ["-e", text] =
      takeAll { logLevel := .given (Text.upper settings.logLevel) } []
        [("-e", .flag .expression none), (text, word)] := by
  unfold parse
  rw [Word.classifyAll_cons (by decide) (rfl : Word.classify "-e" = _),
    Word.classifyAll_cons hne hword]
  rfl

theorem parse_separate (h : Word.IsArgument text.toList) :
    parse settings ["-e", text] = parse settings [Flag.expression.join text] := by
  have hne : text ≠ "--" := by
    rintro rfl
    revert h
    decide
  rw [parse_separate_eq settings hne (Word.classify_eq_argument_iff.2 h), takeAll_bare rfl,
    parse_joined, Argument.ofJoined, if_neg hne]
  rfl

/-- Why a command is not taken whose last word is no argument for the flag before it. -/
inductive NoExpression (text : String) : OptionFault → Prop
  | noArgument : NoExpression text (.noArgument .expression)
  | ambiguous : NoExpression text (.ambiguous text (Word.offered text.toList))

theorem parse_separate_of_not (settings : Settings) (h : ¬Word.IsArgument text.toList) :
    ∃ fault, NoExpression text fault ∧ parse settings ["-e", text] = .error fault := by
  by_cases hne : text = "--"
  case pos =>
    subst hne
    refine ⟨_, .noArgument, ?_⟩
    show takeAll _ [] [("-e", .flag .expression none), ("--", .divider)] = _
    exact takeAll_bare_of_ne rfl "-e" "--" (by decide) []
  cases hword : Word.classify text with
  | error fault =>
      obtain rfl := Word.eq_ambiguous_of_classify hword
      refine ⟨_, .ambiguous, ?_⟩
      unfold parse
      rw [Word.classifyAll, if_neg (by decide), Word.classifyAll, if_neg hne, hword]
      rfl
  | ok word =>
      have hargument : word ≠ .argument := by
        rintro rfl
        exact h (Word.classify_eq_argument_iff.1 hword)
      refine ⟨_, .noArgument, ?_⟩
      rw [parse_separate_eq settings hne hword]
      exact takeAll_bare_of_ne rfl "-e" text hargument []

end Options

namespace Entry

/-- A program leaves with the code to which its plan has come, unless the user has broken in. -/
theorem ending_finish {entry : Entry} {t : Transcript} {code : Nat}
    (h : (entry.finish t).ending = .exited code) :
    code = 1 ∨ t.ending = .returned code ∨ t.ending = .exited code := by
  have hleave : ∀ e, entry.leave e = .exited code → e = .returned code ∨ e = .exited code := by
    intro e he
    cases e with
    | returned n =>
        rw [leave] at he
        split at he
        · injection he with hn
          exact .inl (congrArg _ hn)
        · cases he
    | exited n => exact .inr he
    | escaped cause => cases he
  have hending : (entry.settle t).ending = .returned 1 ∨ entry.settle t = t := by
    unfold settle
    split
    · exact .inl rfl
    · exact .inr rfl
  rcases hending with hone | hsame
  · rcases hleave _ h with hcode | hcode
    · injection hone.symm.trans hcode with hn
      exact .inl hn.symm
    · cases hone.symm.trans hcode
  · exact .inr (hsame ▸ hleave _ h)

end Entry

section

variable {environment : Table String} {settings : Settings}

/-- Words that are not taken end a command before anything else, with its forms and the fault. -/
theorem run_of_parse_error (hsettings : Settings.ofEnvironment environment = .ok settings)
    {words : List String} {fault : OptionFault}
    (hparse : Options.parse settings words = .error fault) (frames : Nat) (entry : Entry)
    (input : String) (ending : Manner.InputEnd) :
    run frames entry environment words input ending =
      ⟨[.err (usage ++ name ++ ": error: " ++ fault.message ++ "\n")], .exited 2⟩ := by
  unfold run Plan.ofWords
  simp only [hsettings, hparse]
  cases entry <;> rfl

theorem run_of_parse_eq (hsettings : Settings.ofEnvironment environment = .ok settings)
    {words words' : List String}
    (hparse : Options.parse settings words = Options.parse settings words') (frames : Nat)
    (entry : Entry) (input : String) (ending : Manner.InputEnd) :
    run frames entry environment words input ending =
      run frames entry environment words' input ending := by
  unfold run Plan.ofWords
  simp only [hsettings, hparse]

variable (hsettings : Settings.ofEnvironment environment = .ok settings) (frames : Nat)
  (entry : Entry) (text input : String) (ending : Manner.InputEnd)

include hsettings

/-- The text behind the equals sign is evaluated, unless the level of the log cannot be set. -/
theorem run_joined :
    run frames entry environment [Flag.expression.join text] input ending =
      entry.finish
        (match Log.levelOf (Text.upper settings.logLevel) with
        | .ok _ => (OneShot.manner { expression := text } settings frames settings.precision).once ∅
            (Argument.ofJoined text).subject
        | .error fault => ⟨[], .escaped (.level fault)⟩) := by
  have hlogger : (Options.asking settings (.ofJoined text)).logger =
      ((Log.Logger.fresh.setUp (Text.upper settings.logLevel) none).1,
        (Log.Logger.fresh.setUp (Text.upper settings.logLevel) none).2.map .level) :=
    Options.logger_of_level rfl
  have hmanner : (Options.asking settings (.ofJoined text)).manner settings frames =
      OneShot.manner { expression := text } settings frames settings.precision := by
    simp only [Options.manner, hlogger, OneShot.manner]
    rfl
  unfold run Plan.ofWords
  simp only [hsettings, Options.parse_joined, Options.plan, hmanner, hlogger]
  unfold Log.Logger.setUp
  cases Log.levelOf (Text.upper settings.logLevel) <;> rfl

theorem ending_joined_ne :
    (run frames entry environment [Flag.expression.join text] input ending).ending ≠ .exited 2 := by
  intro htwo
  rw [run_joined hsettings] at htwo
  rcases Entry.ending_finish htwo with hone | hplan
  · cases hone
  · cases hlevel : Log.levelOf (Text.upper settings.logLevel) with
    | error fault => simp [hlevel] at hplan
    | ok n =>
        simp only [hlevel] at hplan
        rcases Manner.ending_once _ _ _ with ⟨code, hcode, hending⟩ | ⟨cause, hending⟩
        · rw [hending] at hplan
          rcases hplan with hplan | hplan
          · injection hplan with htwo
            exact absurd htwo hcode.ne
          · cases hplan
        · simp [hending] at hplan

end

/-- An expression as a word of its own, behind its flag, makes the same command as one joined to the
flag exactly if it is an argument by its looks.
- If it has a dash in front and is none, then the command ends with its forms and a fault before the
  expression is looked at, and with a code that the joined command never has.
- Joined it is evaluated whatever its looks, without bindings and as the settings say. -/
theorem run_separate_eq_joined_iff {environment : Table String} {settings : Settings}
    (hsettings : Settings.ofEnvironment environment = .ok settings) (frames : Nat) (entry : Entry)
    (text input : String) (ending : Manner.InputEnd) :
    (run frames entry environment ["-e", text] input ending =
        run frames entry environment [Flag.expression.join text] input ending ↔
      Word.IsArgument text.toList) ∧
    (¬Word.IsArgument text.toList →
      (∃ fault, Options.NoExpression text fault ∧
        run frames entry environment ["-e", text] input ending =
          ⟨[.err (usage ++ name ++ ": error: " ++ fault.message ++ "\n")], .exited 2⟩) ∧
      (run frames entry environment [Flag.expression.join text] input ending).ending ≠ .exited 2) ∧
    run frames entry environment [Flag.expression.join text] input ending =
      entry.finish
        (match Log.levelOf (Text.upper settings.logLevel) with
        | .ok _ => (OneShot.manner { expression := text } settings frames settings.precision).once ∅
            (Argument.ofJoined text).subject
        | .error fault => ⟨[], .escaped (.level fault)⟩) := by
  have hjoined := ending_joined_ne hsettings frames entry text input ending
  have hrefused (h : ¬Word.IsArgument text.toList) : ∃ fault, Options.NoExpression text fault ∧
      run frames entry environment ["-e", text] input ending =
        ⟨[.err (usage ++ name ++ ": error: " ++ fault.message ++ "\n")], .exited 2⟩ := by
    obtain ⟨fault, hnone, hparse⟩ := Options.parse_separate_of_not settings h
    exact ⟨fault, hnone, run_of_parse_error hsettings hparse frames entry input ending⟩
  refine ⟨⟨fun heq => ?_, fun h => ?_⟩, fun h => ⟨hrefused h, hjoined⟩, ?_⟩
  · by_contra h
    obtain ⟨fault, -, hrun⟩ := hrefused h
    rw [← heq, hrun] at hjoined
    exact hjoined rfl
  · exact run_of_parse_eq hsettings (Options.parse_separate h) frames entry input ending
  · exact run_joined hsettings frames entry text input ending

/-- A negative number is an argument, and a minus in front of a bracket is none. -/
theorem run_separate_eq_joined_iff_minus :
    run 1000 .function ∅ ["-e", "-2.5"] "" .over = run 1000 .function ∅ ["--eval=-2.5"] "" .over ∧
      run 1000 .function ∅ ["-e", "-(2)"] "" .over ≠ run 1000 .function ∅ ["--eval=-(2)"] "" .over := by
  have hsettings : Settings.ofEnvironment ∅ = .ok Settings.standard := rfl
  refine ⟨(run_separate_eq_joined_iff hsettings 1000 .function "-2.5" "" .over).1.2 (by decide), ?_⟩
  intro heq
  have hargument := (run_separate_eq_joined_iff hsettings 1000 .function "-(2)" "" .over).1.1 heq
  exact absurd hargument (by decide)

/-- The minus makes an unknown option of the expression; joined it has the value that it should
have. -/
theorem not_run_separate_eq_joined :
    (¬∀ text, run 1000 .function ∅ ["-e", text] "" .over =
      run 1000 .function ∅ [Flag.expression.join text] "" .over) ∧
    run 1000 .function ∅ ["-e", "-(2)"] "" .over =
      ⟨[.err (usage ++ "tinyexpr: error: argument -e/--eval: expected one argument\n")],
        .exited 2⟩ ∧
    run 1000 .function ∅ [Flag.expression.join "-(2)"] "" .over = ⟨[.out "-2\n"], .returned 0⟩ := by
  have hseparate : run 1000 .function ∅ ["-e", "-(2)"] "" .over =
      ⟨[.err (usage ++ "tinyexpr: error: argument -e/--eval: expected one argument\n")],
        .exited 2⟩ := by
    decide +kernel
  have hjoined : run 1000 .function ∅ [Flag.expression.join "-(2)"] "" .over =
      ⟨[.out "-2\n"], .returned 0⟩ := by
    decide +kernel
  refine ⟨fun h => ?_, hseparate, hjoined⟩
  have heq := h "-(2)"
  rw [hseparate, hjoined] at heq
  exact absurd (congrArg Transcript.ending heq) (by decide)

end Reckoner.Command
