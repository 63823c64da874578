import Mathlib.Data.List.TakeDrop
import Reckoner.Command.Plan

/-!
Words with an argument joined. A long flag with an equals sign and a text behind it is that flag with
that text, whatever the text holds; so the words of a command set its options one after the other.
-/

namespace Reckoner.Command

namespace Flag

/-- The long spelling. -/
def long : Flag → String
  | .help => "--help"
  | .expression => "--eval"
  | .binding => "--var"
  | .fromRight => "--pow-from-right"
  | .form => "--format"
  | .precision => "--precision"
  | .version => "--version"
  | .logLevel => "--log-level"
  | .logFile => "--log-file"

/-- The flag with a text joined to it. -/
def join (f : Flag) (text : String) : String := f.long ++ "=" ++ text

theorem ofSpelling?_long (f : Flag) : ofSpelling? f.long = some f := by
  cases f <;> rfl

theorem equals_not_mem_long (f : Flag) : '=' ∉ f.long.toList := by
  cases f <;> decide

theorem exists_long_eq (f : Flag) : ∃ cs, f.long.toList = '-' :: '-' :: cs := by
  cases f <;> exact ⟨_, rfl⟩

/-- No spelling has an equals sign. -/
theorem ofSpelling?_eq_none {word : String} (h : '=' ∈ word.toList) : ofSpelling? word = none := by
  have hnone : ∀ entry ∈ spellings, '=' ∉ entry.1.toList := by decide
  refine List.lookup_eq_none_iff.2 fun entry hentry => ?_
  rw [bne_iff_ne]
  rintro rfl
  exact hnone entry hentry h

theorem toList_join (f : Flag) (text : String) :
    (f.join text).toList = f.long.toList ++ '=' :: text.toList := by
  simp [join, String.toList_append]

theorem equals_mem_join (f : Flag) (text : String) : '=' ∈ (f.join text).toList := by
  simp [toList_join]

theorem join_ne_dashes (f : Flag) (text : String) : f.join text ≠ "--" := by
  intro heq
  have hequals := f.equals_mem_join text
  rw [heq] at hequals
  simp at hequals

end Flag

namespace Word

/-- A word is divided at its first equals sign. -/
theorem divide_append {front : List Char} (h : '=' ∉ front) (behind : List Char) :
    divide (front ++ '=' :: behind) = (String.ofList front, some behind) := by
  have hfront : ∀ c ∈ front, decide (c ≠ '=') = true := by
    intro c hc
    exact decide_eq_true fun heq => h (heq ▸ hc)
  unfold divide
  rw [List.span_eq_takeWhile_dropWhile, List.takeWhile_append_of_pos hfront,
    List.dropWhile_append_of_pos hfront]
  simp

theorem classify_join (f : Flag) (text : String) :
    classify (f.join text) = .ok (.flag f (some text.toList)) := by
  obtain ⟨cs, hlong⟩ := f.exists_long_eq
  have hjoin : (f.join text).toList = '-' :: '-' :: (cs ++ '=' :: text.toList) := by
    rw [f.toList_join, hlong]
    rfl
  have hdivide : divide ('-' :: '-' :: (cs ++ '=' :: text.toList)) =
      (f.long, some text.toList) := by
    rw [← hjoin, f.toList_join, divide_append f.equals_not_mem_long, String.ofList_toList]
  unfold classify
  rw [Flag.ofSpelling?_eq_none (f.equals_mem_join text), hjoin]
  simp only [hdivide, f.ofSpelling?_long]
  rfl

theorem classifyAll_cons {text : String} {word : Word} (htext : text ≠ "--")
    (hword : classify text = .ok word) (texts : List String) :
    classifyAll (text :: texts) = (classifyAll texts).map ((text, word) :: ·) := by
  rw [classifyAll, if_neg htext, hword]
  cases classifyAll texts <;> rfl

end Word

namespace Options

/-- The request of words, behind those that have set the options so far. -/
def parseFrom (o : Options) (others words : List String) : Except OptionFault Request := do
  takeAll o others (← Word.classifyAll words)

variable {o o' : Options} {others : List String}

@[simp] theorem parseFrom_nil (o : Options) : o.parseFrom [] [] = .ok (.run o) := rfl

theorem parse_eq_parseFrom (settings : Settings) (words : List String) :
    parse settings words =
      parseFrom { logLevel := .given (Text.upper settings.logLevel) } [] words := rfl

theorem unjoinWord_of_takesArgument {f : Flag} (hf : f.takesArgument) (long : Bool)
    (text : List Char) : unjoinWord f long text = .ok ([], .joined f (String.ofList text)) := by
  have hlong : (long && !f.takesArgument) = false := by simp [hf]
  rw [unjoinWord, hlong, unjoin.eq_def, if_pos hf]
  rfl

theorem takeAll_join {f : Flag} (hf : f.takesArgument) (text : String)
    (rest : List (String × Word)) :
    o.takeAll others ((f.join text, .flag f (some text.toList)) :: rest) =
      o.set f (.ofJoined text) >>= fun o => o.takeAll others rest := by
  rw [takeAll]
  simp only [unjoinWord_of_takesArgument hf, String.ofList_toList]
  rfl

/-- A flag with its argument joined sets the argument, and the words behind go on from there. -/
theorem parseFrom_join_ofJoined {f : Flag} (hf : f.takesArgument) {text : String}
    (ho : o.set f (.ofJoined text) = .ok o') (words : List String) :
    o.parseFrom others (f.join text :: words) = o'.parseFrom others words := by
  unfold parseFrom
  rw [Word.classifyAll_cons (f.join_ne_dashes text) (Word.classify_join f text)]
  cases Word.classifyAll words with
  | error fault => rfl
  | ok rest =>
      show o.takeAll others ((f.join text, .flag f (some text.toList)) :: rest) = _
      rw [takeAll_join hf, ho]
      rfl

theorem parseFrom_join {f : Flag} (hf : f.takesArgument) {text : String} (htext : text ≠ "--")
    (ho : o.setText f text = .ok o') (words : List String) :
    o.parseFrom others (f.join text :: words) = o'.parseFrom others words := by
  refine parseFrom_join_ofJoined hf ?_ words
  rw [Argument.ofJoined, if_neg htext]
  exact ho

/-- The flag that takes no argument. -/
theorem parseFrom_fromRight (words : List String) :
    o.parseFrom others (Flag.fromRight.long :: words) =
      { o with fromRight := true }.parseFrom others words := by
  unfold parseFrom
  rw [Word.classifyAll_cons (by decide) (rfl : Word.classify Flag.fromRight.long = _)]
  cases Word.classifyAll words with
  | error fault => rfl
  | ok rest =>
      show o.takeAll others ((Flag.fromRight.long, .flag .fromRight none) :: rest) = _
      rw [takeAll]
      rfl

theorem parseFrom_bindings {bindings : List String} (h : "--" ∉ bindings) (words : List String) :
    o.parseFrom others (bindings.map Flag.binding.join ++ words) =
      { o with bindings := o.bindings ++ bindings.map Argument.given }.parseFrom others words := by
  induction bindings generalizing o with
  | nil => simp
  | cons binding bindings ih =>
      obtain ⟨hbinding, hrest⟩ : "--" ≠ binding ∧ "--" ∉ bindings := by simpa using h
      have hset : o.setText .binding binding =
        .ok { o with bindings := o.bindings ++ [.given binding] } := rfl
      rw [List.map_cons, List.cons_append, parseFrom_join rfl (Ne.symm hbinding) hset, ih hrest]
      simp

end Options
end Reckoner.Command
