import Reckoner.Log.Timestamp
import Reckoner.Log.Trace
import Reckoner.Proofs.Fault.Wording

/-!
Log records on one line. Behind a message on one line comes the quoted expression, from which its first
characters can be read back; so no expression, whatever its characters, makes up a line of the log.
-/

namespace Reckoner.Log

open Text (OneLine Plain)

/-- Timestamps are in printable ASCII. -/
theorem Timestamp.plain_padded (width n : Nat) : Plain (padded width n) := by
  rw [padded, Text.plain_ofList, List.forall_mem_append]
  exact ⟨fun _ => Decimal.isPlain_of_mem_replicate, fun c hc =>
    Text.isPlain_of_isDigit (Nat.isDigit_of_mem_toDigits (by decide) (by decide) hc)⟩

theorem Timestamp.plain_text (t : Timestamp) : Plain t.text := by
  unfold text
  simp only [Text.plain_append]
  exact ⟨⟨⟨⟨⟨⟨⟨⟨⟨⟨⟨⟨plain_padded _ _, by decide⟩, plain_padded _ _⟩, by decide⟩, plain_padded _ _⟩,
    by decide⟩, plain_padded _ _⟩, by decide⟩, plain_padded _ _⟩, by decide⟩, plain_padded _ _⟩,
    by decide⟩, plain_padded _ _⟩

theorem Level.plain_name (level : Int) : Plain (name level) := by
  unfold name
  iterate 6 (split; decide)
  exact Text.plain_append.2 ⟨by decide, Text.plain_toString_int level⟩

theorem Subject.oneLine_shown (s : Subject) : OneLine s.shown := by
  cases s with
  | expression e => exact Text.oneLine_quote _
  | nothing => decide

/-- The parts of a record that are written as they are hold no line break, and it carries no error. -/
structure Record.Clean (r : Record) : Prop where
  logger : OneLine r.logger
  message : OneLine r.message
  carried : r.carried = none

/-- A record of such parts is one line. -/
theorem Record.Clean.oneLine_write {r : Record} (h : r.Clean) {timestamp : String}
    (ht : OneLine timestamp) : OneLine (r.write timestamp) := by
  have hfront : OneLine
      (timestamp ++ " [" ++ Level.name r.level ++ "] " ++ r.logger ++ ": " ++ r.message) := by
    simp only [Text.oneLine_append]
    exact ⟨⟨⟨⟨⟨⟨ht, by decide⟩, (Level.plain_name r.level).oneLine⟩, by decide⟩, h.logger⟩, by decide⟩,
      h.message⟩
  unfold write
  rw [h.carried]
  cases r.subject with
  | none => exact Text.oneLine_append.2 ⟨Text.oneLine_append.2 ⟨hfront, by decide⟩, by decide⟩
  | some s =>
    have hsubject : OneLine (" (expression=" ++ s.shown ++ ")") := by
      simp only [Text.oneLine_append]
      exact ⟨⟨by decide, s.oneLine_shown⟩, by decide⟩
    exact Text.oneLine_append.2 ⟨Text.oneLine_append.2 ⟨hfront, hsubject⟩, by decide⟩

/-- What the excerpt of an expression is: the expression, or the first of its characters and three dots. -/
theorem excerpt_eq (text : String) :
    excerpt excerptLimit text =
      if text.length ≤ 80 then text else String.ofList (text.toList.take 77) ++ "..." := by
  have hlimit : (text.length : Int) ≤ excerptLimit ↔ text.length ≤ 80 := by
    unfold excerptLimit
    omega
  unfold excerpt
  by_cases hlength : text.length ≤ 80
  · rw [if_pos (hlimit.2 hlength), if_pos hlength]
  · rw [if_neg (mt hlimit.1 hlength), if_neg hlength, String.ofList_append]
    rfl

/-- A record ends with its expression in quotes, which can be read back. -/
theorem Record.write_eq_of_subject {r : Record} {text : String}
    (hsubject : r.subject = some (.expression text)) (hcarried : r.carried = none)
    (timestamp : String) :
    ∃ front quoted, r.write timestamp = front ++ " (expression=" ++ quoted ++ ")" ∧
      Text.unquote? quoted =
        some (if text.length ≤ 80 then text else String.ofList (text.toList.take 77) ++ "...") := by
  refine ⟨timestamp ++ " [" ++ Level.name r.level ++ "] " ++ r.logger ++ ": " ++ r.message,
    Text.quote (excerpt excerptLimit text), ?_, ?_⟩
  · unfold write
    rw [hsubject, hcarried]
    simp only [Subject.shown, String.append_empty, String.append_assoc]
  · rw [Text.unquote?_quote, excerpt_eq]

/-! ### The records of an evaluation -/

/-- The loggers of the parts that leave records. -/
theorem oneLine_child {part : String} (h : part ∈ ["lexer", "evaluator", "api", "cli"]) :
    OneLine (Logger.child part) := by
  have hall : ∀ part ∈ ["lexer", "evaluator", "api", "cli"], OneLine (Logger.child part) := by decide
  exact hall part h

theorem clean_bound {name : String} (h : OneLine name) (x : Float) : (bound name x).Clean where
  logger := oneLine_child (by decide)
  message := by
    simp only [bound, Text.oneLine_append]
    exact ⟨⟨⟨by decide, h⟩, by decide⟩, (Decimal.plain_shortestText x).oneLine⟩
  carried := rfl

/-- The records that an evaluation leaves are about its subject, and within one line each. -/
theorem clean_of_mem_trace {subject : Subject} {limits : Limits} {scope : Scope} {order : PowerOrder}
    {text : String} {r : Record} (h : r ∈ trace subject (evaluate limits scope order text)) :
    r.Clean ∧ r.subject = some subject := by
  have hworded : ∀ fault, (evaluate limits scope order text).result = .error (.fault fault) →
      OneLine fault.message := fun fault => oneLine_of_evaluate
  unfold trace at h
  generalize evaluate limits scope order text = e at h hworded
  rcases List.mem_append.1 h with h | h
  · obtain ⟨tokens, -, rfl⟩ := Option.map_eq_some_iff.1 (Option.mem_toList.1 h)
    refine ⟨⟨oneLine_child (by decide), ?_, rfl⟩, rfl⟩
    simp only [scanned, Text.oneLine_append]
    exact ⟨⟨by decide, (Text.plain_toString_nat _).oneLine⟩, by decide⟩
  · split at h
    · obtain rfl := List.mem_singleton.1 h
      refine ⟨⟨oneLine_child (by decide), ?_, rfl⟩, rfl⟩
      exact Text.oneLine_append.2 ⟨by decide, (Decimal.plain_shortestText _).oneLine⟩
    · rename_i f hresult
      obtain rfl := List.mem_singleton.1 h
      have hcode : OneLine f.code := by
        have hall : ∀ k ∈ FaultKind.all, OneLine k.code := by decide
        exact hall f.kind f.kind.mem_all
      refine ⟨⟨oneLine_child (by decide), ?_, rfl⟩, rfl⟩
      simp only [refused, Text.oneLine_append]
      exact ⟨⟨⟨by decide, hcode⟩, by decide⟩, hworded f hresult⟩
    · obtain rfl := List.mem_singleton.1 h
      have hmessage : OneLine "Expression nesting exceeds the interpreter recursion limit" := by decide
      exact ⟨⟨oneLine_child (by decide), hmessage, rfl⟩, rfl⟩
    · simp at h

end Reckoner.Log
