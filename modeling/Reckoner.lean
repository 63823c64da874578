import Reckoner.Binding
import Reckoner.Command.Options
import Reckoner.Command.Plan
import Reckoner.Display
import Reckoner.Fault.Draft
import Reckoner.Json
import Reckoner.Log.Level
import Reckoner.Log.Record
import Reckoner.Log.Timestamp
import Reckoner.Log.Trace
import Reckoner.Main
import Reckoner.Proofs.Arithmetic.Combinations
import Reckoner.Proofs.Arithmetic.Division
import Reckoner.Proofs.Arithmetic.Factorial
import Reckoner.Proofs.Arithmetic.Hyperbolic
import Reckoner.Proofs.Arithmetic.Modulo
import Reckoner.Proofs.Arithmetic.Power
import Reckoner.Proofs.Arithmetic.Truncation
import Reckoner.Proofs.Binary64.Scientific
import Reckoner.Proofs.Binary64.Truncation
import Reckoner.Proofs.Binding
import Reckoner.Proofs.Builtin
import Reckoner.Proofs.Call
import Reckoner.Proofs.Checked
import Reckoner.Proofs.Command.Interact
import Reckoner.Proofs.Command.Json
import Reckoner.Proofs.Command.Lines
import Reckoner.Proofs.Command.Naming
import Reckoner.Proofs.Command.OneShot
import Reckoner.Proofs.Command.Separate
import Reckoner.Proofs.Command.Words
import Reckoner.Proofs.Command.Written
import Reckoner.Proofs.Decimal.Numeral
import Reckoner.Proofs.Decimal.Plain
import Reckoner.Proofs.Decimal.Rounding
import Reckoner.Proofs.Decimal.Shortest
import Reckoner.Proofs.Descent.Agreement
import Reckoner.Proofs.Descent.Calls
import Reckoner.Proofs.Descent.Completeness
import Reckoner.Proofs.Descent.Congruence
import Reckoner.Proofs.Descent.Course
import Reckoner.Proofs.Descent.Depth
import Reckoner.Proofs.Descent.Flow
import Reckoner.Proofs.Descent.Frames
import Reckoner.Proofs.Descent.Grouping
import Reckoner.Proofs.Descent.Halting
import Reckoner.Proofs.Descent.Levels
import Reckoner.Proofs.Descent.Limit
import Reckoner.Proofs.Descent.Locality
import Reckoner.Proofs.Descent.Longest
import Reckoner.Proofs.Descent.Parallel
import Reckoner.Proofs.Descent.Soundness
import Reckoner.Proofs.Descent.Substitution
import Reckoner.Proofs.Descent.Viable
import Reckoner.Proofs.Descent.Whole
import Reckoner.Proofs.Evaluation
import Reckoner.Proofs.Fault.Wording
import Reckoner.Proofs.Grammar.Cause
import Reckoner.Proofs.Grammar.Follow
import Reckoner.Proofs.Grammar.Orders
import Reckoner.Proofs.Grammar.Phrase
import Reckoner.Proofs.Grammar.Unambiguous
import Reckoner.Proofs.Json.Decoding
import Reckoner.Proofs.Json.Number
import Reckoner.Proofs.Json.Text
import Reckoner.Proofs.Log.Level
import Reckoner.Proofs.Log.Record
import Reckoner.Proofs.Merge
import Reckoner.Proofs.Relevance
import Reckoner.Proofs.Scope
import Reckoner.Proofs.Session.Evaluation
import Reckoner.Proofs.Session.Growth
import Reckoner.Proofs.Session.Isolation
import Reckoner.Proofs.Session.Mirror
import Reckoner.Proofs.Session.Run
import Reckoner.Proofs.Session.Sharing
import Reckoner.Proofs.Session.Tables
import Reckoner.Proofs.Table
import Reckoner.Proofs.Text.Line
import Reckoner.Proofs.Token.Joining
import Reckoner.Proofs.Token.Mention
import Reckoner.Proofs.Token.Numeral
import Reckoner.Proofs.Token.Scan
import Reckoner.Report
import Reckoner.Session
import Reckoner.Settings
