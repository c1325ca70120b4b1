import Lisplet.Main
import Lisplet.Value.Equality
import Lisplet.Value.Source
import Lisplet.Proofs.Text.Run
import Lisplet.Proofs.Numeral.Grammar
import Lisplet.Proofs.Numeral.Denoted
import Lisplet.Proofs.Scanning.LongestMatch
import Lisplet.Proofs.Scanning.Agreement
import Lisplet.Proofs.Scanning.Rules
import Lisplet.Proofs.Scanning.Tokens
import Lisplet.Proofs.Text.Places
import Lisplet.Proofs.Scanning.Shifting
import Lisplet.Proofs.Scanning.Extension
import Lisplet.Proofs.Form.Progress
import Lisplet.Proofs.Form.Closing
import Lisplet.Proofs.Form.Nesting
import Lisplet.Proofs.Error.Wording
import Lisplet.Proofs.Evaluation.Keeps
import Lisplet.Proofs.Form.Contents
import Lisplet.Proofs.Native.Tame
import Lisplet.Proofs.Number.Exact
import Lisplet.Proofs.Native.Comparison
import Lisplet.Proofs.Native.Unchecked
import Lisplet.Proofs.Environment.Holdings
import Lisplet.Proofs.Evaluation.Depth
import Lisplet.Proofs.Binary64.Decimal
import Lisplet.Proofs.Binary64.Shortest
import Lisplet.Proofs.Binary64.Whole
import Lisplet.Proofs.Numeral.Written
import Lisplet.Proofs.Numeral.Displayed
import Lisplet.Proofs.Value.Normal
import Lisplet.Proofs.Form.Single
import Lisplet.Proofs.Form.Spelled
import Lisplet.Proofs.Scanning.Spelled
import Lisplet.Proofs.Form.RoundTrip
import Lisplet.Proofs.Form.Displayed
import Lisplet.Proofs.Form.Flattening
import Lisplet.Proofs.Form.Counting
import Lisplet.Proofs.Scanning.Readable
import Lisplet.Proofs.Form.Range
import Lisplet.Proofs.Evaluation.Laws
import Lisplet.Proofs.Evaluation.Record
import Lisplet.Proofs.Interpreter.Course
import Lisplet.Proofs.Scanning.Concatenation
import Lisplet.Proofs.Scanning.Layout
import Lisplet.Proofs.Scanning.Spans
import Lisplet.Proofs.Scanning.Coverage
import Lisplet.Proofs.Scanning.Draining
import Lisplet.Proofs.Scanning.Requests
import Lisplet.Proofs.Scanning.Spacing
import Lisplet.Proofs.Scanning.Unread
import Lisplet.Proofs.Form.Pulls
import Lisplet.Proofs.Form.Composition
import Lisplet.Proofs.Form.Spacing
import Lisplet.Proofs.Error.Excerpt
import Lisplet.Proofs.Form.Blame
import Lisplet.Proofs.Error.Pointing
import Lisplet.Proofs.Form.Beginning
import Lisplet.Proofs.Session.Unbalanced
import Lisplet.Proofs.Session.Lines
import Lisplet.Proofs.Environment.Scopes
import Lisplet.Proofs.Environment.History
import Lisplet.Proofs.Evaluation.Account
import Lisplet.Proofs.Evaluation.Meaning
import Lisplet.Proofs.Value.Shapes
import Lisplet.Proofs.Evaluation.FreeNames
import Lisplet.Proofs.Evaluation.Limit
import Lisplet.Proofs.Evaluation.Sequential
import Lisplet.Proofs.Evaluation.Renaming
import Lisplet.Proofs.Evaluation.Containment
import Lisplet.Proofs.Interpreter.New
import Lisplet.Proofs.Interpreter.Deepening
import Lisplet.Proofs.Value.Depth
import Lisplet.Proofs.Session.Invariant
import Lisplet.Proofs.Evaluation.Applications
import Lisplet.Proofs.Evaluation.Frame
import Lisplet.Proofs.Evaluation.Strictness
import Lisplet.Proofs.CommandLine.RunFile
import Lisplet.Proofs.Session.Repetition
