import DeskCalculator.Clipboard
import DeskCalculator.CommandLine
import DeskCalculator.CommandLine.Arguments
import DeskCalculator.Display
import DeskCalculator.Editor.Commit
import DeskCalculator.Editor.Edit
import DeskCalculator.Editor.Line
import DeskCalculator.Editor.Typing
import DeskCalculator.Evaluation
import DeskCalculator.Evaluation.Preview
import DeskCalculator.Fault
import DeskCalculator.Main
import DeskCalculator.Number.Arithmetic
import DeskCalculator.Number.Bits
import DeskCalculator.Number.Decimal
import DeskCalculator.Number.Double
import DeskCalculator.Number.Numeral
import DeskCalculator.Number.Rounding
import DeskCalculator.Number.Shortest
import DeskCalculator.Operator
import DeskCalculator.Polish.Machine
import DeskCalculator.Polish.Order
import DeskCalculator.Proofs.Contagion
import DeskCalculator.Proofs.Dangling
import DeskCalculator.Proofs.Depth
import DeskCalculator.Proofs.Descent
import DeskCalculator.Proofs.Display.Exact
import DeskCalculator.Proofs.Display.Notation
import DeskCalculator.Proofs.Display.Order
import DeskCalculator.Proofs.Display.Range
import DeskCalculator.Proofs.Display.Rounding
import DeskCalculator.Proofs.Display.Shape
import DeskCalculator.Proofs.Display.Stability
import DeskCalculator.Proofs.Editor.AtEnd
import DeskCalculator.Proofs.Editor.Characters
import DeskCalculator.Proofs.Editor.Commit
import DeskCalculator.Proofs.Editor.Dangling
import DeskCalculator.Proofs.Editor.Edit
import DeskCalculator.Proofs.Editor.Expressions
import DeskCalculator.Proofs.Editor.Frame
import DeskCalculator.Proofs.Editor.Keys
import DeskCalculator.Proofs.Editor.Operators
import DeskCalculator.Proofs.Editor.Points
import DeskCalculator.Proofs.Editor.Start
import DeskCalculator.Proofs.Editor.UpToDate
import DeskCalculator.Proofs.Failure
import DeskCalculator.Proofs.Forest
import DeskCalculator.Proofs.Grammar
import DeskCalculator.Proofs.Number.Decimals
import DeskCalculator.Proofs.Number.Grid
import DeskCalculator.Proofs.Number.Nearest
import DeskCalculator.Proofs.Number.Numerals
import DeskCalculator.Proofs.Number.ReadBack
import DeskCalculator.Proofs.Number.Shortest
import DeskCalculator.Proofs.Number.Significant
import DeskCalculator.Proofs.Parentheses
import DeskCalculator.Proofs.Precedence
import DeskCalculator.Proofs.Preview
import DeskCalculator.Proofs.Reordering
import DeskCalculator.Proofs.Run
import DeskCalculator.Proofs.Session.Answers
import DeskCalculator.Proofs.Session.Copy
import DeskCalculator.Proofs.Session.Cursor
import DeskCalculator.Proofs.Session.Input
import DeskCalculator.Proofs.Session.Replay
import DeskCalculator.Proofs.Session.Requests
import DeskCalculator.Proofs.Substitution
import DeskCalculator.Proofs.Text.Span
import DeskCalculator.Proofs.Token.Conversion
import DeskCalculator.Proofs.Token.Literal
import DeskCalculator.Proofs.Token.Points
import DeskCalculator.Proofs.Token.Runs
import DeskCalculator.Proofs.Token.Scan
import DeskCalculator.Proofs.Token.SecondPoint
import DeskCalculator.Proofs.Token.Separation
import DeskCalculator.Proofs.Token.Spacing
import DeskCalculator.Proofs.Token.Written
import DeskCalculator.Proofs.Tree
import DeskCalculator.Proofs.Trimming
import DeskCalculator.Session
import DeskCalculator.Session.Reply
import DeskCalculator.Session.Request
import DeskCalculator.Settings
import DeskCalculator.Text.Blank
import DeskCalculator.Text.Json
import DeskCalculator.Text.Utf8Lines
import DeskCalculator.Token
import DeskCalculator.Token.Scan
import DeskCalculator.Toml.Document
import DeskCalculator.Toml.Moment
import DeskCalculator.Toml.Quoted
import DeskCalculator.Toml.Scalar
import DeskCalculator.Toml.Table
