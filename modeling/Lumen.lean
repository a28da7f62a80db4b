import Lumen.Builtin
import Lumen.CommandLine
import Lumen.Decimal.Layout
import Lumen.Decimal.Reader
import Lumen.Decimal.Shortest
import Lumen.Diagnostic
import Lumen.Double
import Lumen.Eval
import Lumen.Fault
import Lumen.Json
import Lumen.Json.Arithmetic
import Lumen.Json.Reader
import Lumen.Json.Writer
import Lumen.Machine
import Lumen.Main
import Lumen.Node
import Lumen.Node.Kind
import Lumen.Node.Parser
import Lumen.Operation
import Lumen.Operator
import Lumen.Position
import Lumen.Proofs.Decimal.Whole
import Lumen.Proofs.Double.Normal
import Lumen.Proofs.Double.Order
import Lumen.Proofs.Eval.Assignment
import Lumen.Proofs.Eval.Frame
import Lumen.Proofs.Eval.Indexing
import Lumen.Proofs.Eval.Invariant
import Lumen.Proofs.Eval.Lists
import Lumen.Proofs.Eval.Loops
import Lumen.Proofs.Eval.Operands
import Lumen.Proofs.Eval.Origin
import Lumen.Proofs.Eval.Origin.Operations
import Lumen.Proofs.Eval.Origin.Rules
import Lumen.Proofs.Eval.Origin.Run
import Lumen.Proofs.Eval.Origin.Spans
import Lumen.Proofs.Eval.Places
import Lumen.Proofs.Eval.Returning
import Lumen.Proofs.Eval.Room
import Lumen.Proofs.Eval.Rounds
import Lumen.Proofs.Eval.Rules
import Lumen.Proofs.Eval.Safety
import Lumen.Proofs.Eval.Safety.Rules
import Lumen.Proofs.Eval.Safety.Run
import Lumen.Proofs.Eval.Scoping
import Lumen.Proofs.Eval.Shape
import Lumen.Proofs.Eval.Signals
import Lumen.Proofs.Eval.Simulation
import Lumen.Proofs.Eval.Simulation.Operations
import Lumen.Proofs.Eval.Simulation.Rules
import Lumen.Proofs.Eval.Simulation.Run
import Lumen.Proofs.Eval.Termination
import Lumen.Proofs.Eval.Tracing
import Lumen.Proofs.Eval.Tracing.Rules
import Lumen.Proofs.Eval.Tracing.Run
import Lumen.Proofs.Eval.Values
import Lumen.Proofs.Exec
import Lumen.Proofs.Grammar
import Lumen.Proofs.Grammar.Append
import Lumen.Proofs.Grammar.Brackets
import Lumen.Proofs.Grammar.Dues
import Lumen.Proofs.Grammar.Greedy
import Lumen.Proofs.Grammar.Move
import Lumen.Proofs.Grammar.Prefixes
import Lumen.Proofs.Grammar.Respace
import Lumen.Proofs.Grammar.Shape
import Lumen.Proofs.Grammar.Spaced
import Lumen.Proofs.Grammar.Tails
import Lumen.Proofs.Literal
import Lumen.Proofs.Literal.Program
import Lumen.Proofs.Literal.ReadBack
import Lumen.Proofs.Literal.Scan
import Lumen.Proofs.Node.Confined
import Lumen.Proofs.Node.Extent
import Lumen.Proofs.Node.Move
import Lumen.Proofs.Node.Order
import Lumen.Proofs.Node.WellMade
import Lumen.Proofs.Node.Words
import Lumen.Proofs.Operation
import Lumen.Proofs.Operation.Access
import Lumen.Proofs.Operation.Logic
import Lumen.Proofs.Operation.Refusals
import Lumen.Proofs.Operation.Timely
import Lumen.Proofs.Parser.Chains
import Lumen.Proofs.Parser.Completeness
import Lumen.Proofs.Parser.Ensures
import Lumen.Proofs.Parser.Lookahead
import Lumen.Proofs.Parser.Loops
import Lumen.Proofs.Parser.Nesting
import Lumen.Proofs.Parser.Newlines
import Lumen.Proofs.Parser.Places
import Lumen.Proofs.Parser.Prefixes
import Lumen.Proofs.Parser.Refusals
import Lumen.Proofs.Parser.RoundTrip
import Lumen.Proofs.Parser.Runs
import Lumen.Proofs.Parser.Soundness
import Lumen.Proofs.Parser.Termination
import Lumen.Proofs.Parser.Viable
import Lumen.Proofs.Session
import Lumen.Proofs.Shell
import Lumen.Proofs.Shell.Buffer
import Lumen.Proofs.Shell.Lines
import Lumen.Proofs.Store.Aligned
import Lumen.Proofs.Store.Chain
import Lumen.Proofs.Store.Holds
import Lumen.Proofs.Store.Nested
import Lumen.Proofs.Store.Sound
import Lumen.Proofs.Token.Coordinates
import Lumen.Proofs.Token.Join
import Lumen.Proofs.Token.Scan
import Lumen.Proofs.Token.Spelling
import Lumen.Proofs.Token.Tiling
import Lumen.Proofs.Tree.Acceptance
import Lumen.Proofs.Tree.Judged
import Lumen.Proofs.Tree.Replay
import Lumen.Proofs.Tree.RoundTrip
import Lumen.Run
import Lumen.Scalar
import Lumen.Shell
import Lumen.Span
import Lumen.Store
import Lumen.Store.Display
import Lumen.Text.Blank
import Lumen.Text.Case
import Lumen.Text.CodeRange
import Lumen.Text.Digit
import Lumen.Text.Letter
import Lumen.Text.Newline
import Lumen.Text.Quoted
import Lumen.Token
import Lumen.Token.Lexer
import Lumen.Tree
import Lumen.Tree.Node
import Lumen.Tree.Reading
import Lumen.Value
import Lumen.Value.Kind
import Lumen.Workbench
import Lumen.Proofs.Json.RoundTrip
