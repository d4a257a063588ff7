import SafariScript.CommandLine.Options
import SafariScript.CommandLine.Run
import SafariScript.Diagnostic
import SafariScript.Eval.Basic
import SafariScript.Eval.Builtin
import SafariScript.Eval.Comparison
import SafariScript.Eval.Interpreter
import SafariScript.Eval.Loop
import SafariScript.Eval.Operator
import SafariScript.Eval.Rendering
import SafariScript.Event
import SafariScript.Failure
import SafariScript.Fault
import SafariScript.Literal
import SafariScript.Main
import SafariScript.Objects.Arguments
import SafariScript.Objects.CatchRates
import SafariScript.Objects.Construct
import SafariScript.Objects.Member
import SafariScript.Objects.Team
import SafariScript.Objects.Zone
import SafariScript.Parser.Basic
import SafariScript.Parser.Complaint
import SafariScript.Parser.Expression
import SafariScript.Parser.Recovery
import SafariScript.Parser.Statement
import SafariScript.Program
import SafariScript.Program.Display
import SafariScript.Program.Height
import SafariScript.Proofs.Arguments
import SafariScript.Proofs.Chance
import SafariScript.Proofs.Chunking
import SafariScript.Proofs.Display.Lossless
import SafariScript.Proofs.Display.Quoted
import SafariScript.Proofs.Display.Syntax
import SafariScript.Proofs.Display.Tree
import SafariScript.Proofs.Eval.Atomicity
import SafariScript.Proofs.Eval.BulkChanges
import SafariScript.Proofs.Eval.CatchAttempts
import SafariScript.Proofs.Eval.ControlFlow
import SafariScript.Proofs.Eval.Convergence
import SafariScript.Proofs.Eval.Declarations
import SafariScript.Proofs.Eval.Division
import SafariScript.Proofs.Eval.Echo
import SafariScript.Proofs.Eval.Effect
import SafariScript.Proofs.Eval.Equality
import SafariScript.Proofs.Eval.Execution
import SafariScript.Proofs.Eval.Exploration
import SafariScript.Proofs.Eval.Interruption
import SafariScript.Proofs.Eval.Iteration
import SafariScript.Proofs.Eval.Nesting
import SafariScript.Proofs.Eval.ObjectBounds
import SafariScript.Proofs.Eval.ObjectRefusals
import SafariScript.Proofs.Eval.Objects
import SafariScript.Proofs.Eval.Operations
import SafariScript.Proofs.Eval.Passes
import SafariScript.Proofs.Eval.Places
import SafariScript.Proofs.Eval.Refusals
import SafariScript.Proofs.Eval.Registers
import SafariScript.Proofs.Eval.ScopeChains
import SafariScript.Proofs.Eval.Termination
import SafariScript.Proofs.Failures
import SafariScript.Proofs.Grammar
import SafariScript.Proofs.LineBreaks
import SafariScript.Proofs.Lockstep.Basic
import SafariScript.Proofs.Lockstep.Interpreter
import SafariScript.Proofs.Lockstep.Objects
import SafariScript.Proofs.Parser.Conclusion
import SafariScript.Proofs.Parser.Context
import SafariScript.Proofs.Parser.Counting
import SafariScript.Proofs.Parser.ExpressionCompleteness
import SafariScript.Proofs.Parser.ExpressionContext
import SafariScript.Proofs.Parser.ExpressionRepetition
import SafariScript.Proofs.Parser.ExpressionRoundTrip
import SafariScript.Proofs.Parser.ExpressionSoundness
import SafariScript.Proofs.Parser.Interactive
import SafariScript.Proofs.Parser.Isolation
import SafariScript.Proofs.Parser.Notes
import SafariScript.Proofs.Parser.Omission
import SafariScript.Proofs.Parser.Reading
import SafariScript.Proofs.Parser.Recovery
import SafariScript.Proofs.Parser.Repetition
import SafariScript.Proofs.Parser.StatementCompleteness
import SafariScript.Proofs.Parser.StatementContext
import SafariScript.Proofs.Parser.StatementRepetition
import SafariScript.Proofs.Parser.StatementRoundTrip
import SafariScript.Proofs.Parser.StatementSoundness
import SafariScript.Proofs.Parser.Totality
import SafariScript.Proofs.Parser.Turns
import SafariScript.Proofs.Placement
import SafariScript.Proofs.Queue
import SafariScript.Proofs.Shell.Buffering
import SafariScript.Proofs.Shell.Continuation
import SafariScript.Proofs.Shell.LineNumbers
import SafariScript.Proofs.Shell.Pieces
import SafariScript.Proofs.Shell.Reports
import SafariScript.Proofs.Step
import SafariScript.Proofs.Token.Lexicon
import SafariScript.Proofs.Token.Lines
import SafariScript.Proofs.Token.Numbers
import SafariScript.Proofs.Token.Rescanning
import SafariScript.Proofs.Token.Segments
import SafariScript.Proofs.Token.Spelling
import SafariScript.Proofs.Variables
import SafariScript.Proofs.Visibility
import SafariScript.Proofs.Words
import SafariScript.Proofs.Written
import SafariScript.Random.Source
import SafariScript.Random.Twister
import SafariScript.Reporter
import SafariScript.Scopes
import SafariScript.Session
import SafariScript.Shell
import SafariScript.Source
import SafariScript.Stack
import SafariScript.Text.Blank
import SafariScript.Text.Digit
import SafariScript.Text.Integer
import SafariScript.Text.Lowercase
import SafariScript.Text.NameOrder
import SafariScript.Text.Newline
import SafariScript.Text.Quoted
import SafariScript.Text.Utf8
import SafariScript.Token
import SafariScript.Token.Scan
import SafariScript.Token.Segment
import SafariScript.Value
import SafariScript.Word
import SafariScript.World
