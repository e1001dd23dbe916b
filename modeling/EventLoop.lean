import EventLoop.CommandLine.Execute
import EventLoop.CommandLine.Options
import EventLoop.CommandLine.Prompt
import EventLoop.CommandLine.Words
import EventLoop.Evaluation.Builtins
import EventLoop.Evaluation.Call
import EventLoop.Evaluation.Console
import EventLoop.Evaluation.Expr
import EventLoop.Evaluation.Reactions
import EventLoop.Evaluation.Statement
import EventLoop.Evaluation.Timers
import EventLoop.Evaluation.Turn
import EventLoop.Machine.Actions
import EventLoop.Machine.Basic
import EventLoop.Machine.Inspection
import EventLoop.Machine.Promises
import EventLoop.Machine.Queues
import EventLoop.Machine.Scopes
import EventLoop.Main
import EventLoop.Number.Dyadic
import EventLoop.Number.Numeral
import EventLoop.Number.Positional
import EventLoop.Number.Remainder
import EventLoop.Number.Shortest
import EventLoop.Parsing.Functions
import EventLoop.Parsing.Level
import EventLoop.Parsing.Operands
import EventLoop.Parsing.Operators
import EventLoop.Parsing.Program
import EventLoop.Parsing.Skip
import EventLoop.Parsing.Statements
import EventLoop.Parsing.Stream
import EventLoop.Parsing.SyntaxError
import EventLoop.Parsing.Words
import EventLoop.Proofs.AcceptedPrograms
import EventLoop.Proofs.Adoption
import EventLoop.Proofs.Agreement
import EventLoop.Proofs.Attribution
import EventLoop.Proofs.Boundaries
import EventLoop.Proofs.Brackets
import EventLoop.Proofs.CallDepth
import EventLoop.Proofs.CallStack
import EventLoop.Proofs.CarriageReturns
import EventLoop.Proofs.Catches
import EventLoop.Proofs.Congruence
import EventLoop.Proofs.Definedness
import EventLoop.Proofs.DisplacedPrograms
import EventLoop.Proofs.Displacement
import EventLoop.Proofs.Doubles
import EventLoop.Proofs.Draining
import EventLoop.Proofs.Echo
import EventLoop.Proofs.Effects
import EventLoop.Proofs.Enactment
import EventLoop.Proofs.EnclosedExpressions
import EventLoop.Proofs.Enclosure
import EventLoop.Proofs.Extent
import EventLoop.Proofs.FrameNodes
import EventLoop.Proofs.Generations
import EventLoop.Proofs.History
import EventLoop.Proofs.HoistedRuns
import EventLoop.Proofs.Hoisting
import EventLoop.Proofs.Hosts
import EventLoop.Proofs.Invocations
import EventLoop.Proofs.Isolation
import EventLoop.Proofs.Judgement
import EventLoop.Proofs.Ledger
import EventLoop.Proofs.Lexemes
import EventLoop.Proofs.LineEndings
import EventLoop.Proofs.Logged
import EventLoop.Proofs.LoggedGrammar
import EventLoop.Proofs.LoggedReading
import EventLoop.Proofs.LogicalClock
import EventLoop.Proofs.Microtasks
import EventLoop.Proofs.Mirror
import EventLoop.Proofs.Movements
import EventLoop.Proofs.Moves
import EventLoop.Proofs.NestedExpressions
import EventLoop.Proofs.NestedFunctions
import EventLoop.Proofs.NestedStatements
import EventLoop.Proofs.NestingLimit
import EventLoop.Proofs.NumberTexts
import EventLoop.Proofs.Observation
import EventLoop.Proofs.Operands
import EventLoop.Proofs.Outcomes
import EventLoop.Proofs.Passages
import EventLoop.Proofs.Playback
import EventLoop.Proofs.Precedence
import EventLoop.Proofs.Printing
import EventLoop.Proofs.Provenance
import EventLoop.Proofs.ReadingLog
import EventLoop.Proofs.Reparsing
import EventLoop.Proofs.Respelling
import EventLoop.Proofs.RunToCompletion
import EventLoop.Proofs.Schedule
import EventLoop.Proofs.ScopeChains
import EventLoop.Proofs.Scripts
import EventLoop.Proofs.Settlement
import EventLoop.Proofs.Settlers
import EventLoop.Proofs.SingleActions
import EventLoop.Proofs.SkippedLines
import EventLoop.Proofs.SkippedParts
import EventLoop.Proofs.Soundness
import EventLoop.Proofs.Sources
import EventLoop.Proofs.Spellings
import EventLoop.Proofs.StableOrder
import EventLoop.Proofs.StepLines
import EventLoop.Proofs.Streams
import EventLoop.Proofs.Strict
import EventLoop.Proofs.Subscriptions
import EventLoop.Proofs.Substitutions
import EventLoop.Proofs.SyntaxNodes
import EventLoop.Proofs.SyntaxTrees
import EventLoop.Proofs.Tasks
import EventLoop.Proofs.TextOrder
import EventLoop.Proofs.ThrownLines
import EventLoop.Proofs.Tiling
import EventLoop.Proofs.Trace
import EventLoop.Proofs.Transparency
import EventLoop.Proofs.Truncation
import EventLoop.Proofs.Turns
import EventLoop.Proofs.Unescaping
import EventLoop.Proofs.WellFormed
import EventLoop.Report.Document
import EventLoop.Report.Line
import EventLoop.Report.Records
import EventLoop.Run
import EventLoop.Session
import EventLoop.Settings.Basic
import EventLoop.Settings.Reader
import EventLoop.Settings.Token
import EventLoop.Source.Cursor
import EventLoop.Source.Position
import EventLoop.Syntax.NodeKind
import EventLoop.Syntax.Operator
import EventLoop.Syntax.Tree
import EventLoop.Text.Alphabetic
import EventLoop.Text.Classes
import EventLoop.Text.Numeric
import EventLoop.Text.Ranges
import EventLoop.Text.Units
import EventLoop.Token.Basic
import EventLoop.Token.Keyword
import EventLoop.Token.Lexer
import EventLoop.Token.Number
import EventLoop.Token.Punctuator
import EventLoop.Token.Quoted
import EventLoop.Token.Trivia
import EventLoop.Trace.Diagnostic
import EventLoop.Trace.Step
import EventLoop.Value.Basic
import EventLoop.Value.Builtin
import EventLoop.Value.Operations
