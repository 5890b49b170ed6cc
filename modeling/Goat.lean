import Goat.Builtin
import Goat.Cache.Age
import Goat.Cache.Basic
import Goat.Cache.Build
import Goat.Cache.Database
import Goat.Cache.Driver
import Goat.Cache.Listing
import Goat.Cache.Month
import Goat.Cache.Store
import Goat.Cache.StoreFile
import Goat.Calendar
import Goat.Cli.App
import Goat.Cli.Basic
import Goat.Cli.Build
import Goat.Cli.CacheCommand
import Goat.Cli.Describe
import Goat.Cli.Error
import Goat.Cli.Flag
import Goat.Cli.Run
import Goat.Cli.Shell
import Goat.Cli.Watch
import Goat.Compilation.Basic
import Goat.Compilation.File
import Goat.Compilation.Log
import Goat.Config.Basic
import Goat.Config.Environment
import Goat.Config.Load
import Goat.Config.Reader
import Goat.Config.Scalar
import Goat.Config.Validation
import Goat.Config.Yaml
import Goat.Container.Basic
import Goat.Container.BitStream
import Goat.Container.Crc32
import Goat.Container.Deflate
import Goat.Container.Gzip
import Goat.Container.Huffman
import Goat.Container.LittleEndian
import Goat.Container.Zstd
import Goat.Diagnostic.Catalog
import Goat.Diagnostic.Cause
import Goat.Diagnostic.Failure
import Goat.Diagnostic.Suggestion
import Goat.Diagnostic.Template
import Goat.Duration
import Goat.Emitter.Basic
import Goat.Emitter.Cell
import Goat.Emitter.CellList
import Goat.Emitter.Expr
import Goat.Emitter.Script
import Goat.Emitter.Stmt
import Goat.Hash.Blake2b
import Goat.Help.Format
import Goat.Help.Topic
import Goat.Host.Basic
import Goat.Host.Console
import Goat.Host.Files
import Goat.Host.System
import Goat.Identifier
import Goat.Machine.Basic
import Goat.Machine.Code
import Goat.Main
import Goat.Number.Binary64
import Goat.Number.Decimal
import Goat.Number.Integer
import Goat.Number.Word
import Goat.Path
import Goat.Program.Basic
import Goat.Program.Bracket
import Goat.Program.Operator
import Goat.Program.Parser
import Goat.Program.Printer
import Goat.Proofs.Acceptance
import Goat.Proofs.Agreement
import Goat.Proofs.Allocation
import Goat.Proofs.Arithmetic
import Goat.Proofs.Assignments
import Goat.Proofs.BracketDepth
import Goat.Proofs.BracketPairs
import Goat.Proofs.Brackets
import Goat.Proofs.BuildCache
import Goat.Proofs.Calculation
import Goat.Proofs.Carrying
import Goat.Proofs.Comparison
import Goat.Proofs.Completions
import Goat.Proofs.Composition
import Goat.Proofs.Compression
import Goat.Proofs.Continuation
import Goat.Proofs.Control
import Goat.Proofs.Decimals
import Goat.Proofs.Declarations
import Goat.Proofs.Diagnostics
import Goat.Proofs.EditDistance
import Goat.Proofs.Effects
import Goat.Proofs.Emission
import Goat.Proofs.EndOfInput
import Goat.Proofs.Execution
import Goat.Proofs.ExprPositions
import Goat.Proofs.Expressions
import Goat.Proofs.FirstFit
import Goat.Proofs.FoldedRun
import Goat.Proofs.Folding
import Goat.Proofs.Fuel
import Goat.Proofs.Grammar
import Goat.Proofs.Growth
import Goat.Proofs.Hoisting
import Goat.Proofs.InputOutput
import Goat.Proofs.Interpolation
import Goat.Proofs.LabelledLines
import Goat.Proofs.Limits
import Goat.Proofs.ListWalk
import Goat.Proofs.Lists
import Goat.Proofs.Loading
import Goat.Proofs.LongerCode
import Goat.Proofs.OpenEntries
import Goat.Proofs.Operations
import Goat.Proofs.Ownership
import Goat.Proofs.Partition
import Goat.Proofs.PositionSafety
import Goat.Proofs.Positional
import Goat.Proofs.Positions
import Goat.Proofs.Preservation
import Goat.Proofs.PrintedTokens
import Goat.Proofs.Reading
import Goat.Proofs.Realization
import Goat.Proofs.Reserving
import Goat.Proofs.Respacing
import Goat.Proofs.RoundTrip
import Goat.Proofs.Runs
import Goat.Proofs.Scope
import Goat.Proofs.Sessions
import Goat.Proofs.Simulation
import Goat.Proofs.SizePruning
import Goat.Proofs.SpanBlindness
import Goat.Proofs.SpanErasure
import Goat.Proofs.SpanNesting
import Goat.Proofs.Statements
import Goat.Proofs.Steps
import Goat.Proofs.StoredValues
import Goat.Proofs.Suggestions
import Goat.Proofs.SyntaxErrors
import Goat.Proofs.TapeSafety
import Goat.Proofs.TapeSize
import Goat.Proofs.TrackedPointer
import Goat.Proofs.Transfer
import Goat.Proofs.TrySteps
import Goat.Proofs.Variables
import Goat.Proofs.Watching
import Goat.Proofs.WellFormed
import Goat.Proofs.WordWrap
import Goat.Proofs.WrittenPrograms
import Goat.Repl.Basic
import Goat.Repl.Completion
import Goat.Repl.Directive
import Goat.Repl.History
import Goat.Repl.Pending
import Goat.Repl.Session
import Goat.Size.Printer
import Goat.Size.Reader
import Goat.Span
import Goat.Tape.Builder
import Goat.Tape.Command
import Goat.Tape.Layout
import Goat.Tape.Region
import Goat.Text.Basic
import Goat.Text.Blank
import Goat.Text.Chunk
import Goat.Text.Digit
import Goat.Text.Grouping
import Goat.Text.Html
import Goat.Text.Json
import Goat.Text.Line
import Goat.Text.Lower
import Goat.Text.Printable
import Goat.Text.Quoted
import Goat.Text.Utf8
import Goat.Text.Wrap
import Goat.Token
import Goat.Watch.Basic
import Goat.Watch.Schedule
import Goat.Workspace.Basic
import Goat.Workspace.Tree
