import StructProjection.Batch
import StructProjection.Command.Arguments
import StructProjection.Command.Filter
import StructProjection.Command.Run
import StructProjection.Config
import StructProjection.Config.Printer
import StructProjection.Event
import StructProjection.Failure
import StructProjection.Files.Fault
import StructProjection.Files.Path
import StructProjection.Files.Tree
import StructProjection.Files.Walk
import StructProjection.Formatter
import StructProjection.Go.Diagnostic
import StructProjection.Go.Grammar
import StructProjection.Go.Outline
import StructProjection.Go.Plain.File
import StructProjection.Go.Plain.Token
import StructProjection.Go.Reader
import StructProjection.Go.SourceFile
import StructProjection.Grammar.Automaton
import StructProjection.Grammar.Item
import StructProjection.Grammar.Lexicon
import StructProjection.Grammar.Pattern
import StructProjection.Grammar.Production
import StructProjection.Grammar.Rivals
import StructProjection.Grammar.Rule
import StructProjection.Grammar.Table
import StructProjection.Main
import StructProjection.Parsing.Node
import StructProjection.Parsing.Parse
import StructProjection.Parsing.Recovery
import StructProjection.Parsing.Reduction
import StructProjection.Parsing.Source
import StructProjection.Parsing.Stack
import StructProjection.Parsing.Tree
import StructProjection.Projection
import StructProjection.Proofs.Batch.Agreement
import StructProjection.Proofs.Batch.Alike
import StructProjection.Proofs.Batch.DryRun
import StructProjection.Proofs.Batch.FailFast
import StructProjection.Proofs.Batch.Leftover
import StructProjection.Proofs.Batch.OneFile
import StructProjection.Proofs.Batch.Phases
import StructProjection.Proofs.Batch.Staged
import StructProjection.Proofs.Batch.Staging
import StructProjection.Proofs.Command.Warning
import StructProjection.Proofs.Files.Content
import StructProjection.Proofs.Files.Walk
import StructProjection.Proofs.Go.Body
import StructProjection.Proofs.Go.Layout
import StructProjection.Proofs.Go.LineReader
import StructProjection.Proofs.Go.Linewise
import StructProjection.Proofs.Projection.Disjoint
import StructProjection.Proofs.Projection.Idempotence
import StructProjection.Proofs.Projection.Joined
import StructProjection.Proofs.Projection.Line
import StructProjection.Proofs.Projection.Preservation
import StructProjection.Proofs.Projection.Seams
import StructProjection.Proofs.Projection.Site
import StructProjection.Proofs.Projection.Stretch
import StructProjection.Rules
import StructProjection.Selection
import StructProjection.Settings
import StructProjection.Shell.Run
import StructProjection.Shell.Script
import StructProjection.Text.Blank
import StructProjection.Text.Bytes
import StructProjection.Text.Decimal
import StructProjection.Text.Letter
import StructProjection.Text.Quoted
import StructProjection.Text.Ranges
import StructProjection.Text.Removal
import StructProjection.Text.Utf8
import StructProjection.Toml.Document
import StructProjection.Toml.Expression
import StructProjection.Toml.Fault
import StructProjection.Toml.Printer
import StructProjection.Toml.Scalar
import StructProjection.Toml.Token
import StructProjection.Proofs.Files.Kind
import StructProjection.Proofs.Files.Resolve
import StructProjection.Proofs.Files.Component
import StructProjection.Proofs.Files.Order
import StructProjection.Proofs.Selection
import StructProjection.Proofs.Batch.Frame
import StructProjection.Proofs.Command.Arguments
import StructProjection.Proofs.Command.Listing
import StructProjection.Proofs.Go.Terminator
import StructProjection.Proofs.Parsing.Tree
import StructProjection.Proofs.Batch.Report
import StructProjection.Proofs.Projection.Header
import StructProjection.Proofs.Projection.Slices
import StructProjection.Proofs.Batch.Settled
import StructProjection.Proofs.Projection.Formatted
import StructProjection.Proofs.Go.Docs
import StructProjection.Proofs.Go.Shape
import StructProjection.Proofs.Stripping
import StructProjection.Proofs.Projection.AnyBody
import StructProjection.Proofs.Command.Exclusion
import StructProjection.Proofs.Batch.Formatting
import StructProjection.Proofs.Parsing.FirstError
import StructProjection.Proofs.Go.TopLevel
import StructProjection.Proofs.Results
import StructProjection.Proofs.Lists
import StructProjection.Proofs.Toml.Strings
import StructProjection.Proofs.Toml.Tokens
import StructProjection.Proofs.Toml.Values
import StructProjection.Proofs.Toml.Entries
import StructProjection.Proofs.Toml.Rows
import StructProjection.Proofs.Toml.Sheets
import StructProjection.Proofs.Toml.TopKeys
import StructProjection.Proofs.Config.Decoding
import StructProjection.Proofs.Config.Reading
import StructProjection.Proofs.Projection.Location
import StructProjection.Proofs.Projection.Bounds
import StructProjection.Proofs.Batch.Tally
