import ForeignBindings.Check.Bindings
import ForeignBindings.Check.Diagnostic
import ForeignBindings.Check.Options
import ForeignBindings.Check.Report
import ForeignBindings.CommandLine.Arguments
import ForeignBindings.CommandLine.Grammar
import ForeignBindings.CommandLine.Run
import ForeignBindings.CommandLine.Server
import ForeignBindings.Compiler.Host
import ForeignBindings.Compiler.Message
import ForeignBindings.Compiler.Run
import ForeignBindings.Compiler.Temporary
import ForeignBindings.Compiler.Timeout
import ForeignBindings.Compiler.Verdict
import ForeignBindings.Decimal.Basic
import ForeignBindings.Decimal.Literal
import ForeignBindings.Decimal.Shortest
import ForeignBindings.Declaration.Attributes
import ForeignBindings.Declaration.Basic
import ForeignBindings.Declaration.Scan
import ForeignBindings.Descriptor.Basic
import ForeignBindings.Descriptor.Description
import ForeignBindings.Descriptor.Typescript
import ForeignBindings.Editor.Document
import ForeignBindings.Editor.Server
import ForeignBindings.Editor.Span
import ForeignBindings.Event
import ForeignBindings.Failure
import ForeignBindings.Files.Fault
import ForeignBindings.Files.Path
import ForeignBindings.Files.Tree
import ForeignBindings.Files.Walk
import ForeignBindings.Json.Printer
import ForeignBindings.Json.Reader
import ForeignBindings.Json.Value
import ForeignBindings.Main
import ForeignBindings.Nesting.Depth
import ForeignBindings.Nesting.Literal
import ForeignBindings.Nesting.Piece
import ForeignBindings.Probe.Program
import ForeignBindings.Probe.Target
import ForeignBindings.Project.Configuration
import ForeignBindings.Project.Sources
import ForeignBindings.Text.Basic
import ForeignBindings.Text.Blank
import ForeignBindings.Text.Catalog
import ForeignBindings.Text.Color
import ForeignBindings.Text.Digit
import ForeignBindings.Text.Lines
import ForeignBindings.Text.Printable
import ForeignBindings.Text.Quoted
import ForeignBindings.Text.ShellWords
import ForeignBindings.Text.Utf8
import ForeignBindings.Token.Basic
import ForeignBindings.Token.Lexer
import ForeignBindings.Proofs.Traversal
import ForeignBindings.Proofs.Nesting.Depth
import ForeignBindings.Proofs.Nesting.Literal
import ForeignBindings.Proofs.Nesting.Reading
import ForeignBindings.Proofs.Nesting.Ending
import ForeignBindings.Proofs.Nesting.Quoted
import ForeignBindings.Proofs.Nesting.Splitting
import ForeignBindings.Proofs.Descriptor.Word
import ForeignBindings.Proofs.Descriptor.Step
import ForeignBindings.Proofs.Descriptor.Grammar
import ForeignBindings.Proofs.Descriptor.Unknown
import ForeignBindings.Proofs.Descriptor.Grouping
import ForeignBindings.Proofs.Descriptor.TrailingComma
import ForeignBindings.Proofs.Descriptor.QuotedKey
import ForeignBindings.Proofs.Declaration.Attempt
import ForeignBindings.Proofs.Declaration.Run
import ForeignBindings.Proofs.Declaration.Scope
import ForeignBindings.Proofs.Declaration.Capture
import ForeignBindings.Proofs.Declaration.Recovery
import ForeignBindings.Proofs.Descriptor.Rendering
import ForeignBindings.Proofs.Text.Unique
import ForeignBindings.Proofs.Descriptor.Unambiguous
import ForeignBindings.Proofs.Descriptor.Doubts
import ForeignBindings.Proofs.Probe.LineMap
import ForeignBindings.Proofs.Probe.Import
import ForeignBindings.Proofs.Probe.Query
import ForeignBindings.Proofs.Token.Covering
import ForeignBindings.Proofs.Token.Piece
import ForeignBindings.Proofs.Token.Separator
import ForeignBindings.Proofs.Token.Bare
import ForeignBindings.Proofs.Declaration.Window
import ForeignBindings.Proofs.Declaration.Written
import ForeignBindings.Proofs.Declaration.Setting
import ForeignBindings.Proofs.Declaration.RoundTrip
import ForeignBindings.Proofs.Compiler.Verdict
import ForeignBindings.Proofs.Compiler.Consultation
import ForeignBindings.Proofs.Compiler.FailedImport
import ForeignBindings.Proofs.Compiler.Judgement
import ForeignBindings.Proofs.Compiler.Message
import ForeignBindings.Proofs.Text.Lines
import ForeignBindings.Proofs.Text.Catalog
import ForeignBindings.Proofs.Text.ShellWords
import ForeignBindings.Proofs.Text.Encoding
import ForeignBindings.Proofs.Compiler.Contract
import ForeignBindings.Proofs.Check.Report
import ForeignBindings.Proofs.Check.Success
import ForeignBindings.Proofs.Check.Faults
import ForeignBindings.Proofs.Check.Accounting
import ForeignBindings.Proofs.CommandLine.Status
import ForeignBindings.Proofs.Editor.Session
import ForeignBindings.Proofs.Token.Boundary
import ForeignBindings.Proofs.Token.Place
import ForeignBindings.Proofs.Declaration.Keyword
import ForeignBindings.Proofs.Files.Selection
import ForeignBindings.Proofs.Files.Tree
import ForeignBindings.Proofs.Files.Walk
import ForeignBindings.Proofs.Compiler.Cleanup
import ForeignBindings.Proofs.Editor.Agreement
import ForeignBindings.Proofs.Files.Nested
import ForeignBindings.Proofs.Declaration.Comment
import ForeignBindings.Proofs.Editor.Extent
import ForeignBindings.Proofs.Check.Excerpt
import ForeignBindings.Proofs.Nesting.Escape
import ForeignBindings.Proofs.Declaration.Block
import ForeignBindings.Proofs.Declaration.ScopePath
import ForeignBindings.Proofs.Declaration.Progress
