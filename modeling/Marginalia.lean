import Marginalia.Cli.Arguments
import Marginalia.Cli.Disk
import Marginalia.Cli.Environment
import Marginalia.Cli.Failure
import Marginalia.Cli.Host
import Marginalia.Cli.Program
import Marginalia.Cli.Report
import Marginalia.Cli.Settings
import Marginalia.Cli.Subcommand
import Marginalia.Cli.Table
import Marginalia.Content.Grammar
import Marginalia.Content.Lexer
import Marginalia.Content.Operand
import Marginalia.Content.Printer
import Marginalia.Document.CrossReference
import Marginalia.Document.Error
import Marginalia.Document.PageRemoval
import Marginalia.Document.PageTree
import Marginalia.Document.Printer
import Marginalia.Document.Reachability
import Marginalia.Document.Reader
import Marginalia.Document.Resources
import Marginalia.Document.Store
import Marginalia.Document.Text
import Marginalia.File
import Marginalia.Filter.Ascii85
import Marginalia.Filter.Bits
import Marginalia.Filter.Decode
import Marginalia.Filter.Inflate
import Marginalia.Filter.Lzw
import Marginalia.Filter.PngRows
import Marginalia.Font.Chain
import Marginalia.Font.Source
import Marginalia.Font.WinAnsi
import Marginalia.Geometry.Box
import Marginalia.Geometry.Frame
import Marginalia.Geometry.Matrix
import Marginalia.Graphics.Command
import Marginalia.Graphics.Extraction
import Marginalia.Graphics.Machine
import Marginalia.Graphics.State
import Marginalia.Instances
import Marginalia.Json.Interchange
import Marginalia.Json.Printer
import Marginalia.Json.Reader
import Marginalia.Json.Record
import Marginalia.Json.Value
import Marginalia.Main
import Marginalia.Mark.Basic
import Marginalia.Mark.Color
import Marginalia.Mark.DefaultAppearance
import Marginalia.Mark.DefaultStyle
import Marginalia.Mark.Layer
import Marginalia.Mark.Reader
import Marginalia.Mark.Recognition
import Marginalia.Mark.Selection
import Marginalia.Mark.Uuid
import Marginalia.Mark.Writer
import Marginalia.Number.Decimal
import Marginalia.Number.Scalar
import Marginalia.Number.Shortest
import Marginalia.Object.Basic
import Marginalia.Object.Printer
import Marginalia.Object.Reader
import Marginalia.Proofs.Cli.Extraction
import Marginalia.Proofs.Cli.Files
import Marginalia.Proofs.Content.Decoding
import Marginalia.Proofs.Content.Faults
import Marginalia.Proofs.Content.InlineImage
import Marginalia.Proofs.Content.Joining
import Marginalia.Proofs.Content.Printing
import Marginalia.Proofs.Content.Program
import Marginalia.Proofs.Content.Recovering
import Marginalia.Proofs.Content.Spelling
import Marginalia.Proofs.Content.Strict
import Marginalia.Proofs.Content.Succession
import Marginalia.Proofs.Content.Truncation
import Marginalia.Proofs.Content.Written
import Marginalia.Proofs.Document.Content
import Marginalia.Proofs.Document.DeepTree
import Marginalia.Proofs.Document.Edit
import Marginalia.Proofs.Document.Extension
import Marginalia.Proofs.Document.Inherited
import Marginalia.Proofs.Document.Likeness
import Marginalia.Proofs.Document.PageRemoval
import Marginalia.Proofs.Document.PageTree
import Marginalia.Proofs.Document.Reachability
import Marginalia.Proofs.Document.RemainingPages
import Marginalia.Proofs.Document.Renumbering
import Marginalia.Proofs.Document.Resources
import Marginalia.Proofs.Document.Store
import Marginalia.Proofs.Font.Selection
import Marginalia.Proofs.Font.Shown
import Marginalia.Proofs.Font.Substitution
import Marginalia.Proofs.Geometry.Crossing
import Marginalia.Proofs.Geometry.Hull
import Marginalia.Proofs.Graphics.Agreement
import Marginalia.Proofs.Graphics.Guarding
import Marginalia.Proofs.Graphics.Isolation
import Marginalia.Proofs.Graphics.LineStart
import Marginalia.Proofs.Graphics.Nesting
import Marginalia.Proofs.Graphics.Pieces
import Marginalia.Proofs.Graphics.Skipping
import Marginalia.Proofs.Graphics.Translation
import Marginalia.Proofs.Mark.Additions
import Marginalia.Proofs.Mark.Agreement
import Marginalia.Proofs.Mark.Appearance
import Marginalia.Proofs.Mark.Clearing
import Marginalia.Proofs.Mark.ColorText
import Marginalia.Proofs.Mark.Completion
import Marginalia.Proofs.Mark.Corners
import Marginalia.Proofs.Mark.Direct
import Marginalia.Proofs.Mark.Drawing
import Marginalia.Proofs.Mark.FontChoice
import Marginalia.Proofs.Mark.FormResources
import Marginalia.Proofs.Mark.Framing
import Marginalia.Proofs.Mark.History
import Marginalia.Proofs.Mark.Independence
import Marginalia.Proofs.Mark.Layering
import Marginalia.Proofs.Mark.Lines
import Marginalia.Proofs.Mark.Lockstep
import Marginalia.Proofs.Mark.Objects
import Marginalia.Proofs.Mark.OwnText
import Marginalia.Proofs.Mark.PageRemoval
import Marginalia.Proofs.Mark.Parts
import Marginalia.Proofs.Mark.Picking
import Marginalia.Proofs.Mark.ReadingOrder
import Marginalia.Proofs.Mark.Repetition
import Marginalia.Proofs.Mark.Replay
import Marginalia.Proofs.Mark.Rereading
import Marginalia.Proofs.Mark.RoundTrip
import Marginalia.Proofs.Mark.Saving
import Marginalia.Proofs.Mark.Separation
import Marginalia.Proofs.Mark.ShownLines
import Marginalia.Proofs.Mark.Style
import Marginalia.Proofs.Mark.Styling
import Marginalia.Proofs.Mark.Writing
import Marginalia.Proofs.Mark.Zoom
import Marginalia.Proofs.Number.Exact
import Marginalia.Proofs.Number.Numeral
import Marginalia.Proofs.Number.Plain
import Marginalia.Proofs.Object.Dict
import Marginalia.Proofs.Object.Joining
import Marginalia.Proofs.Object.Progress
import Marginalia.Proofs.Object.Reading
import Marginalia.Proofs.Text.Encoding
import Marginalia.Proofs.Text.Guess
import Marginalia.Proofs.Text.Lowering
import Marginalia.Proofs.Text.Words
import Marginalia.Proofs.Text.Wrapping
import Marginalia.Syntax.Byte
import Marginalia.Syntax.Literal
import Marginalia.Text.Blank
import Marginalia.Text.CaseTable
import Marginalia.Text.DigitTable
import Marginalia.Text.Encoding
import Marginalia.Text.HiddenTable
import Marginalia.Text.Lower
import Marginalia.Text.Quoted
import Marginalia.Text.Scan
import Marginalia.Text.Wrapping
