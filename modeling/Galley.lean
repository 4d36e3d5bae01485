import Galley.Canvas.Curve
import Galley.Canvas.Document
import Galley.Canvas.Hotspot
import Galley.Canvas.Painter
import Galley.Canvas.Point
import Galley.Canvas.Surface
import Galley.Canvas.Transform
import Galley.Colour.Basic
import Galley.Colour.Palette
import Galley.CommandLine.Arguments
import Galley.CommandLine.Listing
import Galley.CommandLine.Run
import Galley.Control.Basic
import Galley.Control.Escape
import Galley.Control.Link
import Galley.Control.Paper
import Galley.Control.Resolution
import Galley.Device.Call
import Galley.Device.Session
import Galley.Drawing
import Galley.Font.Style
import Galley.Font.Symbols
import Galley.Glyph.Names
import Galley.Glyph.Resolve
import Galley.Interpreter.Basic
import Galley.Interpreter.Reading
import Galley.Json
import Galley.Main
import Galley.Number.Decimal
import Galley.Number.Integer
import Galley.Number.Notation
import Galley.Number.Scalar
import Galley.Number.Shortest
import Galley.Outline
import Galley.Pdf.Lexeme
import Galley.Pdf.Mark
import Galley.Pdf.Object
import Galley.Pdf.Parse
import Galley.Proofs.Canvas.Anchors
import Galley.Proofs.Canvas.Arcs
import Galley.Proofs.Canvas.Figures
import Galley.Proofs.Canvas.Joining
import Galley.Proofs.Canvas.LinkAreas
import Galley.Proofs.Canvas.PageSizes
import Galley.Proofs.Canvas.Pages
import Galley.Proofs.Canvas.ReversedText
import Galley.Proofs.Canvas.Splines
import Galley.Proofs.Colour.Nearest
import Galley.Proofs.Device.Brackets
import Galley.Proofs.Device.Buffering
import Galley.Proofs.Device.Comments
import Galley.Proofs.Device.Delivery
import Galley.Proofs.Device.Runs
import Galley.Proofs.Device.SelectedFont
import Galley.Proofs.Glyph.Spelling
import Galley.Proofs.Interpreter.Calls
import Galley.Proofs.Interpreter.Characters
import Galley.Proofs.Interpreter.Newlines
import Galley.Proofs.Interpreter.Origins
import Galley.Proofs.Interpreter.Places
import Galley.Proofs.Interpreter.Warnings
import Galley.Proofs.Interpreter.WellFormed
import Galley.Proofs.Number.Bounds
import Galley.Proofs.Number.Double
import Galley.Proofs.Number.Exact
import Galley.Proofs.Number.Integer
import Galley.Proofs.Number.Numeral
import Galley.Proofs.Outline.Nesting
import Galley.Proofs.Outline.Walk
import Galley.Proofs.Pdf.Encodings
import Galley.Proofs.Pdf.Lookup
import Galley.Proofs.Pdf.Marks
import Galley.Proofs.Pdf.Parsing
import Galley.Proofs.Pdf.Progress
import Galley.Proofs.Pdf.Strings
import Galley.Proofs.Pdf.Words
import Galley.Proofs.Pdf.Writing
import Galley.Proofs.Terminal.Boxes
import Galley.Proofs.Terminal.CellColours
import Galley.Proofs.Terminal.Colours
import Galley.Proofs.Terminal.Columns
import Galley.Proofs.Terminal.Cursor
import Galley.Proofs.Terminal.Display
import Galley.Proofs.Terminal.Faces
import Galley.Proofs.Terminal.Invisible
import Galley.Proofs.Terminal.Lines
import Galley.Proofs.Terminal.Positions
import Galley.Proofs.Terminal.Redrawing
import Galley.Proofs.Terminal.Refusal
import Galley.Proofs.Terminal.RowLines
import Galley.Proofs.Terminal.Tags
import Galley.Proofs.Terminal.Trimming
import Galley.Proofs.Terminal.Writes
import Galley.Proofs.Text.Space
import Galley.Proofs.Token.Grammar
import Galley.Proofs.Token.Letters
import Galley.Proofs.Token.LineEnds
import Galley.Proofs.Token.Machine
import Galley.Proofs.Token.Reading
import Galley.Proofs.Token.RoundTrip
import Galley.Proofs.Token.Searches
import Galley.Proofs.Token.Splitting
import Galley.Proofs.Token.TrailingBlanks
import Galley.Proofs.Token.WordBreaks
import Galley.Terminal.Ansi
import Galley.Terminal.Arms
import Galley.Terminal.Document
import Galley.Terminal.Grid
import Galley.Terminal.Line
import Galley.Terminal.Markup
import Galley.Terminal.Screen
import Galley.Text.Encoding
import Galley.Text.Printable
import Galley.Text.Quoted
import Galley.Text.Space
import Galley.Token.Basic
import Galley.Token.Class
import Galley.Token.Table
import Galley.Token.Tokenizer
import Galley.Warning
