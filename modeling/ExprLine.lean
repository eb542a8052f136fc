import ExprLine.Analysis.Artifact
import ExprLine.Analysis.Basic
import ExprLine.Analysis.Run
import ExprLine.Command.Flag
import ExprLine.Command.Options
import ExprLine.Command.Session
import ExprLine.Command.Usage
import ExprLine.Command.Word
import ExprLine.Diagnostic
import ExprLine.Editor.Hover
import ExprLine.Editor.Marker
import ExprLine.Editor.Position
import ExprLine.Editor.Workspace
import ExprLine.Fault
import ExprLine.FaultCode
import ExprLine.Grammar.Descent
import ExprLine.Grammar.Production
import ExprLine.Grammar.Verdict
import ExprLine.Json.Basic
import ExprLine.Json.Lexeme
import ExprLine.Json.Printer
import ExprLine.Json.Reader
import ExprLine.Main
import ExprLine.Proofs.Agreement
import ExprLine.Proofs.ArtifactPath
import ExprLine.Proofs.Balance
import ExprLine.Proofs.Calls
import ExprLine.Proofs.CaretLine
import ExprLine.Proofs.Channels
import ExprLine.Proofs.CodeUnits
import ExprLine.Proofs.Contract
import ExprLine.Proofs.Coordinates
import ExprLine.Proofs.Cursor
import ExprLine.Proofs.Delivery
import ExprLine.Proofs.DepthLimit
import ExprLine.Proofs.Derivation
import ExprLine.Proofs.Drawing
import ExprLine.Proofs.DrawnDerivation
import ExprLine.Proofs.EarliestError
import ExprLine.Proofs.EarlyStop
import ExprLine.Proofs.Encoding
import ExprLine.Proofs.ErrorPrefix
import ExprLine.Proofs.ExitStatus
import ExprLine.Proofs.Folders
import ExprLine.Proofs.Footprint
import ExprLine.Proofs.Grouping
import ExprLine.Proofs.Hovering
import ExprLine.Proofs.Lexing
import ExprLine.Proofs.Marking
import ExprLine.Proofs.Outcome
import ExprLine.Proofs.Placement
import ExprLine.Proofs.Pointing
import ExprLine.Proofs.Recognition
import ExprLine.Proofs.Relocation
import ExprLine.Proofs.Respacing
import ExprLine.Proofs.Respelling
import ExprLine.Proofs.Scanner
import ExprLine.Proofs.SideChannel
import ExprLine.Proofs.Simulation
import ExprLine.Proofs.TableHistory
import ExprLine.Proofs.Tabulation
import ExprLine.Proofs.TokenStream
import ExprLine.Proofs.Traversal
import ExprLine.Proofs.TreeSize
import ExprLine.Proofs.WireForm
import ExprLine.Record.Checked
import ExprLine.Record.Document
import ExprLine.Record.Reader
import ExprLine.Record.Scalar
import ExprLine.Record.Wire
import ExprLine.Report.Basic
import ExprLine.Report.Caret
import ExprLine.Report.Table
import ExprLine.Storage.Disk
import ExprLine.Storage.Path
import ExprLine.SymbolTable
import ExprLine.Text.Charset
import ExprLine.Text.Digit
import ExprLine.Text.Hex
import ExprLine.Text.Line
import ExprLine.Text.Pieces
import ExprLine.Text.Printable
import ExprLine.Text.Quoted
import ExprLine.Text.Slice
import ExprLine.Text.Stream
import ExprLine.Token.Basic
import ExprLine.Token.Lexer
import ExprLine.Tree.Basic
import ExprLine.Tree.Sketch
