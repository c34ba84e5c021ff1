import LoxLexer.Directory
import LoxLexer.Command.Run
import LoxLexer.Main
import LoxLexer.Proofs.Text.Encoding
import LoxLexer.Proofs.Text.Slice
import LoxLexer.Proofs.Text.WellFormed
import LoxLexer.Proofs.Text.OsString
import LoxLexer.Proofs.Segment.Grammar
import LoxLexer.Proofs.Segment.Longest
import LoxLexer.Proofs.Segment.Pieces
import LoxLexer.Proofs.Number.Lexeme
import LoxLexer.Proofs.Segment.Placement
import LoxLexer.Proofs.Diagnostics.Machine
import LoxLexer.Proofs.Cursor.Basic
import LoxLexer.Proofs.Cursor.Simulation
import LoxLexer.Proofs.Cursor.Lines
import LoxLexer.Proofs.Cursor.Boundaries
import LoxLexer.Proofs.Segment.Stops
import LoxLexer.Proofs.Scan.Basic
import LoxLexer.Proofs.Lexeme.Basic
import LoxLexer.Proofs.Lexeme.Separated
import LoxLexer.Proofs.Lexeme.Adjacent
import LoxLexer.Proofs.Scan.Cleaned
import LoxLexer.Proofs.Scan.Joined
import LoxLexer.Proofs.Scan.Closed
import LoxLexer.Proofs.Scan.Local
import LoxLexer.Proofs.Lexeme.Respaced
import LoxLexer.Proofs.Lexeme.Printed
import LoxLexer.Proofs.Scan.Blind
import LoxLexer.Proofs.Scan.LineEnds
import LoxLexer.Proofs.Builtin.Arguments
import LoxLexer.Proofs.Builtin.Log
import LoxLexer.Proofs.Command.Program
import LoxLexer.Proofs.Command.Outcome
import LoxLexer.Proofs.Command.Logging
import LoxLexer.Proofs.Command.Reading
import LoxLexer.Proofs.Number.Magnitude
import LoxLexer.Proofs.Number.Stretch
import LoxLexer.Proofs.Number.Nearest
import LoxLexer.Proofs.Number.Digits
import LoxLexer.Proofs.Number.Search
import LoxLexer.Proofs.Number.Shortest
import LoxLexer.Proofs.Number.Signed
import LoxLexer.Proofs.Number.Shown
import LoxLexer.Proofs.Number.Typed
