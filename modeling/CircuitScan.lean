import CircuitScan.Assoc
import CircuitScan.Automaton
import CircuitScan.Command
import CircuitScan.Command.Options
import CircuitScan.Diagnostic
import CircuitScan.Diagnostic.Excerpt
import CircuitScan.Fault
import CircuitScan.FileTree
import CircuitScan.Graph
import CircuitScan.Json.Fault
import CircuitScan.Json.Number
import CircuitScan.Json.Reader
import CircuitScan.Json.Text
import CircuitScan.Json.Value
import CircuitScan.Kind
import CircuitScan.Label
import CircuitScan.LoadError
import CircuitScan.Main
import CircuitScan.Matcher
import CircuitScan.Path
import CircuitScan.Pattern
import CircuitScan.Pattern.Compile
import CircuitScan.Position
import CircuitScan.Proofs.Between
import CircuitScan.Proofs.Building
import CircuitScan.Proofs.Builtin.Cut
import CircuitScan.Proofs.Builtin.Lexer
import CircuitScan.Proofs.Builtin.Lexicon
import CircuitScan.Proofs.Builtin.Reports
import CircuitScan.Proofs.Caret
import CircuitScan.Proofs.CommentLine
import CircuitScan.Proofs.Completion
import CircuitScan.Proofs.Cover
import CircuitScan.Proofs.Cursor
import CircuitScan.Proofs.Cut
import CircuitScan.Proofs.DeclaredEdges
import CircuitScan.Proofs.Entries
import CircuitScan.Proofs.GraphEdges
import CircuitScan.Proofs.GraphFaults
import CircuitScan.Proofs.GraphOrder
import CircuitScan.Proofs.Json.Written
import CircuitScan.Proofs.LabelReading
import CircuitScan.Proofs.Lines
import CircuitScan.Proofs.Listing
import CircuitScan.Proofs.Loading
import CircuitScan.Proofs.LockStep
import CircuitScan.Proofs.LongestMatch
import CircuitScan.Proofs.MatcherText
import CircuitScan.Proofs.MaximalMunch
import CircuitScan.Proofs.Overflow
import CircuitScan.Proofs.Pattern.Clash
import CircuitScan.Proofs.Pattern.Grammar
import CircuitScan.Proofs.Pattern.Language
import CircuitScan.Proofs.Pattern.Literal
import CircuitScan.Proofs.Piece
import CircuitScan.Proofs.Places
import CircuitScan.Proofs.PositionOrder
import CircuitScan.Proofs.PrefixFree
import CircuitScan.Proofs.Ranking
import CircuitScan.Proofs.Refinement
import CircuitScan.Proofs.Registration
import CircuitScan.Proofs.Related
import CircuitScan.Proofs.Reuse
import CircuitScan.Proofs.ScanInvariant
import CircuitScan.Proofs.Success
import CircuitScan.Proofs.TableEdges
import CircuitScan.Proofs.Uncommented
import CircuitScan.Proofs.WrittenEntries
import CircuitScan.ReadFault
import CircuitScan.Recognizer
import CircuitScan.Registry
import CircuitScan.Registry.Builtin
import CircuitScan.Registry.Declaration
import CircuitScan.Registry.Entry
import CircuitScan.Registry.Source
import CircuitScan.Scanner
import CircuitScan.Table
import CircuitScan.Text.Blank
import CircuitScan.Text.Decimal
import CircuitScan.Text.Line
import CircuitScan.Text.Printable
import CircuitScan.Text.Quoted
import CircuitScan.Text.Split
import CircuitScan.Token
