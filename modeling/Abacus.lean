import Abacus.Binary64.Basic
import Abacus.Binary64.Rounding
import Abacus.Binary64.Arithmetic
import Abacus.Decimal.Basic
import Abacus.Decimal.Shortest
import Abacus.Decimal.Style
import Abacus.Text.Blank
import Abacus.Text.Slice
import Abacus.Text.Printable
import Abacus.Text.Quoted
import Abacus.Text.Capitals
import Abacus.Token.Basic
import Abacus.Token.Scan
import Abacus.Token.Line
import Abacus.Report
import Abacus.Expr.Basic
import Abacus.Expr.Evaluation
import Abacus.Expr.Precedence
import Abacus.Expr.Parser
import Abacus.Expr.Cursor
import Abacus.Calculation
import Abacus.Session.Stream
import Abacus.Session.Level
import Abacus.Session.Basic
import Abacus.Demo
import Abacus.Main
import Abacus.Proofs.Lookahead
import Abacus.Proofs.Grammar
import Abacus.Proofs.Evaluation
import Abacus.Proofs.Scanning
import Abacus.Proofs.Lexis
import Abacus.Proofs.Totality
import Abacus.Proofs.ViablePrefix
import Abacus.Proofs.Tiling
import Abacus.Proofs.TidyLine
import Abacus.Proofs.Unplaced
import Abacus.Proofs.Caret
import Abacus.Proofs.Writing
import Abacus.Proofs.Brackets
import Abacus.Proofs.Lines
import Abacus.Proofs.Sessions
import Abacus.Proofs.NumberText
import Abacus.Proofs.Newlines
import Abacus.Proofs.TreeEquality
import Abacus.Proofs.ReportLines
import Abacus.Proofs.Spacing
import Abacus.Proofs.Turns
import Abacus.Proofs.Unlimited
import Abacus.Proofs.Nesting
import Abacus.Proofs.Concatenation
import Abacus.Proofs.Frames
import Abacus.Proofs.Moves
import Abacus.Proofs.Actions
import Abacus.Proofs.Powers
import Abacus.Proofs.Breadth
import Abacus.Proofs.Unfinished
import Abacus.Proofs.Chains
import Abacus.Proofs.Excerpts
import Abacus.Proofs.Division
import Abacus.Proofs.Pages
import Abacus.Proofs.Tidiness
import Abacus.Proofs.LongForm
import Abacus.Proofs.LevelNames
import Abacus.Proofs.NearestRank
import Abacus.Proofs.Rounding
