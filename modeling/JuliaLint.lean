import JuliaLint.Text.Basic
import JuliaLint.Text.Blank
import JuliaLint.Text.Line
import JuliaLint.Text.Order
import JuliaLint.Text.Position
import JuliaLint.Text.Quoted
import JuliaLint.Text.Identifier
import JuliaLint.Text.Utf8
import JuliaLint.Pattern
import JuliaLint.Ranking
import JuliaLint.Tally
import JuliaLint.Table
import JuliaLint.Finding
import JuliaLint.Rule.Basic
import JuliaLint.Rule.Battery
import JuliaLint.Decimal.Shortest
import JuliaLint.Decimal.Numeral
import JuliaLint.Config.Value
import JuliaLint.Config.Basic
import JuliaLint.Config.Fault
import JuliaLint.Config.Reading
import JuliaLint.Inspection
import JuliaLint.Repair
import JuliaLint.Report
import JuliaLint.Session
import JuliaLint.CommandLine
import JuliaLint.Workspace
import JuliaLint.Main
import JuliaLint.Proofs.Patchwork
import JuliaLint.Proofs.PatchOrder
import JuliaLint.Proofs.Scanning
import JuliaLint.Proofs.MembershipGrammar
import JuliaLint.Proofs.Reporting
import JuliaLint.Proofs.Rewriting
import JuliaLint.Proofs.Settling
import JuliaLint.Proofs.Relabelling
import JuliaLint.Proofs.Assembly
import JuliaLint.Proofs.MembershipReading
import JuliaLint.Proofs.Leftovers
import JuliaLint.Proofs.Defaulting
import JuliaLint.Proofs.MatchShapes
import JuliaLint.Proofs.FilterAgreement
import JuliaLint.Proofs.RewriteGrammar
import JuliaLint.Proofs.WellFormedText
import JuliaLint.Proofs.PairSafety
import JuliaLint.Proofs.Pieces
import JuliaLint.Proofs.ClosingLines
import JuliaLint.Proofs.QuotedSegments
import JuliaLint.Proofs.Names
import JuliaLint.Proofs.CatchClauses
import JuliaLint.Proofs.WholeWords
import JuliaLint.Proofs.FieldOrder
import JuliaLint.Proofs.ConfigFaults
import JuliaLint.Proofs.CompleteConfigs
import JuliaLint.Proofs.QuoteParity
import JuliaLint.Proofs.PatchAccounting
import JuliaLint.Proofs.Seams
import JuliaLint.Proofs.LineEndings
import JuliaLint.Proofs.PartedNames
import JuliaLint.Proofs.Coordinates
import JuliaLint.Proofs.QuotedLists
import JuliaLint.Proofs.ReportedPlaces
import JuliaLint.Proofs.ReportLines
import JuliaLint.Proofs.FrequencyTables
