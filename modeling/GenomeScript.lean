import GenomeScript.Text
import GenomeScript.Numeral
import GenomeScript.Operator
import GenomeScript.Store.Entries
import GenomeScript.Store.Basic
import GenomeScript.Token
import GenomeScript.Reading
import GenomeScript.Command
import GenomeScript.Expression
import GenomeScript.Genome
import GenomeScript.Report
import GenomeScript.Terminal
import GenomeScript.Session
import GenomeScript.CommandLine.Settings
import GenomeScript.CommandLine.Words
import GenomeScript.Program
import GenomeScript.Main
import GenomeScript.Proofs.Literals
import GenomeScript.Proofs.Grammar
import GenomeScript.Proofs.Lookahead
import GenomeScript.Proofs.Parsing
import GenomeScript.Proofs.Depth
import GenomeScript.Proofs.Canonical
import GenomeScript.Proofs.Machine
import GenomeScript.Proofs.LoneExpression
import GenomeScript.Proofs.Replay
import GenomeScript.Proofs.Runs
import GenomeScript.Proofs.Layout
import GenomeScript.Proofs.Blame
import GenomeScript.Proofs.Joining
import GenomeScript.Proofs.Writes
import GenomeScript.Proofs.Frame
import GenomeScript.Proofs.WriteOnly
import GenomeScript.Proofs.Noninterference
import GenomeScript.Proofs.ByteOrder
import GenomeScript.Proofs.History
import GenomeScript.Proofs.LineNumbers
import GenomeScript.Proofs.Drawing
import GenomeScript.Proofs.Excerpts
import GenomeScript.Proofs.Listing
import GenomeScript.Proofs.Reachable
import GenomeScript.Proofs.Balance
import GenomeScript.Proofs.Unfinished
import GenomeScript.Proofs.Finality
import GenomeScript.Proofs.Commuting
import GenomeScript.Proofs.Rounding
import GenomeScript.Proofs.Assignments
import GenomeScript.Proofs.Reseeding
import GenomeScript.Proofs.Resuming
import GenomeScript.Proofs.Addresses
import GenomeScript.Proofs.Padding
import GenomeScript.Proofs.Readings
import GenomeScript.Proofs.Drawing
import GenomeScript.Proofs.Resuming
