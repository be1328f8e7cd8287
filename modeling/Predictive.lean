import Predictive.Analysis
import Predictive.Checked.Access
import Predictive.Checked.Machine
import Predictive.Checked.Report
import Predictive.Checked.Sets
import Predictive.Checked.Tables
import Predictive.Command.Options
import Predictive.Command.Run
import Predictive.DerivationTree
import Predictive.Fault
import Predictive.First
import Predictive.Follow
import Predictive.Grammar.Basic
import Predictive.Grammar.Derivation
import Predictive.Grammar.Reading
import Predictive.Grammar.Register
import Predictive.Grid
import Predictive.Json
import Predictive.Log
import Predictive.Machine
import Predictive.Main
import Predictive.Phrase
import Predictive.Proofs.Alignment
import Predictive.Proofs.Analysis
import Predictive.Proofs.Cells
import Predictive.Proofs.Checked.Access
import Predictive.Proofs.Checked.Machine
import Predictive.Proofs.Checked.Report
import Predictive.Proofs.Checked.Sets
import Predictive.Proofs.Checked.Tables
import Predictive.Proofs.Command
import Predictive.Proofs.Conflict
import Predictive.Proofs.DerivationTree.Growth
import Predictive.Proofs.DerivationTree.Reading
import Predictive.Proofs.DerivationTree.Replay
import Predictive.Proofs.Export
import Predictive.Proofs.Faultless
import Predictive.Proofs.Grammar.Arrows
import Predictive.Proofs.Grammar.Leftmost
import Predictive.Proofs.Grammar.Lines
import Predictive.Proofs.Grammar.Numbering
import Predictive.Proofs.Grammar.Printing
import Predictive.Proofs.Grammar.Reading
import Predictive.Proofs.Grammar.Register
import Predictive.Proofs.Grammar.Reordering
import Predictive.Proofs.Grammar.ValidRegister
import Predictive.Proofs.Grammar.WellFormed
import Predictive.Proofs.Json
import Predictive.Proofs.LL1
import Predictive.Proofs.Machine.Acceptance
import Predictive.Proofs.Machine.Completeness
import Predictive.Proofs.Machine.Invariant
import Predictive.Proofs.Machine.LeftRecursion
import Predictive.Proofs.Machine.Limits
import Predictive.Proofs.Machine.Lookahead
import Predictive.Proofs.Machine.Rejection
import Predictive.Proofs.Machine.Run
import Predictive.Proofs.Machine.Soundness
import Predictive.Proofs.Machine.Termination
import Predictive.Proofs.Phrase
import Predictive.Proofs.Recovery
import Predictive.Proofs.Reordering
import Predictive.Proofs.Sets.Convergence
import Predictive.Proofs.Sets.First
import Predictive.Proofs.Sets.Follow
import Predictive.Proofs.Sets.Passes
import Predictive.Proofs.Sets.Sweep
import Predictive.Proofs.Table
import Predictive.Proofs.Text
import Predictive.Query
import Predictive.Recovery
import Predictive.Report.ConflictText
import Predictive.Report.Export
import Predictive.Report.GrammarText
import Predictive.Report.TableText
import Predictive.Report.TraceText
import Predictive.Saturation
import Predictive.Symbol
import Predictive.SymbolSet
import Predictive.Table
import Predictive.Text.Blank
import Predictive.Text.CodePoints
import Predictive.Text.Columns
import Predictive.Text.LetterCase
import Predictive.Text.Pieces
import Predictive.Text.Printing
import Predictive.Text.Quoted
import Predictive.Text.Terminal
import Predictive.Trace
