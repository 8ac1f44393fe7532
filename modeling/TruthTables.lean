import TruthTables.Text
import TruthTables.Formula
import TruthTables.Assignment
import TruthTables.Evaluation
import TruthTables.Expression
import TruthTables.Table
import TruthTables.Reply
import TruthTables.Journal
import TruthTables.CommandLine
import TruthTables.Proofs.Grammar
import TruthTables.Proofs.Scanning
import TruthTables.Proofs.Folding
import TruthTables.Proofs.Matching
import TruthTables.Proofs.Reading
import TruthTables.Proofs.Printing
import TruthTables.Proofs.Columns
import TruthTables.Proofs.Tabulation
import TruthTables.Proofs.Headings
import TruthTables.Proofs.Projections
import TruthTables.Proofs.Layout
import TruthTables.Proofs.Verdicts
import TruthTables.Proofs.Composition
import TruthTables.Proofs.Delivery
import TruthTables.Proofs.Notices
import TruthTables.Proofs.Semantics
import TruthTables.Proofs.Observation
import TruthTables.Proofs.Refusal
import TruthTables.Proofs.Diagnosis
import TruthTables.Proofs.Brackets
import TruthTables.Proofs.Flaws
import TruthTables.Proofs.Spacing
import TruthTables.Proofs.Rows
import TruthTables.Proofs.Negation
import TruthTables.Proofs.Running
import TruthTables.Proofs.Slots
import TruthTables.Proofs.Ranges
import TruthTables.Proofs.Letters
import TruthTables.Proofs.Ledger
