import ReductionTables.Build
import ReductionTables.Catalog
import ReductionTables.Code
import ReductionTables.Document
import ReductionTables.Expression
import ReductionTables.Failure
import ReductionTables.Main
import ReductionTables.Notice
import ReductionTables.Operator
import ReductionTables.Proofs.Build
import ReductionTables.Proofs.Build.Comparison
import ReductionTables.Proofs.Build.Constants
import ReductionTables.Proofs.Build.Declarations
import ReductionTables.Proofs.Build.Failure
import ReductionTables.Proofs.Build.Growth
import ReductionTables.Proofs.Build.Identity
import ReductionTables.Proofs.Build.LineEndings
import ReductionTables.Proofs.Build.Names
import ReductionTables.Proofs.Build.Restatement
import ReductionTables.Proofs.Build.Source
import ReductionTables.Proofs.Build.Vocabulary
import ReductionTables.Proofs.Catalog
import ReductionTables.Proofs.Catalog.History
import ReductionTables.Proofs.Code.Declarations
import ReductionTables.Proofs.Code.Source
import ReductionTables.Proofs.Code.Tables
import ReductionTables.Proofs.Expression
import ReductionTables.Proofs.Expression.Visits
import ReductionTables.Proofs.FirstOccurrences
import ReductionTables.Proofs.Outcome
import ReductionTables.Proofs.Ranking
import ReductionTables.Proofs.Ranking.Insertion
import ReductionTables.Proofs.Ranking.Order
import ReductionTables.Proofs.Ranking.Stability
import ReductionTables.Proofs.Row.Atoms
import ReductionTables.Proofs.Row.Confluence
import ReductionTables.Proofs.Row.Expressions
import ReductionTables.Proofs.Row.Faithful
import ReductionTables.Proofs.Row.Names
import ReductionTables.Proofs.Tables
import ReductionTables.Proofs.Tables.Passes
import ReductionTables.Proofs.Term.Closed
import ReductionTables.Proofs.Term.Grammar
import ReductionTables.Proofs.Term.Layout
import ReductionTables.Proofs.Term.Leaves
import ReductionTables.Proofs.Term.Numbering
import ReductionTables.Proofs.Term.Passes
import ReductionTables.Proofs.Term.Progress
import ReductionTables.Proofs.Term.Reading
import ReductionTables.Proofs.Term.Recognition
import ReductionTables.Proofs.Term.Refusal
import ReductionTables.Proofs.Term.Scanning
import ReductionTables.Proofs.Term.Traversal
import ReductionTables.Proofs.Term.Words
import ReductionTables.Proofs.Text.Characters
import ReductionTables.Proofs.Text.Decoding
import ReductionTables.Proofs.Text.Rewriting
import ReductionTables.Proofs.Text.Search
import ReductionTables.Proofs.Text.SinglePass
import ReductionTables.Proofs.Verdict.Ending
import ReductionTables.Proofs.Verdict.Exchange
import ReductionTables.Proofs.Verdict.Involution
import ReductionTables.Proofs.Verdict.Line
import ReductionTables.Proofs.Verdict.Literal
import ReductionTables.Proofs.Verdict.Orientation
import ReductionTables.Proofs.Verdict.Placement
import ReductionTables.Proofs.Verdict.Value
import ReductionTables.Proofs.Workspace.Documents
import ReductionTables.Proofs.Workspace.Run
import ReductionTables.Ranking
import ReductionTables.Row.Atom
import ReductionTables.Row.Basic
import ReductionTables.Tables
import ReductionTables.Term.Basic
import ReductionTables.Term.Node
import ReductionTables.Term.Reader
import ReductionTables.Text.Basic
import ReductionTables.Text.Characters
import ReductionTables.Text.Search
import ReductionTables.Text.Substitution
import ReductionTables.Text.WordCharacter
import ReductionTables.Verdict.Basic
import ReductionTables.Verdict.Line
import ReductionTables.Workspace.Basic
import ReductionTables.Workspace.CommandLine
import ReductionTables.Workspace.Run
