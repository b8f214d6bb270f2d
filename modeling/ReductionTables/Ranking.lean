import ReductionTables.Catalog
import ReductionTables.Expression
import ReductionTables.Row.Basic

/-!
# Ranking

The facts of a catalog in the order in which the tables list them. A fact is placed by the operators
of its expression in the order of the text: the sequences of their ranks are compared as words in a
dictionary, and facts with equal sequences keep the order of the catalog.
-/

namespace ReductionTables

/-- Whether a sequence of ranks comes no later than another in the order of a dictionary, where the
beginning of a sequence comes before the sequence. -/
def keyLe : List Nat → List Nat → Bool
  | [], _ => true
  | _ :: _, [] => false
  | m :: ms, n :: ns => m < n || (m == n && keyLe ms ns)

/-- A fact with what its place in the tables depends on. -/
structure RankedRow where
  /-- The operator at the root, which chooses the table. -/
  root : Operator
  operators : List Operator
  constants : List Constant
  row : Row
deriving DecidableEq, Repr

namespace RankedRow

/-- The ranks of the operators, by which rows are compared. -/
def key (r : RankedRow) : List Nat := r.operators.map Operator.rank

/-- Puts a row before the first one that does not come before it. -/
def insert (r : RankedRow) : List RankedRow → List RankedRow
  | [] => [r]
  | s :: rows => if keyLe r.key s.key then r :: s :: rows else s :: insert r rows

/-- Sorts by key; rows with equal keys keep their order. -/
def sort (rows : List RankedRow) : List RankedRow := rows.foldr insert []

end RankedRow

/-- Reads the source of an entry. That it is no term comes before that its operators are unknown. -/
def Entry.rankedRow (e : Entry) : Except Failure RankedRow := do
  let expression ← Expression.ofText e.source
  let root ← expression.root
  let operators ← expression.operators
  return { root, operators, constants := expression.constants.map .ofWord, row := e.row }

namespace Catalog

/-- The facts in first-seen order, or the failure of the first one that cannot be placed. -/
def rankedRows (c : Catalog) : Except Failure (List RankedRow) := c.entries.mapM Entry.rankedRow

/-- The facts in table order, or the failure of the first one that cannot be placed. -/
def ranking (c : Catalog) : Except Failure (List RankedRow) := c.rankedRows.map RankedRow.sort

end Catalog

end ReductionTables
