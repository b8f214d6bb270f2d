import ReductionTables.Row.Basic
import ReductionTables.Verdict.Line

/-!
# Catalogs

The distinct facts of a log in the order in which they first occur, each with the expression it was
first stated by, and the numbers of verdicts counted on the way. The counts are reported after a log
was read.
-/

namespace ReductionTables

/-- A fact and the expression that first stated it. -/
structure Entry where
  row : Row
  /-- The oriented expression of its first verdict. -/
  source : Text
deriving DecidableEq, Repr

/-- The facts collected from verdicts. -/
structure Catalog where
  /-- The distinct facts in first-seen order. -/
  entries : List Entry
  total : Nat
  right : Nat
  unknown : Nat
deriving DecidableEq, Repr

namespace Catalog

instance : EmptyCollection Catalog where
  emptyCollection := ⟨[], 0, 0, 0⟩

/-- The facts in first-seen order. -/
def rows (c : Catalog) : List Row := c.entries.map Entry.row

def unique (c : Catalog) : Nat := c.entries.length

/-- Counts a verdict, and enters the fact that it states unless that is there already. -/
def insert (c : Catalog) (v : Verdict) : Catalog where
  entries :=
    if Row.ofVerdict v ∈ c.rows then c.entries else c.entries ++ [⟨.ofVerdict v, v.oriented⟩]
  total := c.total + 1
  right := c.right + if v.direction = .right then 1 else 0
  unknown := c.unknown + if v.status = .unknown then 1 else 0

/-- Counts and enters verdicts in order. -/
def insertMany (c : Catalog) (vs : List Verdict) : Catalog := vs.foldl insert c

/-- Counts and enters the verdicts of the result lines among the given ones. -/
def insertLines (c : Catalog) (ls : List Text) : Catalog :=
  c.insertMany (ls.filterMap Verdict.ofLine?)

def ofVerdicts (vs : List Verdict) : Catalog := insertMany ∅ vs

def ofLines (ls : List Text) : Catalog := insertLines ∅ ls

end Catalog

/-! ## Reports -/

/-- The counts of a catalog. -/
structure Report where
  total : Nat
  unique : Nat
  right : Nat
  unknown : Nat
deriving DecidableEq, Repr

namespace Report

/-- The counts of a catalog. -/
def ofCatalog (c : Catalog) : Report := ⟨c.total, c.unique, c.right, c.unknown⟩

def lines (r : Report) : List Text := [
  "Total exprs: ".toList ++ Text.ofNat r.total,
  "Unique exprs: ".toList ++ Text.ofNat r.unique,
  "Right-associativity exprs: ".toList ++ Text.ofNat r.right,
  "UNKNOWN-associativity exprs: ".toList ++ Text.ofNat r.unknown]

/-- The summary, with line feeds between its lines. -/
def summary (r : Report) : Text := List.intercalate ['\n'] r.lines

end Report

end ReductionTables
