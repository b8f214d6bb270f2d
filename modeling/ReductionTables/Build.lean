import ReductionTables.Catalog
import ReductionTables.Code
import ReductionTables.Notice

/-!
# Builds

From the lines of a log to its tables, its report and the two generated files. A log holds results
on single expressions only, so the tables for pairs stay empty.
-/

namespace ReductionTables

/-- The texts of the two generated files. -/
structure Files where
  header : Text
  source : Text
deriving DecidableEq, Repr

/-- The generated files for some tables. The header is the same for all. -/
def Tables.files (t : Tables) : Files := ⟨Code.header, Code.source t⟩

/-- What is made of a log in which every fact can be placed. -/
structure Build where
  catalog : Catalog
  ranked : List RankedRow
deriving Repr

namespace Build

/-- Builds from the lines of a log. -/
def ofLines (ls : List Text) : Except Failure Build :=
  (Catalog.ofLines ls).ranking.map fun ranked => ⟨Catalog.ofLines ls, ranked⟩

def tables (b : Build) : Tables := Tables.ofRanking b.ranked .single

def report (b : Build) : Report := Report.ofCatalog b.catalog

def source (b : Build) : Text := Code.source b.tables

/-- The counts and the first ten rows, as notices. -/
def notices (b : Build) : List Notice :=
  b.report.lines.map .counted ++ (b.ranked.take 10).map fun r => .listed r.row

end Build

/-- The lines that are no result lines, as notices. -/
def skippedLines (ls : List Text) : List Notice :=
  (ls.filter fun l => (Verdict.ofLine? l).isNone).map .skipped

/-- The notices of a build from the lines of a log. -/
def buildNotices (ls : List Text) : List Notice :=
  skippedLines ls ++
    match Build.ofLines ls with
    | .ok b => b.notices
    | .error _ => []

end ReductionTables
