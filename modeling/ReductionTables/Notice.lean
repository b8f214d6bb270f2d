import ReductionTables.Row.Basic

/-!
# Notices

What the program tells about its progress, with the level of importance and the part of the program
that each notice is attributed to.
-/

namespace ReductionTables

/-- The importance of a notice, the most important first. -/
inductive Level where
  | error
  | warn
  | info
  | debug
  | trace
deriving DecidableEq, Repr

namespace Level

def all : List Level := [error, warn, info, debug, trace]

def name : Level → Text
  | error => "ERROR"
  | warn => "WARN"
  | info => "INFO"
  | debug => "DEBUG"
  | trace => "TRACE"

def rank : Level → Nat
  | error => 1
  | warn => 2
  | info => 3
  | debug => 4
  | trace => 5

end Level

/-- A notice on progress. -/
inductive Notice where
  | reading (path : Text)
  /-- A line of the log is no result line. -/
  | skipped (line : Text)
  /-- A line of the summary. -/
  | counted (line : Text)
  /-- A row that stands among the first ones. -/
  | listed (row : Row)
  | wrote (header source : Text)
deriving DecidableEq, Repr

namespace Notice

/-- The importance of a notice: lines that are skipped are told only on request. -/
def level : Notice → Level
  | skipped _ => .trace
  | reading _ | counted _ | listed _ | wrote _ _ => .info

/-- The part of the program that a notice is attributed to. -/
def origin : Notice → Text
  | skipped _ => "assoc_tables::collect"
  | reading _ | counted _ | listed _ | wrote _ _ => "assoc_tables"

def message : Notice → Text
  | reading path => "Reading ".toList ++ path
  | skipped line => "skipping line: ".toList ++ line
  | counted line => line
  | listed row => "(".toList ++ row.expression ++ ", ".toList ++ row.identity ++ ")".toList
  | wrote header source => "Wrote ".toList ++ header ++ " and ".toList ++ source

end Notice

end ReductionTables
