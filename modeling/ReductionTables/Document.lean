import ReductionTables.Text.Basic

/-!
# Documents

The three files that the program works with, and their paths in a directory.
-/

namespace ReductionTables

/-- A file that the program reads or writes. -/
inductive Document where
  | log
  | header
  | source
deriving DecidableEq, Repr

namespace Document

def all : List Document := [log, header, source]

def fileName : Document → Text
  | log => "single_constant.txt"
  | header => "AssociativeOpsTable.h"
  | source => "AssociativeOpsTable.cpp"

def ofFileName? (name : Text) : Option Document := all.find? fun d => d.fileName = name

/-- The path of the file in a directory. An empty directory text adds nothing, and a slash is put
between the two unless the directory ends in one. -/
def path (directory : Text) (d : Document) : Text :=
  if directory = [] then d.fileName
  else if directory.getLast? = some '/' then directory ++ d.fileName
  else directory ++ "/".toList ++ d.fileName

end Document

end ReductionTables
