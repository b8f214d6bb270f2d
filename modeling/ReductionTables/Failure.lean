import ReductionTables.Term.Reader

/-!
# Failures

The causes for which no tables come about, and the wording of each.
-/

namespace ReductionTables

/-- Why a file could not be read or written. -/
inductive AccessError where
  | notFound
  /-- A plain file stands where the path goes on. -/
  | notDirectory
  | isDirectory
  /-- The bytes of the file are no UTF-8 text. -/
  | notText
deriving DecidableEq, Repr

def AccessError.message : AccessError → Text
  | notFound => "No such file or directory (os error 2)"
  | notDirectory => "Not a directory (os error 20)"
  | isDirectory => "Is a directory (os error 21)"
  | notText => "stream did not contain valid UTF-8"

/-- Why no tables come about. -/
inductive Failure where
  | inaccessible (path : Text) (error : AccessError)
  /-- The text of an expression is no term. -/
  | malformed (expression : Text) (reason : Reason)
  /-- An expression has a constructor that belongs to no operator. -/
  | unknownOperator (name : Text) (expression : Text)
  /-- An expression is a leaf. -/
  | noRootOperator (expression : Text)
deriving DecidableEq, Repr

def Failure.message : Failure → Text
  | inaccessible path error => "could not access ".toList ++ path ++ ": ".toList ++ error.message
  | malformed expression reason =>
    "malformed expression `".toList ++ expression ++ "`: ".toList ++ reason.message
  | unknownOperator name expression =>
    "unknown operator `".toList ++ name ++ "` in `".toList ++ expression ++ "`".toList
  | noRootOperator expression =>
    "expression `".toList ++ expression ++ "` has no root operator".toList

end ReductionTables
