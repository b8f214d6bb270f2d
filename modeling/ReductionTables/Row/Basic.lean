import ReductionTables.Row.Atom
import ReductionTables.Verdict.Basic

/-!
# Rows

A row of a table pairs an expression with its identity, both under the names of the generated
tables. Two verdicts with the same row state the same fact. A free constant of the log's expressions is
named in the rows by its text after renaming, and the generated code binds that name to the word of the
log.
-/

namespace ReductionTables

/-- An expression and its identity, as a table lists them. -/
structure Row where
  expression : Text
  /-- The identity: the name of a boundary value, or a literal. -/
  identity : Text
deriving DecidableEq, Repr

/-- The expression with atoms for variables, then for operations on variables. -/
def withAtoms (t : Text) : Text :=
  Rule.applyAll (Shorthand.all.map Shorthand.rule)
    (Rule.applyAll (Variable.all.map Variable.rule) t)

/-- The literals that have a name in the generated tables, with that name. -/
def namedLiterals : List (Text × Text) :=
  [("2147483647", "i32_tmax"), ("-2147483648", "i32_tmin"), ("0", "i32_zero"), ("1", "i32_one")]

/-- The name of a literal that has one, else the literal itself. -/
def identityName (literal : Text) : Text := (namedLiterals.lookup literal).getD literal

/-- The row that states a verdict. -/
def Row.ofVerdict (v : Verdict) : Row where
  expression := withAtoms v.oriented
  identity := identityName v.identity

/-- A constant that the generated code declares. -/
structure Constant where
  /-- The name in the generated tables. -/
  name : Text
  /-- The word in the log. -/
  word : Text
deriving DecidableEq, Repr

/-- The constant for a word of the log. Its name is what the rows make of the word. -/
def Constant.ofWord (word : Text) : Constant := ⟨withAtoms word, word⟩

end ReductionTables
