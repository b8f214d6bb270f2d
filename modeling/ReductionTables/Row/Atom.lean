import ReductionTables.Operator
import ReductionTables.Text.Substitution

/-!
# Atoms

In the generated tables the four variables go by names of their own, their atoms, and so do sixteen
operations on two variables of one pair. The names are introduced by substitution in text: first the
atoms of the variables, then those of the operations, whose patterns are written with the former.
-/

namespace ReductionTables

/-- A variable of the expressions, in two pairs. -/
inductive Variable where
  | x0
  | y0
  | x1
  | y1
deriving DecidableEq, Repr

namespace Variable

def all : List Variable := [x0, y0, x1, y1]

/-- The name in the prover's expressions. -/
def name : Variable → Text
  | x0 => "x0"
  | y0 => "y0"
  | x1 => "x1"
  | y1 => "y1"

/-- The name in the generated tables. -/
def atom (v : Variable) : Text := "i32_".toList ++ v.name

def rule (v : Variable) : Rule := ⟨v.name, v.atom⟩

end Variable

/-- An operation on two variables that has a name of its own in the generated tables. -/
structure Shorthand where
  operator : Operator
  left : Variable
  right : Variable
deriving DecidableEq, Repr

namespace Shorthand

/-- The expression that the name stands for, written with the atoms of the variables. -/
def pattern (s : Shorthand) : Text :=
  s.operator.name ++ "::make(".toList ++ s.left.atom ++ ", ".toList ++ s.right.atom ++ ")".toList

/-- The name in the generated tables. -/
def atom (s : Shorthand) : Text :=
  "i32_".toList ++ s.operator.lowerName ++ "_".toList ++ s.left.name ++ s.right.name

def rule (s : Shorthand) : Rule := ⟨s.pattern, s.atom⟩

/-- The eight operations on a pair of variables that have names. -/
def ofPair (x y : Variable) : List Shorthand :=
  [⟨.mul, x, y⟩, ⟨.mul, x, x⟩, ⟨.mul, y, y⟩, ⟨.add, x, y⟩, ⟨.max, x, y⟩, ⟨.min, x, y⟩,
    ⟨.sub, x, y⟩, ⟨.sub, y, x⟩]

/-- The named operations, grouped by pair of variables. -/
def groups : List (List Shorthand) := [ofPair .x0 .y0, ofPair .x1 .y1]

def all : List Shorthand := groups.flatten

end Shorthand

end ReductionTables
