import ReductionTables.Text.Basic

/-!
# Operators

The five binary operators that a table can hold, in table order. A constructor belongs to the
operator whose name its own name begins with.
-/

namespace ReductionTables

/-- A binary operator. -/
inductive Operator where
  | add
  | mul
  | max
  | min
  | sub
deriving DecidableEq, Repr

namespace Operator

def all : List Operator := [add, mul, max, min, sub]

/-- The name, as constructors begin with it. -/
def name : Operator → Text
  | add => "Add"
  | mul => "Mul"
  | max => "Max"
  | min => "Min"
  | sub => "Sub"

/-- The name in lower case, for the names of atoms and table functions. -/
def lowerName : Operator → Text
  | add => "add"
  | mul => "mul"
  | max => "max"
  | min => "min"
  | sub => "sub"

def rank : Operator → Nat
  | add => 0
  | mul => 1
  | max => 2
  | min => 3
  | sub => 4

/-- The operator whose name the given name begins with. -/
def ofName? (name : Text) : Option Operator := all.find? fun o => o.name.isPrefixOf name

end Operator

end ReductionTables
