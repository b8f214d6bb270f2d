import ReductionTables.Ranking

/-!
# Tables

The rows are listed in ten tables, one for each operator and each arity. Beside them stand the
constants that some row uses, in the order of first use. Two sets of tables are the same when their
rows agree in order and their constants agree as sets.
-/

namespace ReductionTables

/-- The number of components of the associative operations that a table lists. -/
inductive Arity where
  /-- One expression. -/
  | single
  /-- A pair of expressions. -/
  | double
deriving DecidableEq, Repr

namespace Arity

def all : List Arity := [single, double]

/-- The name, as table functions have it. -/
def name : Arity → Text
  | single => "single"
  | double => "double"

end Arity

/-- What chooses one of the ten tables. -/
structure Slot where
  operator : Operator
  arity : Arity
deriving DecidableEq, Repr

/-- The ten slots in the order in which tables are printed. -/
def Slot.all : List Slot := Arity.all.flatMap fun a => Operator.all.map fun o => ⟨o, a⟩

/-- The ten tables and the constants that their rows use. -/
structure Tables where
  rows : Slot → List Row
  /-- The constants in the order of first use, each once. -/
  constants : List Constant

namespace Tables

instance : EmptyCollection Tables where
  emptyCollection := ⟨fun _ => [], []⟩

/-- Appends rows to the tables of an arity, each to the one that its root chooses. -/
def append (t : Tables) (a : Arity) (added : List RankedRow) : Tables where
  rows s := t.rows s ++ (added.filter fun r => Slot.mk r.root a = s).map RankedRow.row
  constants := (t.constants ++ added.flatMap RankedRow.constants).eraseDups

/-- The tables of an arity for the given rows, with nothing in the others. -/
def ofRanking (ranked : List RankedRow) (a : Arity) : Tables := append ∅ a ranked

def size (t : Tables) : Nat := (Slot.all.flatMap t.rows).length

def isEmpty (t : Tables) : Bool := t.size == 0

/-- The tables list the same rows in the same order and use the same constants in any order. -/
def Same (t u : Tables) : Prop :=
  (∀ s ∈ Slot.all, t.rows s = u.rows s) ∧ t.constants ⊆ u.constants ∧ u.constants ⊆ t.constants

instance (t u : Tables) : Decidable (t.Same u) :=
  inferInstanceAs (Decidable ((∀ s ∈ Slot.all, t.rows s = u.rows s) ∧
    (∀ c ∈ t.constants, c ∈ u.constants) ∧ ∀ c ∈ u.constants, c ∈ t.constants))

end Tables

end ReductionTables
