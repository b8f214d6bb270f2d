import ReductionTables.Operator
import ReductionTables.Term.Basic

/-!
# Numbered nodes

A term laid out as a list of nodes that refer to their arguments by number. Arguments come before
the node that takes them and stand from left to right, so the root is the last node.
-/

namespace ReductionTables

/-- What stands at a node. -/
inductive Label where
  | leaf (word : Text)
  | operator (o : Operator)
  /-- A constructor that belongs to no operator, by name. -/
  | other (name : Text)
deriving DecidableEq, Repr

/-- The label of the constructor of the given name. -/
def Label.ofName (name : Text) : Label :=
  match Operator.ofName? name with
  | some o => .operator o
  | none => .other name

/-- A node of a listed term. -/
structure Node where
  label : Label
  /-- The numbers of its arguments. -/
  args : List Nat
deriving DecidableEq, Repr

namespace Term

mutual

def size : Term → Nat
  | leaf _ => 1
  | call _ args => sizeOfList args + 1

def sizeOfList : List Term → Nat
  | [] => 0
  | t :: ts => t.size + sizeOfList ts

end

/-- The numbers of the roots of terms that are listed one after the other from number `first` on. -/
def rootNumbers (first : Nat) : List Term → List Nat
  | [] => []
  | t :: ts => (first + t.size - 1) :: rootNumbers (first + t.size) ts

mutual

/-- The nodes of a term that is listed from number `first` on. -/
def nodesFrom (first : Nat) : Term → List Node
  | leaf word => [⟨.leaf word, []⟩]
  | call name args => nodesOfList first args ++ [⟨.ofName name, rootNumbers first args⟩]

def nodesOfList (first : Nat) : List Term → List Node
  | [] => []
  | t :: ts => t.nodesFrom first ++ nodesOfList (first + t.size) ts

end

/-- The nodes of a term, numbered from zero. -/
def nodes (t : Term) : List Node := t.nodesFrom 0

end Term

end ReductionTables
