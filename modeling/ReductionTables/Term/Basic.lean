import ReductionTables.Text.Basic

/-!
# Terms

An expression read as a tree. A leaf is a word; an inner node is a constructor with its arguments.
The constructor is kept by its written name, without the ending that marks it as a constructor, so
that the tree says all that the text says apart from blanks.
-/

namespace ReductionTables

/-- The tree of an expression. -/
inductive Term where
  /-- A variable, a literal or a constant, as it is written. -/
  | leaf (word : Text)
  /-- The constructor of the given name, applied to its arguments. -/
  | call (name : Text) (args : List Term)
deriving Repr

namespace Term

/-- The name of the constructor at the root, unless the term is a leaf. -/
def head? : Term → Option Text
  | leaf _ => none
  | call name _ => some name

mutual

/-- The names of the constructors, each before those of its arguments. -/
def heads : Term → List Text
  | leaf _ => []
  | call name args => name :: headsOfList args

def headsOfList : List Term → List Text
  | [] => []
  | t :: ts => t.heads ++ headsOfList ts

end

mutual

/-- The words at the leaves, from left to right. -/
def leaves : Term → List Text
  | leaf word => [word]
  | call _ args => leavesOfList args

def leavesOfList : List Term → List Text
  | [] => []
  | t :: ts => t.leaves ++ leavesOfList ts

end

end Term

end ReductionTables
