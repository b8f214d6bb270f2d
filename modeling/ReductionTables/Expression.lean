import ReductionTables.Failure
import ReductionTables.Row.Atom
import ReductionTables.Text.Basic

/-!
# Expressions

An expression of the log with its term. The text is kept because failures quote it.
-/

namespace ReductionTables

/-- A text and the term that it is. -/
structure Expression where
  text : Text
  term : Term
deriving Repr

/-- Whether a leaf is neither a variable nor an integer literal. -/
def isConstantName (word : Text) : Bool :=
  !(Variable.all.map Variable.name).contains word && (Text.signed64? word).isNone

namespace Expression

def ofText (t : Text) : Except Failure Expression :=
  match Term.ofText t with
  | .ok term => .ok ⟨t, term⟩
  | .error reason => .error (.malformed t reason)

/-- The operator that a constructor of the expression belongs to. -/
def operatorNamed (e : Expression) (name : Text) : Except Failure Operator :=
  match Operator.ofName? name with
  | some o => .ok o
  | none => .error (.unknownOperator name e.text)

def root (e : Expression) : Except Failure Operator :=
  match e.term.head? with
  | some name => e.operatorNamed name
  | none => .error (.noRootOperator e.text)

/-- The operators of all constructors, in the order in which these stand in the text. -/
def operators (e : Expression) : Except Failure (List Operator) :=
  e.term.heads.mapM e.operatorNamed

/-- The free constants, in the order in which they first stand in the text. -/
def constants (e : Expression) : List Text := (e.term.leaves.filter isConstantName).eraseDups

end Expression

end ReductionTables
