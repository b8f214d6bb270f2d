import ReductionTables.Text.Substitution

/-!
# Verdicts

The prover's verdict on one expression: the side on which it is associative, whether that was
proven, and the identity found for it. An expression that is associative from the right is read from
the left once its first two variables are exchanged. The exchange is made on the text, by way of a
placeholder.
-/

namespace ReductionTables

/-- The side on which an expression is associative. -/
inductive Direction where
  | left
  | right
  /-- The prover names no side. -/
  | unknown
deriving DecidableEq, Repr

/-- The direction that a word names; the case of ASCII letters does not matter. -/
def Direction.ofWord (word : Text) : Direction :=
  if word.map Char.toLower = "left".toList then .left
  else if word.map Char.toLower = "right".toList then .right
  else .unknown

/-- Whether associativity was settled. -/
inductive Status where
  | proven
  /-- The prover has an identity but no proof. -/
  | unknown
deriving DecidableEq, Repr

/-- What the prover says of one expression. The expression and its identity are kept as written. -/
structure Verdict where
  expression : Text
  direction : Direction
  status : Status
  /-- The literal of its identity. -/
  identity : Text
deriving DecidableEq, Repr

/-! ## Orientation -/

/-- Exchanges the variables x0 and y0 through the placeholder _y0. -/
def exchangeRules : List Rule :=
  [⟨"y0", "_y0"⟩, ⟨"x0", "y0"⟩, ⟨"_y0", "x0"⟩]

/-- The text with the names of the first two variables exchanged. -/
def exchange (t : Text) : Text := Rule.applyAll exchangeRules t

/-- The expression as it is read from the left. -/
def Verdict.oriented (v : Verdict) : Text :=
  match v.direction with
  | .right => exchange v.expression
  | .left | .unknown => v.expression

end ReductionTables
