import ReductionTables.Text.Basic

/-!
# Substitution in text

A rule replaces every occurrence of one text by another. Occurrences are found from left to right
and do not overlap; what a rule inserts is not searched again. A list of rules is applied in order,
each to the result of the one before.
-/

namespace ReductionTables

/-- The replacement of every occurrence of `old`, which is not empty, by `new`. -/
structure Rule where
  /-- The text that is searched for. -/
  old : Text
  /-- The text that is written in its place. -/
  new : Text
deriving DecidableEq, Repr

namespace Rule

/--
The result of a rule on what follows an occurrence of which `skip` characters are still to be
passed over.
-/
def applyAfter (r : Rule) : Nat → Text → Text
  | _, [] => []
  | skip + 1, _ :: cs => r.applyAfter skip cs
  | 0, c :: cs =>
    if r.old.isPrefixOf (c :: cs) then r.new ++ r.applyAfter (r.old.length - 1) cs
    else c :: r.applyAfter 0 cs

def apply (r : Rule) (t : Text) : Text := r.applyAfter 0 t

/-- Applies the rules one after the other. -/
def applyAll (rules : List Rule) (t : Text) : Text := rules.foldl (fun t r => r.apply t) t

end Rule

end ReductionTables
