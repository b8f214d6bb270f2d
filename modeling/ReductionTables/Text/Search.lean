import ReductionTables.Text.Basic

/-!
# Searching in text

A reader looks at the beginning of a text and may succeed with a result. Two searches try a reader
at the places of a text: one finds the leftmost place, the other the longest start before a place.
-/

namespace ReductionTables.Text

/-- The result of a reader at the leftmost place of a text where it succeeds. -/
def firstPlace? {α : Type} (read : Text → Option α) : Text → Option α
  | [] => read []
  | c :: cs =>
    match read (c :: cs) with
    | some a => some a
    | none => firstPlace? read cs

/--
The longest start of a text, within its first line, after which a reader succeeds, together with
what it reads there.
-/
def longestBefore? {α : Type} (read : Text → Option α) : Text → Option (Text × α)
  | [] => (read []).map fun a => ([], a)
  | c :: cs =>
    match if c = '\n' then none else longestBefore? read cs with
    | some (start, a) => some (c :: start, a)
    | none => (read (c :: cs)).map fun a => ([], a)

end ReductionTables.Text
