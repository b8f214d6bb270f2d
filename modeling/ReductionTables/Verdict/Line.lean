import ReductionTables.Text.Characters
import ReductionTables.Text.Search
import ReductionTables.Text.WordCharacter
import ReductionTables.Verdict.Basic

/-!
# Result lines

The prover's log mixes result lines with progress and diagnostic output. A result line counts the
leaves and the number of the candidate, gives the expression after a comma, and ends in one of two
wordings, for proven and for unknown associativity:

    Leaves: 2, i: 0, Min::make(x0, y0) -> Left-associativity with identity: { 7 }
    Leaves: 2, i: 0, Min::make(x0, y0) -> UNKNOWN associative with left-identity: { 7 }

The result may stand anywhere in a line. Among the places where one can be read the leftmost counts,
and the expression extends as far as its line and the wording after it allow. The wording of proven
results is tried on the whole line before the other.
-/

namespace ReductionTables

/-- The wording of one kind of result line, around the direction word. -/
structure Wording where
  status : Status
  /-- The text between the expression and the direction word. -/
  beforeWord : Text
  /-- The text between the direction word and the literal of the identity. -/
  afterWord : Text
deriving DecidableEq, Repr

namespace Wording

def proven : Wording where
  status := .proven
  beforeWord := " -> "
  afterWord := "-associativity with identity: \x7b "

def unknown : Wording where
  status := .unknown
  beforeWord := " -> UNKNOWN associative with "
  afterWord := "-identity: \x7b "

/-- Reads what follows the expression: the direction word and the literal of the identity. -/
def tail? (w : Wording) (t : Text) : Option (Text × Text) := do
  let t ← w.beforeWord.isPrefixOf? t
  let word := t.takeWhile Text.isWordCharacter
  let t ← w.afterWord.isPrefixOf? (t.dropWhile Text.isWordCharacter)
  let (identity, t) ← Text.literal? t
  let _ ← " \x7d".toList.isPrefixOf? t
  return (word, identity)

/-- Reads what stands before the expression, and returns the text from the expression on. -/
def head? (t : Text) : Option Text := do
  let t ← "Leaves: ".toList.isPrefixOf? t
  let (_, t) ← Text.digits? t
  let t ← ", i: ".toList.isPrefixOf? t
  let (_, t) ← Text.digits? t
  ", ".toList.isPrefixOf? t

/-- Reads a result that the text begins with. -/
def result? (w : Wording) (t : Text) : Option Verdict := do
  let t ← head? t
  let (expression, word, identity) ← Text.longestBefore? w.tail? t
  return { expression, direction := .ofWord word, status := w.status, identity }

def verdict? (w : Wording) (line : Text) : Option Verdict := Text.firstPlace? w.result? line

end Wording

/-- The verdict that a line of the log reports, if it is a result line. -/
def Verdict.ofLine? (line : Text) : Option Verdict :=
  match Wording.proven.verdict? line with
  | some v => some v
  | none => Wording.unknown.verdict? line

end ReductionTables
