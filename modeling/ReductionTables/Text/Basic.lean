/-!
# Text

Text is a list of characters, so that every reader and every substitution of the library is a
recursion on its input. This module fixes how integers are written and read in decimal notation, and
how text is cut into lines; what the library prints is joined by `unlines`.
-/

namespace ReductionTables

/-- A text is the list of its characters. -/
abbrev Text := List Char

/-- A string literal stands for the list of its characters. -/
instance : Coe String Text := ⟨String.toList⟩

namespace Text

/-! ## Integers -/

/-- The decimal digits of a natural number, without leading zeros. -/
def ofNat (n : Nat) : Text := Nat.toDigits 10 n

/-- The decimal notation of an integer: a minus sign only for negative ones. -/
def ofInt : Int → Text
  | .ofNat n => ofNat n
  | .negSucc n => '-' :: ofNat (n + 1)

/-- The value of ASCII digits, the most significant first. -/
def digitsValue (t : Text) : Nat := t.foldl (fun n c => 10 * n + (c.toNat - '0'.toNat)) 0

/-- The value of a text that consists of ASCII digits, at least one. -/
def natural? (t : Text) : Option Nat :=
  if t ≠ [] ∧ t.all Char.isDigit then some (digitsValue t) else none

/-- The integer that a text denotes by its sign and digits, whatever its size. -/
def integer? : Text → Option Int
  | '-' :: ds => (natural? ds).map fun n => -(n : Int)
  | '+' :: ds => (natural? ds).map fun n => (n : Int)
  | ds => (natural? ds).map fun n => (n : Int)

/-- Whether an integer fits into 64 bits with a sign. -/
def fitsSigned64 (i : Int) : Bool :=
  decide (-9223372036854775808 ≤ i ∧ i ≤ 9223372036854775807)

/-- The signed integer of 64 bits that a text denotes. -/
def signed64? (t : Text) : Option Int := (integer? t).filter fitsSigned64

/-! ## Lines -/

/-- The line whose characters before the line feed are given, the last one first. -/
def endedLine : Text → Text
  | '\r' :: cs => cs.reverse
  | cs => cs.reverse

/--
The lines of a text. A line ends at a line feed, and one carriage return directly before that line
feed belongs to the ending. No empty line follows the last ending.
-/
def lines (t : Text) : List Text := go [] [] t
where
  /-- Goes on after the lines in `done` and the characters in `current`, both the last one first. -/
  go (done : List Text) (current : Text) : Text → List Text
    | [] => (if current = [] then done else current.reverse :: done).reverse
    | c :: cs =>
      if c = '\n' then go (endedLine current :: done) [] cs else go done (c :: current) cs

/-- Joins lines, each ended by a line feed. -/
def unlines (ls : List Text) : Text := ls.flatMap (· ++ ['\n'])

end Text

end ReductionTables
