import ReductionTables.Operator
import ReductionTables.Term.Basic
import ReductionTables.Text.Characters

/-!
# Reading terms

A term is written as a word, or as a word that ends in the constructor mark, followed by its
arguments in parentheses with commas between them. Words are made of ASCII letters and digits,
underscores, colons and hyphens; a word with a colon is no leaf. Blanks may stand around words,
parentheses and commas. A constructor that belongs to an operator takes two arguments, any other
at least one.

The text is read one character at a time. The state of the reader holds all that the rest of the
text is judged by, so the first character that no term can have at its place is the one that is
refused.
-/

namespace ReductionTables

/-- The ending of a word that names a constructor. -/
def constructorMark : Text := "::make"

/-- Whether a character can stand in the words of a term. -/
def isNameCharacter (c : Char) : Bool := c.isAlphanum || c = '_' || c = ':' || c = '-'

/-- Why a text is no term. Places are counted in bytes of the UTF-8 encoding. -/
inductive Reason where
  /-- A word should begin where the character stands. -/
  | unexpected (c : Char) (byte : Nat)
  /-- The text ends where a word should begin. -/
  | unexpectedEnd
  /-- The character stands where the arguments should go on or be closed. -/
  | notClosed (c : Char) (byte : Nat)
  /-- The text ends before the arguments are closed. -/
  | unclosedEnd
  /-- A word with a colon is not followed by arguments. -/
  | noArguments (word : Text)
  /-- A word without the constructor mark is followed by arguments. -/
  | noConstructor (word : Text)
  /-- The constructor of an operator has not two arguments. -/
  | wrongArity (word : Text) (count : Nat)
  /-- The term ends before the byte, but the text does not. -/
  | trailing (byte : Nat)
deriving DecidableEq, Repr

def Reason.message : Reason → Text
  | unexpected c byte => "unexpected `".toList ++ [c] ++ "` at byte ".toList ++ Text.ofNat byte
  | unexpectedEnd => "unexpected end of input"
  | notClosed c byte =>
    "expected `)` but found `".toList ++ [c] ++ "` at byte ".toList ++ Text.ofNat byte
  | unclosedEnd => "expected `)` but input ended"
  | noArguments word => "constructor `".toList ++ word ++ "` has no arguments".toList
  | noConstructor word => "`".toList ++ word ++ "` is not a `::make` constructor".toList
  | wrongArity word count =>
    "`".toList ++ word ++ "` takes 2 arguments, got ".toList ++ Text.ofNat count
  | trailing byte => "trailing input at byte ".toList ++ Text.ofNat byte

/-- A constructor whose arguments are being read. -/
structure Frame where
  name : Text
  /-- The arguments read so far. -/
  args : List Term
deriving Repr

/-- What was read last. -/
inductive Phase where
  /-- Nothing yet of the term that has to follow. -/
  | start
  /-- The characters of a word that may go on. -/
  | word (w : Text)
  /-- A word and blanks after it. -/
  | named (w : Text)
  | complete (t : Term)
deriving Repr

/-- The state of a reader in the middle of a text. -/
structure Reader where
  byte : Nat
  /-- The constructors that are still open, the innermost first. -/
  frames : List Frame
  phase : Phase
deriving Repr

def Term.ofWord (word : Text) : Except Reason Term :=
  if ':' ∈ word then .error (.noArguments word) else .ok (.leaf word)

namespace Frame

/-- Opens the arguments of the constructor that a word names. -/
def ofWord (word : Text) : Except Reason Frame :=
  match constructorMark.isSuffixOf? word with
  | some name => .ok ⟨name, []⟩
  | none => .error (.noConstructor word)

def push (f : Frame) (t : Term) : Frame := { f with args := f.args ++ [t] }

/-- The term of a constructor with all its arguments. -/
def close (f : Frame) : Except Reason Term :=
  if (Operator.ofName? f.name).isSome ∧ f.args.length ≠ 2 then
    .error (.wrongArity (f.name ++ constructorMark) f.args.length)
  else .ok (.call f.name f.args)

end Frame

namespace Reader

def initial : Reader := ⟨0, [], .start⟩

/-- Moves past a character, with new frames and a new phase. -/
def move (r : Reader) (c : Char) (frames : List Frame) (phase : Phase) : Reader :=
  ⟨r.byte + c.utf8Size, frames, phase⟩

/-- Reads the next character after a whole term. -/
def afterTerm (r : Reader) (t : Term) (c : Char) : Except Reason Reader :=
  if Text.isBlank c then .ok (r.move c r.frames (.complete t))
  else
    match r.frames with
    | [] => .error (.trailing r.byte)
    | f :: fs =>
      if c = ',' then .ok (r.move c (f.push t :: fs) .start)
      else if c = ')' then (f.push t).close.map fun t => r.move c fs (.complete t)
      else .error (.notClosed c r.byte)

/-- Reads the next character after a whole word. -/
def afterWord (r : Reader) (w : Text) (c : Char) : Except Reason Reader :=
  if Text.isBlank c then .ok (r.move c r.frames (.named w))
  else if c = '(' then (Frame.ofWord w).map fun f => r.move c (f :: r.frames) .start
  else (Term.ofWord w).bind fun t => r.afterTerm t c

def feed (r : Reader) (c : Char) : Except Reason Reader :=
  match r.phase with
  | .start =>
    if Text.isBlank c then .ok (r.move c r.frames .start)
    else if isNameCharacter c then .ok (r.move c r.frames (.word [c]))
    else .error (.unexpected c r.byte)
  | .word w =>
    if isNameCharacter c then .ok (r.move c r.frames (.word (w ++ [c]))) else r.afterWord w c
  | .named w => r.afterWord w c
  | .complete t => r.afterTerm t c

/-- The term that was read, when the text ends after a whole term. -/
def endAfter (r : Reader) (t : Term) : Except Reason Term :=
  if r.frames.isEmpty then .ok t else .error .unclosedEnd

/-- The term that was read, when the text ends. -/
def finish (r : Reader) : Except Reason Term :=
  match r.phase with
  | .start => .error .unexpectedEnd
  | .word w | .named w => (Term.ofWord w).bind r.endAfter
  | .complete t => r.endAfter t

end Reader

/-- The term that a text is, or the reason why it is none. -/
def Term.ofText (t : Text) : Except Reason Term :=
  (t.foldlM Reader.feed Reader.initial).bind Reader.finish

end ReductionTables
