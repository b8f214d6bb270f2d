import Mathlib.Data.List.Basic
import ReductionTables.Proofs.Verdict.Literal
import ReductionTables.Text.Basic

/-!
# Values of literals

A literal denotes an integer in the digits of any script. The reading of signed integers knows ASCII
digits and 64 bits only: it gives the value of the literals that keep to both, and nothing for others.
-/

namespace ReductionTables

/-- How far a code point is from the beginning of its range. -/
def Ranges.offset : Ranges → Nat → Nat
  | [], _ => 0
  | (low, high) :: rest, n => if low ≤ n ∧ n ≤ high then n - low else offset rest n

namespace Text

/-- The value of a decimal digit. Every range begins with a zero and has ten digits for each script. -/
def digitValue (c : Char) : Nat := decimalDigits.offset c.toNat % 10

/-- The value of decimal digits, the most significant first. -/
def decimalValue (t : Text) : Nat := t.foldl (fun n c => 10 * n + digitValue c) 0

/-- The integer that a literal denotes. -/
def literalValue : Text → Int
  | '-' :: ds => -(decimalValue ds : Int)
  | ds => decimalValue ds

/-- The text has ASCII characters only. -/
def IsAscii (t : Text) : Prop := ∀ c ∈ t, c.toNat < 128

instance (t : Text) : Decidable (IsAscii t) :=
  decidable_of_iff (t.all fun c => c.toNat < 128) (by simp [IsAscii])

variable {t ds i : Text} {c : Char} {n : Int}

/-! ## Digits -/

theorem isDigit_iff_of_isDecimalDigit (hc : isDecimalDigit c) : c.isDigit ↔ c.toNat < 128 := by
  have hbounds : c.isDigit ↔ 48 ≤ c.toNat ∧ c.toNat ≤ 57 := Char.isDigit_iff_toNat
  have hascii : ∀ n < 128, decimalDigits.covers n → 48 ≤ n ∧ n ≤ 57 := by decide
  exact ⟨fun h => Nat.lt_of_le_of_lt (hbounds.1 h).2 (by decide), fun h => hbounds.2 (hascii _ h hc)⟩

theorem digitValue_of_isDigit (hc : c.isDigit) : digitValue c = c.toNat - '0'.toNat := by
  obtain ⟨hlow, hhigh⟩ : 48 ≤ c.toNat ∧ c.toNat ≤ 57 := Char.isDigit_iff_toNat.1 hc
  have hoffset : decimalDigits.offset c.toNat = c.toNat - '0'.toNat := if_pos ⟨hlow, hhigh⟩
  have hlt : c.toNat - '0'.toNat < 10 := Nat.sub_lt_left_of_lt_add hlow (Nat.lt_succ_of_le hhigh)
  rw [digitValue, hoffset, Nat.mod_eq_of_lt hlt]

theorem decimalValue_eq_digitsValue (ht : ∀ c ∈ t, c.isDigit) : decimalValue t = digitsValue t :=
  List.foldl_ext _ _ 0 fun n c hc => by rw [digitValue_of_isDigit (ht c hc)]

theorem IsDigits.isAscii_iff (hds : IsDigits ds) : IsAscii ds ↔ ∀ c ∈ ds, c.isDigit :=
  forall₂_congr fun c hc => (isDigit_iff_of_isDecimalDigit (hds.2 c hc)).symm

theorem natural?_of_digits (hds : IsDigits ds) :
    natural? ds = if IsAscii ds then some (decimalValue ds) else none := by
  have hall : ds ≠ [] ∧ ds.all Char.isDigit ↔ IsAscii ds := by
    rw [hds.isAscii_iff, List.all_eq_true, and_iff_right hds.1]
  rw [natural?]
  split
  · rename_i h
    have hascii := hall.1 h
    rw [if_pos hascii, decimalValue_eq_digitsValue (hds.isAscii_iff.1 hascii)]
  · rename_i h
    rw [if_neg fun hascii => h (hall.2 hascii)]

/-! ## Signs -/

/-- Digits have no sign before them, so they are read as they stand. -/
theorem integer?_of_digits (hds : IsDigits ds) : integer? ds = (natural? ds).map fun n => (n : Int) := by
  have hsign (c : Char) (hc : ¬ isDecimalDigit c) {cs : Text} : ds ≠ c :: cs := by
    rintro rfl
    exact hc (hds.2 c List.mem_cons_self)
  rw [integer?.eq_def]
  split
  · exact absurd rfl (hsign '-' (by decide))
  · exact absurd rfl (hsign '+' (by decide))
  · rfl

theorem literalValue_of_digits (hds : IsDigits ds) : literalValue ds = decimalValue ds := by
  rw [literalValue.eq_def]
  split
  · exact absurd (hds.2 '-' List.mem_cons_self) (by decide)
  · rfl

theorem integer?_of_literal (hi : IsLiteral i) :
    integer? i = if IsAscii i then some (literalValue i) else none := by
  rcases hi with hds | ⟨ds, rfl, hds⟩
  · rw [integer?_of_digits hds, natural?_of_digits hds, literalValue_of_digits hds]
    split <;> rfl
  · have hsigned : IsAscii ('-' :: ds) ↔ IsAscii ds :=
      List.forall_mem_cons.trans (and_iff_right (by decide))
    rw [integer?, natural?_of_digits hds, literalValue]
    simp only [hsigned]
    split <;> rfl

/-! ## Bounds -/

theorem fitsSigned64_iff :
    fitsSigned64 n ↔ -9223372036854775808 ≤ n ∧ n ≤ 9223372036854775807 := by
  rw [fitsSigned64, decide_eq_true_iff]

theorem signed64?_of_literal (hi : IsLiteral i) (hascii : IsAscii i)
    (hfits : fitsSigned64 (literalValue i)) : signed64? i = some (literalValue i) := by
  rw [signed64?, integer?_of_literal hi, if_pos hascii, Option.filter_some, if_pos hfits]

theorem signed64?_eq_none_of_literal (hi : IsLiteral i)
    (h : ¬ (IsAscii i ∧ fitsSigned64 (literalValue i))) : signed64? i = none := by
  rw [signed64?, integer?_of_literal hi]
  split
  · rw [Option.filter_some, if_neg fun hfits => h ⟨‹_›, hfits⟩]
  · rfl

end Text

end ReductionTables
