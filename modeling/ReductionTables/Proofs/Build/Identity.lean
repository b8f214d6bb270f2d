import ReductionTables.Proofs.Build
import ReductionTables.Proofs.Code.Source
import ReductionTables.Proofs.Verdict.Value

/-!
# Identities in the source

The identity of a row is printed as a typed constant of the value that the log's literal denotes, by
a name or by its decimal notation. Only a literal that is no signed integer of 64 bits in ASCII digits
is printed as the log has it.
-/

namespace ReductionTables

/-! ## Named literals -/

/-- The named constants of the generated code with their values. -/
def namedValues : List (Text × Int) :=
  [("i32_tmax", 2147483647), ("i32_tmin", -2147483648), ("i32_zero", 0), ("i32_one", 1)]

/-- The text is a typed constant of the generated code, of the given value. -/
def IsTypedConstant (n : Int) (t : Text) : Prop :=
  (t, n) ∈ namedValues ∨ t = "make_const(i32, ".toList ++ Text.ofInt n ++ ")".toList

variable {i t name : Text} {n : Int}

theorem identityName_cases (i : Text) :
    (i, identityName i) ∈ namedLiterals ∨ (∀ name, (i, name) ∉ namedLiterals) ∧ identityName i = i := by
  cases hlookup : namedLiterals.lookup i with
  | some name =>
    obtain ⟨l₁, l₂, hl, -⟩ := List.lookup_eq_some_iff.1 hlookup
    refine Or.inl ?_
    rw [identityName, hlookup, Option.getD_some, hl]
    simp
  | none =>
    refine Or.inr ⟨fun name hmem => ?_, ?_⟩
    · simpa using List.lookup_eq_none_iff.1 hlookup _ hmem
    · rw [identityName, hlookup, Option.getD_none]

theorem namedValues_of_namedLiterals (h : (i, name) ∈ namedLiterals) :
    (name, Text.literalValue i) ∈ namedValues ∧ Code.identityValue name = name ∧
      Text.IsAscii i ∧ Text.fitsSigned64 (Text.literalValue i) := by
  have hall : ∀ p ∈ namedLiterals, (p.2, Text.literalValue p.1) ∈ namedValues ∧
      Code.identityValue p.2 = p.2 ∧ Text.IsAscii p.1 ∧
        Text.fitsSigned64 (Text.literalValue p.1) := by decide
  exact hall _ h

/-! ## Printed literals -/

/-- A typed constant has a letter, which no literal has. -/
theorem IsTypedConstant.not_isLiteral (ht : IsTypedConstant n t) : ¬ Text.IsLiteral t := by
  have hletter : 'i' ∈ t := by
    rcases ht with hnamed | rfl
    · have hnames : ∀ p ∈ namedValues, 'i' ∈ p.1 := by decide
      exact hnames _ hnamed
    · simp
  exact fun hliteral => hliteral.not_mem (by decide) (by decide) hletter

theorem isTypedConstant_identityValue (hi : Text.IsLiteral i) (hascii : Text.IsAscii i)
    (hfits : Text.fitsSigned64 (Text.literalValue i)) :
    IsTypedConstant (Text.literalValue i) (Code.identityValue (identityName i)) := by
  rcases identityName_cases i with hnamed | ⟨-, hname⟩
  · obtain ⟨hvalue, hkept, -⟩ := namedValues_of_namedLiterals hnamed
    rw [hkept]
    exact Or.inl hvalue
  · rw [hname, Code.identityValue, Text.signed64?_of_literal hi hascii hfits]
    exact Or.inr rfl

theorem identityValue_eq_self (hi : Text.IsLiteral i)
    (h : ¬ (Text.IsAscii i ∧ Text.fitsSigned64 (Text.literalValue i))) :
    Code.identityValue (identityName i) = i := by
  rcases identityName_cases i with hnamed | ⟨-, hname⟩
  · obtain ⟨-, -, hgood⟩ := namedValues_of_namedLiterals hnamed
    exact absurd hgood h
  · rw [hname, Code.identityValue_of_none (Text.signed64?_eq_none_of_literal hi h)]

theorem isTypedConstant_identityValue_iff (hi : Text.IsLiteral i) :
    IsTypedConstant (Text.literalValue i) (Code.identityValue (identityName i)) ↔
      Text.IsAscii i ∧
        -9223372036854775808 ≤ Text.literalValue i ∧ Text.literalValue i ≤ 9223372036854775807 := by
  rw [← Text.fitsSigned64_iff]
  refine ⟨fun htyped => ?_, fun ⟨hascii, hfits⟩ => isTypedConstant_identityValue hi hascii hfits⟩
  by_contra hraw
  rw [identityValue_eq_self hi hraw] at htyped
  exact htyped.not_isLiteral hi

/-! ## Printed rows -/

namespace Code

variable {r : Row} {tables : Tables} {s : Slot}

theorem rowLine_mem_tableDefinition {rows : List Row} (hr : r ∈ rows) :
    indent 2 (rowLine r) ∈ tableDefinition rows := by
  have hne : rows ≠ [] := List.ne_nil_of_mem hr
  rw [tableDefinition, if_neg (by simpa using hne)]
  simp only [List.mem_append, List.mem_map]
  exact Or.inl (Or.inr ⟨r, hr, rfl⟩)

theorem rowLine_mem_sourceLines (hr : r ∈ tables.rows s) :
    indent 2 (rowLine r) ∈ sourceLines tables := by
  have hfunction : indent 2 (rowLine r) ∈ tableFunction tables s := by
    simp only [tableFunction, List.mem_append]
    exact Or.inl (Or.inr (rowLine_mem_tableDefinition hr))
  rw [sourceLines_eq]
  simp only [List.mem_append]
  exact Or.inr (Or.inr (Or.inr (Or.inl (List.mem_flatMap.2 ⟨s, s.mem_all, hfunction⟩))))

end Code

namespace Build

variable {ls : List Text} {b : Build}

/-- Every row of a build is printed with the identity of the verdicts that state it: as a typed
constant of the literal's value exactly when the literal is in ASCII and its value fits into 64 bits,
and as the literal itself otherwise. -/
theorem identities_are_typed_constants (h : ofLines ls = .ok b) :
    ∀ s, ∀ row ∈ b.tables.rows s,
      Code.indent 2 ("\x7b\x7b".toList ++ row.expression ++ ", ".toList ++
        Code.identityValue row.identity ++ "\x7d\x7d,".toList) ∈ Code.sourceLines b.tables ∧
      (∃ l ∈ ls, ∃ v, Verdict.ofLine? l = some v ∧ Row.ofVerdict v = row) ∧
      ∀ l ∈ ls, ∀ v, Verdict.ofLine? l = some v → Row.ofVerdict v = row →
        (IsTypedConstant (Text.literalValue v.identity) (Code.identityValue row.identity) ↔
          Text.IsAscii v.identity ∧ -9223372036854775808 ≤ Text.literalValue v.identity ∧
            Text.literalValue v.identity ≤ 9223372036854775807) ∧
        (IsTypedConstant (Text.literalValue v.identity) (Code.identityValue row.identity) ∨
          Code.identityValue row.identity = v.identity) := by
  intro s row hrow
  refine ⟨Code.rowLine_mem_sourceLines hrow, ?_, fun l hl v hv hv' => ?_⟩
  · obtain ⟨v, hv, hrow'⟩ := exists_verdict h hrow
    obtain ⟨l, hl, hline⟩ := List.mem_filterMap.1 hv
    exact ⟨l, hl, v, hline, hrow'⟩
  · have hliteral := Verdict.isLiteral_identity hv
    have hidentity : row.identity = identityName v.identity := by rw [← hv', Row.ofVerdict]
    rw [hidentity]
    refine ⟨isTypedConstant_identityValue_iff hliteral, ?_⟩
    by_cases hgood : Text.IsAscii v.identity ∧ Text.fitsSigned64 (Text.literalValue v.identity)
    · exact Or.inl (isTypedConstant_identityValue hliteral hgood.1 hgood.2)
    · exact Or.inr (identityValue_eq_self hliteral hgood)

theorem leading_zeros_are_not_printed :
    ∃ b, ofLines [
        "Leaves: 2, i: 0, Min::make(x0, k) -> Left-associativity with identity: \x7b -007 \x7d"] = .ok b ∧
      ⟨"Min::make(i32_x0, k)", "-007"⟩ ∈ b.tables.rows ⟨.min, .single⟩ ∧
      IsTypedConstant (Text.literalValue "-007") (Code.identityValue "-007") := by
  have hline : Verdict.ofLine?
      "Leaves: 2, i: 0, Min::make(x0, k) -> Left-associativity with identity: \x7b -007 \x7d".toList =
        some ⟨"Min::make(x0, k)", .left, .proven, "-007"⟩ := by decide +kernel
  have hlines := (List.filterMap_cons_some hline).trans (congrArg _ List.filterMap_nil)
  have hbuild : ∃ b ∈ (ofVerdicts [⟨"Min::make(x0, k)", .left, .proven, "-007"⟩]).toOption,
      ⟨"Min::make(i32_x0, k)", "-007"⟩ ∈ b.tables.rows ⟨.min, .single⟩ := by
    decide +kernel
  obtain ⟨b, hb, hrow⟩ := hbuild
  have h := (ofLines_eq hlines).trans (eq_ok_of_mem_toOption hb)
  obtain ⟨-, -, htyped⟩ := identities_are_typed_constants h _ _ hrow
  exact ⟨b, h, hrow,
    (htyped _ List.mem_cons_self _ hline (by decide +kernel)).1.2 (by decide)⟩

/-- A literal beyond 64 bits is printed raw, so the code that it is put into has no typed constant. -/
theorem large_literal_is_printed_raw :
    ∃ b, ofLines [
        "Leaves: 2, i: 0, Min::make(x0, k) -> Left-associativity with identity: \x7b 9223372036854775808 \x7d"] =
          .ok b ∧
      ⟨"Min::make(i32_x0, k)", "9223372036854775808"⟩ ∈ b.tables.rows ⟨.min, .single⟩ ∧
      Code.indent 2 "\x7b\x7bMin::make(i32_x0, k), 9223372036854775808\x7d\x7d," ∈
        Code.sourceLines b.tables ∧
      Text.literalValue "9223372036854775808" = 9223372036854775808 ∧
      ¬ IsTypedConstant 9223372036854775808 "9223372036854775808" := by
  have hline : Verdict.ofLine?
      "Leaves: 2, i: 0, Min::make(x0, k) -> Left-associativity with identity: \x7b 9223372036854775808 \x7d".toList =
        some ⟨"Min::make(x0, k)", .left, .proven, "9223372036854775808"⟩ := by decide +kernel
  have hlines := (List.filterMap_cons_some hline).trans (congrArg _ List.filterMap_nil)
  have hbuild : ∃ b ∈
      (ofVerdicts [⟨"Min::make(x0, k)", .left, .proven, "9223372036854775808"⟩]).toOption,
        ⟨"Min::make(i32_x0, k)", "9223372036854775808"⟩ ∈ b.tables.rows ⟨.min, .single⟩ := by
    decide +kernel
  obtain ⟨b, hb, hrow⟩ := hbuild
  exact ⟨b, (ofLines_eq hlines).trans (eq_ok_of_mem_toOption hb), hrow,
    Code.rowLine_mem_sourceLines hrow, by decide,
    fun htyped => htyped.not_isLiteral (Verdict.isLiteral_identity hline)⟩

end Build

end ReductionTables
