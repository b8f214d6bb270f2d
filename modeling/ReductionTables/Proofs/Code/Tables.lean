import ReductionTables.Code
import ReductionTables.Proofs.Text.Decoding

/-!
# Printed tables can be read back

The expression of a row is put between separators that it may hold as well. What marks the border is
the last comma of the line, because no identity holds one, and the value of a literal is told from a
name by its parenthesis. The rows of a table end where a line is indented less.
-/

namespace ReductionTables

/-- The same text, or literals of the same value. -/
def SameIdentity (i j : Text) : Prop :=
  i = j ∨ ∃ n ∈ Text.signed64? i, Text.signed64? j = some n

instance (i j : Text) : Decidable (SameIdentity i j) :=
  inferInstanceAs (Decidable (i = j ∨ ∃ n ∈ Text.signed64? i, Text.signed64? j = some n))

/-- The same row up to the spelling of a literal. -/
structure Row.Alike (r s : Row) : Prop where
  expression : r.expression = s.expression
  identity : SameIdentity r.identity s.identity

instance (r s : Row) : Decidable (r.Alike s) :=
  decidable_of_iff (r.expression = s.expression ∧ SameIdentity r.identity s.identity)
    ⟨fun h => ⟨h.1, h.2⟩, fun h => ⟨h.1, h.2⟩⟩

/-- The expression lies in one line, and no separator stands in the identity. -/
structure Row.Plain (r : Row) : Prop where
  expression : '\n' ∉ r.expression
  comma : ',' ∉ r.identity
  parenthesis : ')' ∉ r.identity
  newline : '\n' ∉ r.identity

namespace Code

variable {e f i j : Text} {n : Int} {r s : Row} {rows rows' : List Row} {x y : List Text}

/-! ## Identities -/

theorem identityValue_of_some (h : Text.signed64? i = some n) : identityValue i =
    "make_const(i32".toList ++ ',' :: ' ' :: (Text.ofInt n ++ [')']) := by
  rw [identityValue, h]
  rfl

theorem identityValue_of_none (h : Text.signed64? i = none) : identityValue i = i := by
  rw [identityValue, h]

theorem not_mem_ofInt {c : Char} (hc : c ≠ '-') (hdigit : ¬ c.isDigit) : c ∉ Text.ofInt n := by
  intro hmem
  rcases Text.mem_ofInt hmem with h | h
  · exact hc h
  · exact hdigit h

theorem newline_not_mem_identityValue (hi : '\n' ∉ i) : '\n' ∉ identityValue i := by
  cases h : Text.signed64? i with
  | none => rwa [identityValue_of_none h]
  | some n =>
    have hdigits : '\n' ∉ Text.ofInt n := not_mem_ofInt (by decide) (by decide)
    rw [identityValue_of_some h]
    simp [hdigits]

/-- What stands before the last comma of a row and what stands behind it. -/
theorem exists_last_comma (hcomma : ',' ∉ i) (hparenthesis : ')' ∉ i) : ∃ s t, ',' ∉ t ∧
    e ++ ',' :: ' ' :: identityValue i = s ++ ',' :: ' ' :: t ∧
      ((Text.signed64? i = none ∧ s = e ∧ t = i ∧ ')' ∉ t) ∨
        ∃ n, Text.signed64? i = some n ∧ s = e ++ ", make_const(i32".toList ∧
          t = Text.ofInt n ++ [')']) := by
  cases h : Text.signed64? i with
  | none => exact ⟨e, i, hcomma, by rw [identityValue_of_none h], .inl ⟨rfl, rfl, rfl, hparenthesis⟩⟩
  | some n =>
    have hdigits : ',' ∉ Text.ofInt n := not_mem_ofInt (by decide) (by decide)
    refine ⟨_, _, ?_, ?_, .inr ⟨n, rfl, rfl, rfl⟩⟩
    · simp [hdigits]
    · rw [identityValue_of_some h]
      simp

theorem identityValue_inj (hi : ',' ∉ i ∧ ')' ∉ i) (hj : ',' ∉ j ∧ ')' ∉ j)
    (h : e ++ ',' :: ' ' :: identityValue i = f ++ ',' :: ' ' :: identityValue j) :
    e = f ∧ SameIdentity i j := by
  obtain ⟨s, t, ht, hst, hs⟩ := exists_last_comma (e := e) hi.1 hi.2
  obtain ⟨s', t', ht', hst', hs'⟩ := exists_last_comma (e := f) hj.1 hj.2
  rw [hst, hst'] at h
  obtain ⟨rfl, htt⟩ := Text.append_cons_inj_of_right (by simpa using ht) (by simpa using ht') h
  obtain rfl := (List.cons.inj htt).2
  rcases hs with ⟨-, rfl, rfl, hparenthesis⟩ | ⟨m, hm, rfl, rfl⟩
  · rcases hs' with ⟨-, rfl, rfl, -⟩ | ⟨n, -, -, rfl⟩
    · exact ⟨rfl, .inl rfl⟩
    · simp at hparenthesis
  · rcases hs' with ⟨-, -, rfl, hparenthesis⟩ | ⟨n, hn, he, hmn⟩
    · simp at hparenthesis
    · obtain rfl := Text.ofInt_injective (List.append_cancel_right hmn)
      exact ⟨List.append_cancel_right he, .inr ⟨m, hm, hn⟩⟩

theorem identityValue_eq (h : SameIdentity i j) : identityValue i = identityValue j := by
  rcases h with rfl | ⟨n, hi, hj⟩
  · rfl
  · rw [identityValue_of_some hi, identityValue_of_some hj]

/-! ## Rows -/

theorem rowLine_eq (r : Row) : rowLine r = "\x7b\x7b".toList ++
    ((r.expression ++ ',' :: ' ' :: identityValue r.identity) ++ "\x7d\x7d,".toList) := by
  unfold rowLine
  simp only [List.append_assoc]
  rfl

theorem alike_of_rowLine_eq (hr : r.Plain) (hs : s.Plain) (h : rowLine r = rowLine s) :
    r.Alike s := by
  rw [rowLine_eq, rowLine_eq, List.append_right_inj, List.append_left_inj] at h
  obtain ⟨he, hi⟩ := identityValue_inj ⟨hr.comma, hr.parenthesis⟩ ⟨hs.comma, hs.parenthesis⟩ h
  exact ⟨he, hi⟩

theorem rowLine_eq_of_alike (h : r.Alike s) : rowLine r = rowLine s := by
  rw [rowLine_eq, rowLine_eq, h.expression, identityValue_eq h.identity]

theorem isLine_rowLine (hr : r.Plain) : (rowLine r).IsLine := by
  have hidentity := newline_not_mem_identityValue hr.newline
  rw [rowLine_eq, ← List.append_assoc]
  exact .append (by simp [hr.expression, hidentity]) (by decide) (by decide)

/-! ## Tables -/

theorem indent_rowLine_ne (r : Row) : indent 2 (rowLine r) ≠ indent 1 "\x7d;".toList := by
  intro h
  have hplace := congrArg (fun l : Text => l[4]?) h
  simp [indent] at hplace

theorem tableDefinition_append_inj (hrows : ∀ r ∈ rows, r.Plain) (hrows' : ∀ r ∈ rows', r.Plain)
    (h : tableDefinition rows ++ x = tableDefinition rows' ++ y) :
    List.Forall₂ Row.Alike rows rows' ∧ x = y := by
  have hopening : indent 1 ("static const ".toList ++ tableType ++ " exprs;".toList) ≠
      indent 1 ("static const ".toList ++ tableType ++ " exprs = \x7b".toList) := by decide
  cases rows with
  | nil =>
    cases rows' with
    | nil => exact ⟨.nil, List.append_cancel_left h⟩
    | cons r' rows' => exact absurd (List.cons.inj h).1 hopening
  | cons r rows =>
    cases rows' with
    | nil => exact absurd (List.cons.inj h).1.symm hopening
    | cons r' rows' =>
      have hlines : (r :: rows).map (fun r => indent 2 (rowLine r)) ++
          indent 1 "\x7d;".toList :: x = (r' :: rows').map (fun r => indent 2 (rowLine r)) ++
          indent 1 "\x7d;".toList :: y := by
        simpa [tableDefinition] using h
      obtain ⟨halike, hxy⟩ := Text.forall₂_of_map_append hlines
        (fun a ha b hb hab =>
          alike_of_rowLine_eq (hrows a ha) (hrows' b hb) (List.append_cancel_left hab))
        (fun b _ hb => indent_rowLine_ne b (Option.some.inj hb).symm)
        (fun a _ ha => indent_rowLine_ne a (Option.some.inj ha).symm)
      exact ⟨halike, (List.cons.inj hxy).2⟩

theorem tableDefinition_eq (h : List.Forall₂ Row.Alike rows rows') :
    tableDefinition rows = tableDefinition rows' := by
  have hlines : rows.map (fun r => indent 2 (rowLine r)) =
      rows'.map fun r => indent 2 (rowLine r) := by
    induction h with
    | nil => rfl
    | cons hrs _ ih => rw [List.map_cons, List.map_cons, rowLine_eq_of_alike hrs, ih]
  cases h with
  | nil => rfl
  | cons => simpa [tableDefinition] using hlines

theorem isLine_tableDefinition (hrows : ∀ r ∈ rows, r.Plain) :
    ∀ l ∈ tableDefinition rows, l.IsLine := by
  cases rows with
  | nil => decide
  | cons r rows =>
    rw [tableDefinition, if_neg (by simp)]
    refine List.forall_mem_append.2 ⟨List.forall_mem_append.2 ⟨by decide, fun l hl => ?_⟩, by decide⟩
    obtain ⟨r', hr', rfl⟩ := List.mem_map.1 hl
    exact .append (by decide) (isLine_rowLine (hrows r' hr')) (by simp [rowLine])

end Code

end ReductionTables
