import ReductionTables.Text.Characters

/-!
# Decimal literals

A literal is an optional minus sign and at least one decimal digit. It is read up to the first
character that does not belong to it, so a text begins with one literal at most.
-/

namespace ReductionTables.Text

/-- Decimal digits, at least one. -/
def IsDigits (t : Text) : Prop := t ≠ [] ∧ ∀ c ∈ t, isDecimalDigit c

/-- Decimal digits, with or without a minus sign before them. -/
def IsLiteral (t : Text) : Prop := IsDigits t ∨ ∃ ds, t = '-' :: ds ∧ IsDigits ds

variable {t ds i rest : Text} {c : Char}

theorem IsLiteral.not_mem (hi : IsLiteral i) (hc : ¬ isDecimalDigit c) (hne : c ≠ '-') : c ∉ i := by
  intro hmem
  rcases hi with hi | ⟨ds, rfl, hds⟩
  · exact hc (hi.2 c hmem)
  · rcases List.mem_cons.1 hmem with h | h
    · exact hne h
    · exact hc (hds.2 c h)

/-! ## What is read -/

theorem isDigits_of_digits? (h : digits? t = some (ds, rest)) : IsDigits ds ∧ t = ds ++ rest := by
  rw [digits?] at h
  split at h
  · cases h
  · rename_i hne
    obtain ⟨rfl, rfl⟩ := Prod.mk.inj (Option.some.inj h)
    refine ⟨⟨hne, fun c hc => ?_⟩, List.takeWhile_append_dropWhile.symm⟩
    simpa using List.all_eq_true.1 List.all_takeWhile c hc

theorem isLiteral_of_literal? (h : literal? t = some (i, rest)) : IsLiteral i ∧ t = i ++ rest := by
  unfold literal? at h
  split at h
  · obtain ⟨⟨ds, rest'⟩, hds, he⟩ := Option.map_eq_some_iff.1 h
    obtain ⟨rfl, rfl⟩ := Prod.mk.inj he
    obtain ⟨hdigits, rfl⟩ := isDigits_of_digits? hds
    exact ⟨Or.inr ⟨ds, rfl, hdigits⟩, rfl⟩
  · obtain ⟨hdigits, rfl⟩ := isDigits_of_digits? h
    exact ⟨Or.inl hdigits, rfl⟩

/-! ## Where reading ends -/

theorem digits?_append (hds : IsDigits ds) (hc : ¬ isDecimalDigit c) (rest : Text) :
    digits? (ds ++ c :: rest) = some (ds, c :: rest) := by
  have htake : (ds ++ c :: rest).takeWhile isDecimalDigit = ds := by
    rw [List.takeWhile_append_of_pos hds.2]
    simp [hc]
  have hdrop : (ds ++ c :: rest).dropWhile isDecimalDigit = c :: rest := by
    rw [List.dropWhile_append_of_pos hds.2]
    simp [hc]
  rw [digits?, htake, hdrop, if_neg hds.1]

theorem IsDigits.append_inj {ds' rest' : Text} (hds : IsDigits ds) (hds' : IsDigits ds')
    (hc : ¬ isDecimalDigit c) (h : ds ++ c :: rest = ds' ++ c :: rest') : ds = ds' ∧ rest = rest' := by
  have hread := digits?_append hds hc rest
  rw [h, digits?_append hds' hc] at hread
  simpa [eq_comm] using hread

theorem literal?_append (hi : IsLiteral i) (hc : ¬ isDecimalDigit c) (rest : Text) :
    literal? (i ++ c :: rest) = some (i, c :: rest) := by
  rcases hi with hi | ⟨ds, rfl, hds⟩
  · obtain ⟨d, ds, rfl⟩ := List.exists_cons_of_ne_nil hi.1
    have hd : d ≠ '-' := by
      rintro rfl
      exact absurd (hi.2 '-' (by simp)) (by decide)
    have hread : literal? (d :: ds ++ c :: rest) = digits? (d :: ds ++ c :: rest) := by
      simp [literal?, hd]
    rw [hread, digits?_append hi hc]
  · rw [List.cons_append, literal?, digits?_append hds hc]
    rfl

end ReductionTables.Text
