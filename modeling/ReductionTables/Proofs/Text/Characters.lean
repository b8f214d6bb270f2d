import ReductionTables.Term.Reader

/-!
# Blanks and the characters of words

The characters that can stand in the words of a term are ASCII, and none of them is a blank.
-/

namespace ReductionTables

theorem Ranges.exists_of_covers {rs : Ranges} {n : Nat} (h : rs.covers n) :
    ∃ p ∈ rs, p.1 ≤ n ∧ n ≤ p.2 := by
  induction rs with
  | nil => simp [covers] at h
  | cons p rs ih =>
    obtain ⟨low, high⟩ := p
    rw [covers] at h
    split at h
    · simp at h
    · split at h
      · exact ⟨(low, high), by simp, by omega⟩
      · obtain ⟨q, hq, hle⟩ := ih h
        exact ⟨q, by simp [hq], hle⟩

theorem isNameCharacter_iff {c : Char} :
    isNameCharacter c ↔ c.toNat = 45 ∨ (48 ≤ c.toNat ∧ c.toNat ≤ 58) ∨
      (65 ≤ c.toNat ∧ c.toNat ≤ 90) ∨ c.toNat = 95 ∨ (97 ≤ c.toNat ∧ c.toNat ≤ 122) := by
  have hc : c.val.toNat = c.toNat := rfl
  have hcodes : 'A'.val.toNat = 65 ∧ 'Z'.val.toNat = 90 ∧ 'a'.val.toNat = 97 ∧
      'z'.val.toNat = 122 ∧ '0'.val.toNat = 48 ∧ '9'.val.toNat = 57 ∧ '_'.toNat = 95 ∧
      ':'.toNat = 58 ∧ '-'.toNat = 45 := by decide
  have hclasses : isNameCharacter c =
      (decide (c.val ≥ 'A'.val ∧ c.val ≤ 'Z'.val) ||
        (decide (c.val ≥ 'a'.val) && decide (c.val ≤ 'z'.val)) ||
        (decide (c.val ≥ '0'.val) && decide (c.val ≤ '9'.val)) ||
        decide (c = '_') || decide (c = ':') || decide (c = '-')) := rfl
  simp only [hclasses, Bool.or_eq_true, Bool.and_eq_true, decide_eq_true_eq, ge_iff_le,
    UInt32.le_iff_toNat_le, ← Char.toNat_inj, hc]
  omega

theorem not_isNameCharacter_of_isBlank {c : Char} (h : Text.isBlank c) : ¬ isNameCharacter c := by
  intro hname
  rw [isNameCharacter_iff] at hname
  obtain ⟨p, hp, hle⟩ := Ranges.exists_of_covers h
  simp only [Text.blanks, List.mem_cons, List.not_mem_nil, or_false] at hp
  rcases hp with rfl | rfl | rfl | rfl | rfl | rfl | rfl | rfl | rfl | rfl <;> omega

namespace Text

/-- Blanks only, or nothing. -/
def Blanks (t : Text) : Prop := ∀ c ∈ t, isBlank c

theorem blanks_nil : Blanks [] := by simp [Blanks]

theorem blanks_singleton {c : Char} (h : isBlank c) : Blanks [c] := by simpa [Blanks] using h

theorem Blanks.append {s t : Text} (hs : Blanks s) (ht : Blanks t) : Blanks (s ++ t) := by
  intro c hc
  rcases List.mem_append.1 hc with hc | hc
  · exact hs c hc
  · exact ht c hc

end Text

/-- Characters that can stand in the words of a term, or nothing. -/
def IsName (w : Text) : Prop := ∀ c ∈ w, isNameCharacter c

theorem IsName.append {v w : Text} (hv : IsName v) (hw : IsName w) : IsName (v ++ w) := by
  intro c hc
  rcases List.mem_append.1 hc with hc | hc
  · exact hv c hc
  · exact hw c hc

theorem isName_of_all {w : Text} (h : w.all isNameCharacter) : IsName w := List.all_eq_true.1 h

theorem isName_constructorMark : IsName constructorMark := isName_of_all (by decide)

/-! ## Borders of words -/

namespace Text

/-- No word goes on into the text. -/
def Ends (t : Text) : Prop := ∀ c ∈ t.head?, ¬ isNameCharacter c

/-- A text between words. -/
def Gap (t : Text) : Prop := ∀ c ∈ t, ¬ isNameCharacter c

variable {s t b n w : Text} {c : Char}

theorem ends_nil : Ends [] := by simp [Ends]

theorem Blanks.gap (hb : Blanks b) : Gap b := fun c hc => not_isNameCharacter_of_isBlank (hb c hc)

theorem gap_singleton (hc : ¬ isNameCharacter c) : Gap [c] := by simpa [Gap] using hc

theorem Gap.append (hs : Gap s) (ht : Gap t) : Gap (s ++ t) := by
  intro c hc
  rcases List.mem_append.1 hc with hc | hc
  · exact hs c hc
  · exact ht c hc

theorem Gap.append_ends (hs : Gap s) (ht : Ends t) : Ends (s ++ t) := by
  cases s with
  | nil => exact ht
  | cons c s =>
    intro d hd
    obtain rfl := Option.some.inj hd
    exact hs c (by simp)

theorem Gap.ends_append (hs : Gap s) (hne : s ≠ []) (t : Text) : Ends (s ++ t) := by
  cases s with
  | nil => exact absurd rfl hne
  | cons c s =>
    intro d hd
    obtain rfl := Option.some.inj hd
    exact hs c (by simp)

/-- A name at the beginning of a text lies inside its first word. -/
theorem Ends.name_begins (ht : Ends t) (hn : IsName n) (h : n <+: w ++ t) : n <+: w := by
  rcases List.prefix_or_prefix_of_prefix h (List.prefix_append w t) with h' | ⟨v, rfl⟩
  · exact h'
  · rw [List.prefix_append_right_inj] at h
    cases v with
    | nil => simp
    | cons c v =>
      obtain ⟨u, rfl⟩ := h
      exact absurd (hn c (by simp)) (ht c (by simp))

end Text

end ReductionTables
