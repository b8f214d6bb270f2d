import ReductionTables.Text.Search

/-!
# What searches find

A search for the leftmost place fails only when a reader succeeds nowhere, and else no place before
the one that it finds is one. A search for the longest start is as exact about what lies behind it.
-/

namespace ReductionTables.Text

variable {α : Type} {read : Text → Option α} {t s : Text} {a : α}

theorem firstPlace?_eq_none (h : firstPlace? read t = none) :
    ∀ s u, t = s ++ u → read u = none := by
  induction t with
  | nil =>
    intro s u ht
    obtain ⟨-, rfl⟩ := List.append_eq_nil_iff.1 ht.symm
    exact h
  | cons c cs ih =>
    rw [firstPlace?] at h
    split at h
    · cases h
    · rename_i hread
      intro s u ht
      rcases List.cons_eq_append_iff.1 ht with ⟨rfl, rfl⟩ | ⟨s, rfl, rfl⟩
      · exact hread
      · exact ih h s u rfl

theorem exists_of_firstPlace? (h : firstPlace? read t = some a) :
    ∃ s u, t = s ++ u ∧ read u = some a ∧
      ∀ s' u', t = s' ++ u' → s'.length < s.length → read u' = none := by
  induction t with
  | nil => exact ⟨[], [], rfl, h, fun s' u' _ hlen => absurd hlen (Nat.not_lt_zero _)⟩
  | cons c cs ih =>
    rw [firstPlace?] at h
    split at h
    · rename_i b hb
      obtain rfl := Option.some.inj h
      exact ⟨[], c :: cs, rfl, hb, fun s' u' _ hlen => absurd hlen (Nat.not_lt_zero _)⟩
    · rename_i hread
      obtain ⟨s, u, rfl, ha, hbefore⟩ := ih h
      refine ⟨c :: s, u, rfl, ha, fun s' u' ht hlen => ?_⟩
      rcases List.cons_eq_append_iff.1 ht with ⟨rfl, rfl⟩ | ⟨s', rfl, hrest⟩
      · exact hread
      · exact hbefore s' u' hrest (by simpa using hlen)

theorem longestBefore?_eq_none (h : longestBefore? read t = none) :
    ∀ s u, t = s ++ u → '\n' ∉ s → read u = none := by
  induction t with
  | nil =>
    intro s u ht _
    obtain ⟨-, rfl⟩ := List.append_eq_nil_iff.1 ht.symm
    simpa [longestBefore?] using h
  | cons c cs ih =>
    rw [longestBefore?] at h
    split at h
    · cases h
    · rename_i hrest
      intro s u ht hs
      rcases List.cons_eq_append_iff.1 ht with ⟨rfl, rfl⟩ | ⟨s, rfl, rfl⟩
      · simpa using h
      · obtain ⟨hc, hs⟩ : '\n' ≠ c ∧ '\n' ∉ s := by simpa using hs
        rw [if_neg hc.symm] at hrest
        exact ih hrest s u rfl hs

theorem exists_of_longestBefore? (h : longestBefore? read t = some (s, a)) :
    ∃ u, t = s ++ u ∧ '\n' ∉ s ∧ read u = some a ∧
      ∀ s' u', t = s' ++ u' → '\n' ∉ s' → read u' ≠ none → s'.length ≤ s.length := by
  induction t generalizing s with
  | nil =>
    obtain ⟨b, hb, he⟩ := Option.map_eq_some_iff.1 h
    cases he
    refine ⟨[], rfl, by simp, hb, fun s' u' ht _ _ => ?_⟩
    simp [(List.append_eq_nil_iff.1 ht.symm).1]
  | cons c cs ih =>
    rw [longestBefore?] at h
    split at h
    · rename_i s₀ b hb
      obtain ⟨rfl, rfl⟩ := Prod.mk.inj (Option.some.inj h)
      split at hb
      · cases hb
      · rename_i hc
        obtain ⟨u, rfl, hs, ha, hlongest⟩ := ih hb
        refine ⟨u, rfl, by simpa [eq_comm, hs] using hc, ha, fun s' u' ht hs' hread => ?_⟩
        rcases List.cons_eq_append_iff.1 ht with ⟨rfl, -⟩ | ⟨s', rfl, hrest⟩
        · simp
        · have hline : '\n' ∉ s' := fun hmem => hs' (List.mem_cons_of_mem c hmem)
          simpa using hlongest s' u' hrest hline hread
    · rename_i hrest
      obtain ⟨b, hb, he⟩ := Option.map_eq_some_iff.1 h
      cases he
      refine ⟨c :: cs, rfl, by simp, hb, fun s' u' ht hs' hread => ?_⟩
      rcases List.cons_eq_append_iff.1 ht with ⟨rfl, -⟩ | ⟨s', rfl, rfl⟩
      · exact Nat.le_refl _
      · obtain ⟨hc, hs'⟩ : '\n' ≠ c ∧ '\n' ∉ s' := by simpa using hs'
        rw [if_neg hc.symm] at hrest
        exact absurd (longestBefore?_eq_none hrest s' u' rfl hs') hread

end ReductionTables.Text
