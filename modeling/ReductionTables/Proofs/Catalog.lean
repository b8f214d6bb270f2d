import Mathlib.Data.List.Nodup
import Mathlib.Data.List.Perm.Subperm
import ReductionTables.Catalog

/-!
# What a catalog holds

A catalog holds each fact of the verdicts that were entered once, with the expression of a verdict
that states it.
-/

namespace ReductionTables.Catalog

/-- The catalog is that of the verdicts. -/
structure Collects (c : Catalog) (vs : List Verdict) : Prop where
  rows_nodup : c.rows.Nodup
  mem_rows : ∀ v ∈ vs, Row.ofVerdict v ∈ c.rows
  stated : ∀ e ∈ c.entries, ∃ v ∈ vs, e = ⟨.ofVerdict v, v.oriented⟩
  total_eq : c.total = vs.length

variable {c : Catalog} {vs : List Verdict}

theorem collects_empty : (∅ : Catalog).Collects [] where
  rows_nodup := List.nodup_nil
  mem_rows _ hv := absurd hv List.not_mem_nil
  stated _ he := absurd he List.not_mem_nil
  total_eq := rfl

theorem rows_insert (c : Catalog) (v : Verdict) : (c.insert v).rows =
    if Row.ofVerdict v ∈ c.rows then c.rows else c.rows ++ [.ofVerdict v] := by
  rw [rows, insert]
  split
  · rfl
  · simp [rows]

/-- A catalog stays that of its verdicts when one more is counted. -/
theorem Collects.insert (h : c.Collects vs) (v : Verdict) : (c.insert v).Collects (vs ++ [v]) where
  rows_nodup := by
    rw [rows_insert]
    split
    · exact h.rows_nodup
    · rename_i hnew
      exact h.rows_nodup.append (List.nodup_singleton _) (List.disjoint_singleton.2 hnew)
  mem_rows := by
    intro w hw
    have hentered : Row.ofVerdict v ∈ (c.insert v).rows := by
      rw [rows_insert]
      split
      · assumption
      · simp
    rcases List.mem_append.1 hw with hw | hw
    · have hold := h.mem_rows w hw
      rw [rows_insert]
      split
      · exact hold
      · exact List.mem_append_left _ hold
    · rw [List.mem_singleton.1 hw]
      exact hentered
  stated := by
    intro e he
    have hentry : e ∈ c.entries ∨ e = ⟨.ofVerdict v, v.oriented⟩ := by
      rw [Catalog.insert] at he
      split at he
      · exact Or.inl he
      · simpa using he
    rcases hentry with he | rfl
    · obtain ⟨w, hw, rfl⟩ := h.stated e he
      exact ⟨w, List.mem_append_left _ hw, rfl⟩
    · exact ⟨v, by simp, rfl⟩
  total_eq := by
    have hlen : (vs ++ [v]).length = vs.length + 1 := List.length_append
    rw [hlen, ← h.total_eq, Catalog.insert]

theorem Collects.insertMany (h : c.Collects vs) (ws : List Verdict) :
    (c.insertMany ws).Collects (vs ++ ws) := by
  induction ws generalizing c vs with
  | nil => simpa [Catalog.insertMany] using h
  | cons w ws ih => simpa [Catalog.insertMany] using ih (h.insert w)

theorem collects_ofLines (ls : List Text) : (ofLines ls).Collects (ls.filterMap Verdict.ofLine?) := by
  simpa [ofLines, insertLines] using collects_empty.insertMany (ls.filterMap Verdict.ofLine?)

namespace Collects

theorem exists_of_mem_rows (h : c.Collects vs) {row : Row} (hrow : row ∈ c.rows) :
    ∃ v ∈ vs, Row.ofVerdict v = row := by
  obtain ⟨e, he, rfl⟩ := List.mem_map.1 hrow
  obtain ⟨v, hv, rfl⟩ := h.stated e he
  exact ⟨v, hv, rfl⟩

theorem unique_le_total (h : c.Collects vs) : c.unique ≤ c.total := by
  have hsubset : c.rows ⊆ vs.map Row.ofVerdict := fun row hrow => by
    obtain ⟨v, hv, rfl⟩ := h.exists_of_mem_rows hrow
    exact List.mem_map_of_mem hv
  have hlen := (h.rows_nodup.subperm hsubset).length_le
  rw [h.total_eq, unique]
  simpa [rows] using hlen

theorem mem_rows_iff (h : c.Collects vs) {row : Row} :
    row ∈ c.rows ↔ ∃ v ∈ vs, Row.ofVerdict v = row := by
  refine ⟨h.exists_of_mem_rows, ?_⟩
  rintro ⟨v, hv, rfl⟩
  exact h.mem_rows v hv

end Collects

/-! ## Entries -/

theorem insertMany_cons (c : Catalog) (v : Verdict) (vs : List Verdict) :
    c.insertMany (v :: vs) = (c.insert v).insertMany vs := rfl

theorem insertLines_append (c : Catalog) (ls ls' : List Text) :
    c.insertLines (ls ++ ls') = (c.insertLines ls).insertLines ls' := by
  simp only [insertLines, insertMany, List.filterMap_append, List.foldl_append]

theorem entries_insert_of_mem {v : Verdict} (h : Row.ofVerdict v ∈ c.rows) :
    (c.insert v).entries = c.entries := by
  rw [insert, if_pos h]

theorem entries_insert_of_not_mem {v : Verdict} (h : Row.ofVerdict v ∉ c.rows) :
    (c.insert v).entries = c.entries ++ [⟨.ofVerdict v, v.oriented⟩] := by
  rw [insert, if_neg h]

theorem entries_prefix_insert (c : Catalog) (v : Verdict) : c.entries <+: (c.insert v).entries := by
  by_cases h : Row.ofVerdict v ∈ c.rows
  · exact ⟨[], by rw [List.append_nil, entries_insert_of_mem h]⟩
  · exact ⟨_, (entries_insert_of_not_mem h).symm⟩

theorem entries_prefix_insertMany (c : Catalog) (vs : List Verdict) :
    c.entries <+: (c.insertMany vs).entries := by
  induction vs generalizing c with
  | nil => exact List.prefix_refl _
  | cons v vs ih => exact (entries_prefix_insert c v).trans (ih (c.insert v))

theorem entries_insertMany_of_mem (h : ∀ v ∈ vs, Row.ofVerdict v ∈ c.rows) :
    (c.insertMany vs).entries = c.entries := by
  induction vs generalizing c with
  | nil => rfl
  | cons v vs ih =>
    obtain ⟨hv, hvs⟩ := List.forall_mem_cons.1 h
    have hentries := entries_insert_of_mem hv
    have hrows : (c.insert v).rows = c.rows := congrArg (List.map Entry.row) hentries
    rw [insertMany_cons, ih fun w hw => hrows.symm ▸ hvs w hw, hentries]

/-! ## Counts -/

theorem counts_insertMany (c : Catalog) (vs : List Verdict) :
    (c.insertMany vs).right = c.right + (vs.countP fun v => v.direction = .right) ∧
      (c.insertMany vs).unknown = c.unknown + vs.countP fun v => v.status = .unknown := by
  induction vs generalizing c with
  | nil => exact ⟨rfl, rfl⟩
  | cons v vs ih =>
    obtain ⟨hright, hunknown⟩ := ih (c.insert v)
    rw [insertMany_cons, hright, hunknown, List.countP_cons, List.countP_cons, insert]
    simp only [decide_eq_true_eq]
    omega

/-! ## Reordered logs -/

variable {ls ls' : List Text}

theorem rows_perm (h : ls.Perm ls') : (ofLines ls).rows.Perm (ofLines ls').rows := by
  refine (List.perm_ext_iff_of_nodup (collects_ofLines ls).rows_nodup
    (collects_ofLines ls').rows_nodup).2 fun row => ?_
  rw [(collects_ofLines ls).mem_rows_iff, (collects_ofLines ls').mem_rows_iff]
  simp only [(h.filterMap Verdict.ofLine?).mem_iff]

theorem report_eq (h : ls.Perm ls') :
    Report.ofCatalog (ofLines ls) = Report.ofCatalog (ofLines ls') := by
  have hverdicts := h.filterMap Verdict.ofLine?
  have htotal : (ofLines ls).total = (ofLines ls').total := by
    rw [(collects_ofLines ls).total_eq, (collects_ofLines ls').total_eq, hverdicts.length_eq]
  have hunique : (ofLines ls).unique = (ofLines ls').unique := by
    simpa [rows, unique] using (rows_perm h).length_eq
  have hcounts := counts_insertMany ∅ (ls.filterMap Verdict.ofLine?)
  rw [hverdicts.countP_eq, hverdicts.countP_eq] at hcounts
  have hcounts' := counts_insertMany ∅ (ls'.filterMap Verdict.ofLine?)
  have hright : (ofLines ls).right = (ofLines ls').right := hcounts.1.trans hcounts'.1.symm
  have hunknown : (ofLines ls).unknown = (ofLines ls').unknown := hcounts.2.trans hcounts'.2.symm
  rw [Report.ofCatalog, Report.ofCatalog, htotal, hunique, hright, hunknown]

end ReductionTables.Catalog
