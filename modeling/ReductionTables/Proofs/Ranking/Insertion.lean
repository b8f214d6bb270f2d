import ReductionTables.Proofs.Ranking

/-!
# Ranking while verdicts are entered

A verdict whose fact is in the catalog already has the source that the fact was ranked by, so leaving
it out hides no failure: a catalog cannot be ranked exactly when one of its verdicts cannot, and the
first of these decides how it fails.
-/

namespace ReductionTables

/-- Ranks the fact that the verdict states. -/
def Verdict.rankedRow (v : Verdict) : Except Failure RankedRow :=
  Entry.rankedRow ⟨.ofVerdict v, v.oriented⟩

namespace Catalog

variable {c : Catalog} {v : Verdict} {vs ws : List Verdict} {f : Failure}

theorem exists_rankedRow_of_mem (hc : c.Collects vs) {rows : List RankedRow}
    (h : c.rankedRows = .ok rows) (hv : Row.ofVerdict v ∈ c.rows) : ∃ r, v.rankedRow = .ok r := by
  have hall := exists_mapM_iff.1 ⟨rows, h⟩
  rw [entries_eq hc] at hall
  obtain ⟨r, hr⟩ := hall _ (List.mem_map_of_mem hv)
  exact ⟨r, by rwa [Row.entry_ofVerdict] at hr⟩

/-- One more verdict is ranked after the facts that are there, whether its fact is new or not. -/
theorem rankedRows_insert (hc : c.Collects vs) (v : Verdict) : (c.insert v).rankedRows =
    c.rankedRows.bind fun rows => v.rankedRow.map fun r =>
      if Row.ofVerdict v ∈ c.rows then rows else rows ++ [r] := by
  by_cases hv : Row.ofVerdict v ∈ c.rows
  · have hsame : (c.insert v).rankedRows = c.rankedRows := by
      rw [rankedRows, entries_insert_of_mem hv, rankedRows]
    rw [hsame]
    cases hrows : c.rankedRows with
    | error f => rfl
    | ok rows =>
      obtain ⟨r, hr⟩ := exists_rankedRow_of_mem hc hrows hv
      simp only [Except.bind, hr, Except.map, if_pos hv]
  · rw [rankedRows, entries_insert_of_not_mem hv, List.mapM_append, mapM_singleton, ← rankedRows]
    cases c.rankedRows with
    | error f => rfl
    | ok rows =>
      simp only [if_neg hv, Verdict.rankedRow]
      cases Entry.rankedRow ⟨.ofVerdict v, v.oriented⟩ with
      | error f => rfl
      | ok r => rfl

/-- A catalog cannot be ranked when it could not be before, or else when a verdict that was entered
cannot be; the first one decides. -/
theorem rankedRows_insertMany_eq_error (hc : c.Collects vs) : (c.insertMany ws).rankedRows = .error f ↔
    c.rankedRows = .error f ∨ ∃ rows, c.rankedRows = .ok rows ∧ ws.mapM Verdict.rankedRow = .error f := by
  induction ws generalizing c vs with
  | nil =>
    refine (or_iff_left ?_).symm
    rintro ⟨rows, -, hnil⟩
    cases hnil
  | cons w ws ih =>
    rw [insertMany_cons, ih (hc.insert w), rankedRows_insert hc]
    simp only [bind_eq_error, bind_eq_ok, map_eq_error, map_eq_ok, mapM_cons_eq_error]
    grind

end Catalog

end ReductionTables
