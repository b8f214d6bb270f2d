import ReductionTables.Proofs.Build.Comparison
import ReductionTables.Proofs.FirstOccurrences
import ReductionTables.Proofs.Term.Scanning

/-!
# Constants in the order of use

Constants are collected row by row while the rows are sorted, and within a row leaf by leaf of the term
that was read. The order is that of the printed text all the same: leaves stand as they do in their
expression, and the rows are sorted by table first.
-/

namespace ReductionTables

theorem Constant.ofWord_injective : Function.Injective ofWord :=
  fun _ _ h => (Constant.mk.inj h).2

theorem Expression.constants_eq {t : Text} {e : Expression} (h : ofText t = .ok e) :
    e.constants = ((Text.plainWords t).filter isConstantName).eraseDups := by
  rw [constants, Term.plainWords_eq (ofText_eq_ok.1 h).2]

theorem Entry.constants_of_rankedRow {e : Entry} {r : RankedRow} (h : e.rankedRow = .ok r) :
    r.constants = (((Text.plainWords e.source).filter isConstantName).eraseDups).map .ofWord := by
  obtain ⟨x, hx, -, -, hconstants, -⟩ := Entry.rankedRow_eq_ok h
  rw [hconstants, Expression.constants_eq hx]

namespace Build

/-- The oriented expression of the first of some verdicts that states a row. -/
def firstSource? (vs : List Verdict) (row : Row) : Option Text :=
  (vs.find? fun v => Row.ofVerdict v = row).map Verdict.oriented

variable {ls : List Text} {b : Build} {r : RankedRow}

theorem firstSource?_of_mem (h : ofLines ls = .ok b) (hr : r ∈ b.ranked) :
    firstSource? (ls.filterMap Verdict.ofLine?) r.row = some r.row.entry.source := by
  obtain ⟨v, hv, hrow⟩ := exists_verdict h (Tables.mem_rows_ofRanking.2 ⟨r, hr, rfl, rfl⟩)
  rw [firstSource?, find?_map_eq_some_iff]
  · exact ⟨v, hv, hrow, by rw [← hrow, Row.entry_ofVerdict]⟩
  · exact fun v _ w _ hv hw => Verdict.oriented_eq_of_row_eq (hv.trans hw.symm)

theorem constants_tables (h : ofLines ls = .ok b) : b.tables.constants =
    (((b.ranked.map fun r => r.row.entry.source).flatMap Text.plainWords).filter
      isConstantName).eraseDups.map .ofWord := by
  have hranked : b.ranked.flatMap RankedRow.constants =
      (b.ranked.flatMap fun r =>
        ((Text.plainWords r.row.entry.source).filter isConstantName).eraseDups).map .ofWord := by
    rw [List.map_flatMap]
    exact List.flatMap_congr fun r hr => Entry.constants_of_rankedRow (rankedRow_of_mem h hr)
  calc b.tables.constants = (b.ranked.flatMap RankedRow.constants).eraseDups := rfl
    _ = (b.ranked.flatMap fun r =>
          ((Text.plainWords r.row.entry.source).filter isConstantName).eraseDups).eraseDups.map
            .ofWord := by rw [hranked, eraseDups_map Constant.ofWord_injective]
    _ = _ := by rw [eraseDups_flatMap_eraseDups, List.flatMap_map, List.filter_flatMap]

/-- When the rows are read as they are printed, and in each row the plain words of the expression that
it was first stated by, then the constants are met in the order in which they are declared. Each is
declared once. -/
theorem constants_come_in_the_order_of_use (h : ofLines ls = .ok b) :
    ∃ sources : List Text,
      (Slot.all.flatMap b.tables.rows).map (firstSource? (ls.filterMap Verdict.ofLine?)) =
        sources.map some ∧
      b.tables.constants =
        ((sources.flatMap Text.plainWords).filter isConstantName).eraseDups.map .ofWord ∧
      (b.tables.constants.map Constant.word).Nodup := by
  refine ⟨b.ranked.map fun r => r.row.entry.source, ?_, constants_tables h, ?_⟩
  · rw [flatMap_rows h, List.map_map, List.map_map]
    exact List.map_congr_left fun r hr => firstSource?_of_mem h hr
  · have hwords : ∀ ws : List Text, (ws.map Constant.ofWord).map Constant.word = ws := by
      intro ws
      simp [Function.comp_def, Constant.ofWord]
    rw [constants_tables h, hwords]
    exact nodup_eraseDups _

theorem constants_of_a_sum_come_before_those_of_a_minimum :
    ∃ b, ofLines [
        "Leaves: 2, i: 0, Min::make(x0, kx0) -> Left-associativity with identity: \x7b 7 \x7d",
        "Leaves: 3, i: 1, Add::make(Max::make(m, kx0), m) -> Right-associativity with identity: \x7b 0 \x7d"] =
          .ok b ∧
      b.tables.constants = [⟨"m", "m"⟩, ⟨"ki32_y0", "ky0"⟩, ⟨"ki32_x0", "kx0"⟩] := by
  have hverdicts : List.filterMap Verdict.ofLine? [
      "Leaves: 2, i: 0, Min::make(x0, kx0) -> Left-associativity with identity: \x7b 7 \x7d",
      "Leaves: 3, i: 1, Add::make(Max::make(m, kx0), m) -> Right-associativity with identity: \x7b 0 \x7d"] =
        [⟨"Min::make(x0, kx0)", .left, .proven, "7"⟩,
          ⟨"Add::make(Max::make(m, kx0), m)", .right, .proven, "0"⟩] := by decide +kernel
  have hrows : ∃ b ∈ (ofVerdicts [⟨"Min::make(x0, kx0)", .left, .proven, "7"⟩,
      ⟨"Add::make(Max::make(m, kx0), m)", .right, .proven, "0"⟩]).toOption,
        Slot.all.flatMap b.tables.rows =
          [⟨"Add::make(Max::make(m, ki32_y0), m)", "i32_zero"⟩, ⟨"Min::make(i32_x0, ki32_x0)", "7"⟩] := by
    decide +kernel
  obtain ⟨b, hb, hrows⟩ := hrows
  have h := (ofLines_eq hverdicts).trans (eq_ok_of_mem_toOption hb)
  obtain ⟨sources, hsources, hconstants, -⟩ := constants_come_in_the_order_of_use h
  rw [hrows, hverdicts] at hsources
  have hmap : sources.map some =
      ["Add::make(Max::make(m, ky0), m)".toList, "Min::make(x0, kx0)".toList].map some :=
    hsources.symm.trans (by decide +kernel)
  obtain rfl := List.map_injective_iff.2 (Option.some_injective _) hmap
  exact ⟨b, h, hconstants.trans (by decide +kernel)⟩

end Build

end ReductionTables
