import ReductionTables.Proofs.Build.Failure
import ReductionTables.Proofs.Ranking.Order

/-!
# Tables of growing logs

A log that goes on keeps its first failure, and else its rows: new facts are entered behind the old
ones, and sorting puts them between the others without moving these. Lines that state nothing new
change the counts only.
-/

namespace ReductionTables

/-! ## Catalogs -/

namespace Catalog

theorem ofLines_append (ls ls' : List Text) :
    ofLines (ls ++ ls') = (ofLines ls).insertLines ls' := insertLines_append ∅ ls ls'

/-- Entering verdicts keeps the rows that were ranked before and ranks others behind them. -/
theorem prefix_rankedRows {c d : Catalog} (h : c.entries <+: d.entries) {rows rows' : List RankedRow}
    (hc : c.rankedRows = .ok rows) (hd : d.rankedRows = .ok rows') : rows <+: rows' := by
  obtain ⟨es, hes⟩ := h
  rw [rankedRows, ← hes, List.mapM_append, ← rankedRows, hc] at hd
  obtain ⟨more, -, hrows⟩ := map_eq_ok.1 hd
  exact ⟨more, hrows⟩

theorem ranking_sublist {c d : Catalog} (h : c.entries <+: d.entries) {ranked ranked' : List RankedRow}
    (hc : c.ranking = .ok ranked) (hd : d.ranking = .ok ranked') : ranked.Sublist ranked' := by
  obtain ⟨rows, hrows, rfl⟩ := map_eq_ok.1 hc
  obtain ⟨rows', hrows', rfl⟩ := map_eq_ok.1 hd
  exact RankedRow.sort_sublist (prefix_rankedRows h hrows hrows').sublist

theorem ranking_eq {c d : Catalog} (h : c.entries = d.entries) : c.ranking = d.ranking := by
  rw [ranking, ranking, rankedRows, rankedRows, h]

end Catalog

/-! ## Counts -/

/-- No count of the first report is above that of the second. -/
structure Report.AtMost (r s : Report) : Prop where
  total : r.total ≤ s.total
  unique : r.unique ≤ s.unique
  right : r.right ≤ s.right
  unknown : r.unknown ≤ s.unknown

theorem Report.ofCatalog_insert (c : Catalog) (v : Verdict) :
    (ofCatalog c).AtMost (ofCatalog (c.insert v)) where
  total := Nat.le_succ _
  unique := (Catalog.entries_prefix_insert c v).length_le
  right := Nat.le_add_right _ _
  unknown := Nat.le_add_right _ _

theorem Report.ofCatalog_insertMany (c : Catalog) (vs : List Verdict) :
    (ofCatalog c).AtMost (ofCatalog (c.insertMany vs)) := by
  induction vs generalizing c with
  | nil => exact ⟨Nat.le_refl _, Nat.le_refl _, Nat.le_refl _, Nat.le_refl _⟩
  | cons v vs ih =>
    have hstep := ofCatalog_insert c v
    have hrest := ih (c.insert v)
    exact ⟨hstep.total.trans hrest.total, hstep.unique.trans hrest.unique,
      hstep.right.trans hrest.right, hstep.unknown.trans hrest.unknown⟩

/-! ## Builds -/

namespace Build

variable {ls ls' : List Text} {b b' : Build} {f : Failure}

theorem ofLines_append_of_error (h : ofLines ls = .error f) (ls' : List Text) :
    ofLines (ls ++ ls') = .error f := by
  rw [ofLines_eq_error] at h ⊢
  rw [List.filterMap_append]
  exact mapM_append_of_error h _

theorem prefix_entries (ls ls' : List Text) :
    (Catalog.ofLines ls).entries <+: (Catalog.ofLines (ls ++ ls')).entries := by
  rw [Catalog.ofLines_append]
  exact Catalog.entries_prefix_insertMany _ _

theorem ranked_sublist (h : ofLines ls = .ok b) (h' : ofLines (ls ++ ls') = .ok b') :
    b.ranked.Sublist b'.ranked := by
  obtain ⟨hcatalog, hranking⟩ := ofLines_eq_ok h
  obtain ⟨hcatalog', hranking'⟩ := ofLines_eq_ok h'
  rw [hcatalog] at hranking
  rw [hcatalog'] at hranking'
  exact Catalog.ranking_sublist (prefix_entries ls ls') hranking hranking'

theorem report_atMost (h : ofLines ls = .ok b) (h' : ofLines (ls ++ ls') = .ok b') :
    b.report.AtMost b'.report := by
  rw [report, report, (ofLines_eq_ok h).1, (ofLines_eq_ok h').1, Catalog.ofLines_append]
  exact Report.ofCatalog_insertMany _ _

theorem rows_sublist (h : ofLines ls = .ok b) (h' : ofLines (ls ++ ls') = .ok b') (s : Slot) :
    (b.tables.rows s).Sublist (b'.tables.rows s) :=
  ((ranked_sublist h h').filter _).map RankedRow.row

theorem constants_subset (h : ofLines ls = .ok b) (h' : ofLines (ls ++ ls') = .ok b') :
    b.tables.constants ⊆ b'.tables.constants := by
  intro c hc
  obtain ⟨r, hr, hcr⟩ := Tables.mem_constants_ofRanking.1 hc
  exact Tables.mem_constants_ofRanking.2 ⟨r, (ranked_sublist h h').subset hr, hcr⟩

/-- Every result line of the second log states what some line of the first one states. -/
def Restates (ls ls' : List Text) : Prop :=
  ∀ l' ∈ ls', ∀ v', Verdict.ofLine? l' = some v' →
    ∃ l ∈ ls, ∃ v, Verdict.ofLine? l = some v ∧ Row.ofVerdict v' = Row.ofVerdict v

theorem entries_append (hls : Restates ls ls') :
    (Catalog.ofLines (ls ++ ls')).entries = (Catalog.ofLines ls).entries := by
  rw [Catalog.ofLines_append]
  refine Catalog.entries_insertMany_of_mem fun v' hv' => ?_
  obtain ⟨l', hl', hv'⟩ := List.mem_filterMap.1 hv'
  obtain ⟨l, hl, v, hv, hrow⟩ := hls l' hl' v' hv'
  rw [hrow]
  exact (Catalog.collects_ofLines ls).mem_rows v (List.mem_filterMap.2 ⟨l, hl, hv⟩)

theorem ofLines_append_of_restates (h : ofLines ls = .ok b) (hls : Restates ls ls') :
    ofLines (ls ++ ls') = .ok ⟨Catalog.ofLines (ls ++ ls'), b.ranked⟩ := by
  obtain ⟨hcatalog, hranking⟩ := ofLines_eq_ok h
  rw [hcatalog] at hranking
  rw [ofLines, Catalog.ranking_eq (entries_append hls), hranking]
  rfl

/-- A log that goes on is refused as before if it was; else each table keeps its rows in their order,
the constants stay and no count goes back. When what is added states nothing new, the tables and the
files stay as they are. -/
theorem tables_grow_with_the_log (ls ls' : List Text) :
    (∀ f, ofLines ls = .error f → ofLines (ls ++ ls') = .error f) ∧
      (∀ b b', ofLines ls = .ok b → ofLines (ls ++ ls') = .ok b' →
        (∀ s, (b.tables.rows s).Sublist (b'.tables.rows s)) ∧
          b.tables.constants ⊆ b'.tables.constants ∧ b.report.AtMost b'.report) ∧
      (Restates ls ls' → ∀ b, ofLines ls = .ok b → ∃ b', ofLines (ls ++ ls') = .ok b' ∧
        b'.tables = b.tables ∧ b'.tables.files = b.tables.files ∧
          b'.report.unique = b.report.unique) := by
  refine ⟨fun f h => ofLines_append_of_error h ls', fun b b' h h' => ?_, fun hls b h => ?_⟩
  · exact ⟨rows_sublist h h', constants_subset h h', report_atMost h h'⟩
  · refine ⟨_, ofLines_append_of_restates h hls, rfl, rfl, ?_⟩
    have hunique := congrArg List.length (entries_append hls)
    rw [report, report, (ofLines_eq_ok h).1]
    exact hunique

theorem minimum_stays_in_a_growing_log :
    (∃ f,
      ofLines [
        "Leaves: 2, i: 0, Div::make(x0, y0) -> Left-associativity with identity: \x7b 1 \x7d"] =
          .error f ∧
      ofLines [
        "Leaves: 2, i: 0, Div::make(x0, y0) -> Left-associativity with identity: \x7b 1 \x7d",
        "Leaves: 2, i: 1, Min::make(x0 -> Left-associativity with identity: \x7b 7 \x7d"] =
          .error f) ∧
    (∃ b b',
      ofLines [
        "Leaves: 2, i: 0, Min::make(x0, y0) -> Left-associativity with identity: \x7b 7 \x7d"] =
          .ok b ∧
      ofLines [
        "Leaves: 2, i: 0, Min::make(x0, y0) -> Left-associativity with identity: \x7b 7 \x7d",
        "Leaves: 2, i: 1, Min::make(k, y0) -> Right-associativity with identity: \x7b 8 \x7d"] =
          .ok b' ∧
      (b.tables.rows ⟨.min, .single⟩).Sublist (b'.tables.rows ⟨.min, .single⟩) ∧
      b.report.AtMost b'.report) ∧
    ∃ b b',
      ofLines [
        "Leaves: 2, i: 0, Min::make(x0, y0) -> Left-associativity with identity: \x7b 7 \x7d"] =
          .ok b ∧
      ofLines [
        "Leaves: 2, i: 0, Min::make(x0, y0) -> Left-associativity with identity: \x7b 7 \x7d",
        "Elapsed: 2 s",
        "Leaves: 2, i: 1, Min::make(y0, x0) -> Right-associativity with identity: \x7b 7 \x7d"] =
          .ok b' ∧
      b'.tables.files = b.tables.files := by
  refine ⟨?_, ?_, ?_⟩
  · have hdiv : ofLines [
        "Leaves: 2, i: 0, Div::make(x0, y0) -> Left-associativity with identity: \x7b 1 \x7d"] =
          .error (.unknownOperator "Div" "Div::make(x0, y0)") :=
      ofLines_eq_error.2 (by decide +kernel)
    exact ⟨_, hdiv, (tables_grow_with_the_log [_] [_]).1 _ hdiv⟩
  · refine exists_builds (p := fun _ _ => True) [⟨"Min::make(x0, y0)", .left, .proven, "7"⟩]
      [⟨"Min::make(x0, y0)", .left, .proven, "7"⟩, ⟨"Min::make(k, y0)", .right, .proven, "8"⟩]
      (by decide +kernel) (by decide +kernel) (by decide +kernel) fun b b' h h' _ => ?_
    obtain ⟨hrows, -, hreport⟩ := (tables_grow_with_the_log [_] [_]).2.1 b b' h h'
    exact ⟨hrows _, hreport⟩
  · have hmin : Verdict.ofLine?
        "Leaves: 2, i: 0, Min::make(x0, y0) -> Left-associativity with identity: \x7b 7 \x7d".toList =
          some ⟨"Min::make(x0, y0)", .left, .proven, "7"⟩ := by decide +kernel
    have hnone : Verdict.ofLine? "Elapsed: 2 s".toList = none := by decide +kernel
    have hswapped : Verdict.ofLine?
        "Leaves: 2, i: 1, Min::make(y0, x0) -> Right-associativity with identity: \x7b 7 \x7d".toList =
          some ⟨"Min::make(y0, x0)", .right, .proven, "7"⟩ := by decide +kernel
    have hrestates : Restates [
        "Leaves: 2, i: 0, Min::make(x0, y0) -> Left-associativity with identity: \x7b 7 \x7d"] [
        "Elapsed: 2 s",
        "Leaves: 2, i: 1, Min::make(y0, x0) -> Right-associativity with identity: \x7b 7 \x7d"] := by
      intro l hl v hv
      rcases List.mem_pair.1 hl with rfl | rfl
      · rw [hnone] at hv
        cases hv
      · rw [hswapped] at hv
        obtain rfl := Option.some.inj hv
        exact ⟨_, List.mem_singleton_self _, _, hmin, by decide⟩
    obtain ⟨b, hb⟩ : ∃ b, ofLines [
        "Leaves: 2, i: 0, Min::make(x0, y0) -> Left-associativity with identity: \x7b 7 \x7d"] =
          .ok b := exists_of_isOk (by decide +kernel)
    obtain ⟨b', hb', -, hfiles, -⟩ := (tables_grow_with_the_log _ _).2.2 hrestates b hb
    exact ⟨b, b', hb, hb', hfiles⟩

end Build

end ReductionTables
