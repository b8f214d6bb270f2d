import Mathlib.Data.List.Perm.Lattice
import ReductionTables.Proofs.Build
import ReductionTables.Proofs.Ranking.Order

/-!
# Builds of two logs

A row decides how it is ranked, so two builds that list the same rows in the same places agree in
everything that is printed. A log in another order states the same facts, and among these only rows
with equal operators can change places.
-/

namespace ReductionTables.Build

variable {ls ls₁ ls₂ : List Text} {b b₁ b₂ : Build}

/-! ## What the rows decide -/

theorem map_ok_ranked (h : ofLines ls = .ok b) : b.ranked.map Except.ok =
    (b.ranked.map RankedRow.row).map fun row => row.entry.rankedRow := by
  rw [List.map_map]
  exact List.map_congr_left fun r hr => (rankedRow_of_mem h hr).symm

theorem ok_injective : Function.Injective (Except.ok : RankedRow → Except Failure RankedRow) :=
  fun _ _ => Except.ok.inj

theorem eq_of_row_eq (h₁ : ofLines ls₁ = .ok b₁) (h₂ : ofLines ls₂ = .ok b₂) {r s : RankedRow}
    (hr : r ∈ b₁.ranked) (hs : s ∈ b₂.ranked) (hrow : r.row = s.row) : r = s := by
  have hranked := rankedRow_of_mem h₁ hr
  rw [hrow, rankedRow_of_mem h₂ hs] at hranked
  exact (Except.ok.inj hranked).symm

theorem sorted_ranked (h : ofLines ls = .ok b) : RankedRow.Sorted b.ranked :=
  Catalog.sorted_of_ranking (ofLines_eq_ok h).2

theorem flatMap_rows (h : ofLines ls = .ok b) :
    Slot.all.flatMap b.tables.rows = b.ranked.map RankedRow.row :=
  Tables.flatMap_rows_of_roots (Catalog.roots_of_ranking (ofLines_eq_ok h).2)

theorem ranked_eq_of_rows (h₁ : ofLines ls₁ = .ok b₁) (h₂ : ofLines ls₂ = .ok b₂)
    (hrows : ∀ s ∈ Slot.all, b₁.tables.rows s = b₂.tables.rows s) : b₁.ranked = b₂.ranked := by
  refine List.map_injective_iff.2 ok_injective ?_
  rw [map_ok_ranked h₁, map_ok_ranked h₂, ← flatMap_rows h₁, ← flatMap_rows h₂,
    List.flatMap_congr hrows]

/-- Tables that are the same up to the order of their constants are printed alike: their rows decide
the order of the constants too. -/
theorem same_tables_are_printed_alike (h₁ : ofLines ls₁ = .ok b₁) (h₂ : ofLines ls₂ = .ok b₂)
    (hsame : b₁.tables.Same b₂.tables) : b₁.tables.files = b₂.tables.files := by
  rw [tables, tables, ranked_eq_of_rows h₁ h₂ hsame.1]

theorem sum_and_minimum_are_printed_alike :
    ∃ b₁ b₂,
      ofLines [
        "Leaves: 2, i: 0, Min::make(x0, k) -> Left-associativity with identity: \x7b 7 \x7d",
        "Leaves: 2, i: 1, Add::make(m, x0) -> Right-associativity with identity: \x7b 0 \x7d"] = .ok b₁ ∧
      ofLines [
        "Leaves: 2, i: 1, Add::make(m, y0) -> UNKNOWN associative with left-identity: \x7b 0 \x7d",
        "Leaves: 2, i: 0, Min::make(x0, k) -> Left-associativity with identity: \x7b 7 \x7d"] = .ok b₂ ∧
      b₁.tables.Same b₂.tables ∧ b₁.tables.files = b₂.tables.files := by
  refine exists_builds (p := fun b₁ b₂ => b₁.tables.Same b₂.tables)
    [⟨"Min::make(x0, k)", .left, .proven, "7"⟩, ⟨"Add::make(m, x0)", .right, .proven, "0"⟩]
    [⟨"Add::make(m, y0)", .left, .unknown, "0"⟩, ⟨"Min::make(x0, k)", .left, .proven, "7"⟩]
    (by decide +kernel) (by decide +kernel) (by decide +kernel) fun b₁ b₂ h₁ h₂ hsame => ⟨hsame, ?_⟩
  exact same_tables_are_printed_alike h₁ h₂ hsame

/-! ## Reordered logs -/

theorem exists_build_iff (ls : List Text) : (∃ b, ofLines ls = .ok b) ↔
    ∀ row ∈ (Catalog.ofLines ls).rows, ∃ r, row.entry.rankedRow = .ok r := by
  rw [← Catalog.exists_ranking_iff (Catalog.collects_ofLines ls)]
  simp [ofLines, map_eq_ok]

theorem ranked_perm (h₁ : ofLines ls₁ = .ok b₁) (h₂ : ofLines ls₂ = .ok b₂) (hls : ls₁.Perm ls₂) :
    b₁.ranked.Perm b₂.ranked := by
  obtain ⟨hcatalog₁, hranking₁⟩ := ofLines_eq_ok h₁
  obtain ⟨hcatalog₂, hranking₂⟩ := ofLines_eq_ok h₂
  rw [hcatalog₁] at hranking₁
  rw [hcatalog₂] at hranking₂
  have hrows : (b₁.ranked.map RankedRow.row).Perm (b₂.ranked.map RankedRow.row) :=
    (Catalog.rows_perm_of_ranking hranking₁).trans
      ((Catalog.rows_perm hls).trans (Catalog.rows_perm_of_ranking hranking₂).symm)
  have hok := hrows.map fun row => row.entry.rankedRow
  rw [← map_ok_ranked h₁, ← map_ok_ranked h₂] at hok
  exact (List.map_perm_map_iff ok_injective).1 hok

/-- The ranked rows that the table of a slot lists. -/
def listed (b : Build) (s : Slot) : List RankedRow :=
  b.ranked.filter fun r => Slot.mk r.root .single = s

theorem rows_tables (b : Build) (s : Slot) : b.tables.rows s = (b.listed s).map RankedRow.row := rfl

theorem sorted_listed (h : ofLines ls = .ok b) (s : Slot) : RankedRow.Sorted (b.listed s) :=
  (sorted_ranked h).filter _

/-- Reordering a log changes nothing but the order of rows with equal operators: it is refused or
not as before, with the same report, the same constants and the same rows in each table, where the
keys stand as they stood. When no two rows have equal operators it changes nothing at all. -/
theorem reordering_moves_only_ties (hls : ls₁.Perm ls₂) :
    ((∃ b, ofLines ls₁ = .ok b) ↔ ∃ b, ofLines ls₂ = .ok b) ∧
      ∀ b₁ b₂, ofLines ls₁ = .ok b₁ → ofLines ls₂ = .ok b₂ →
        b₁.report = b₂.report ∧
        (∀ c, c ∈ b₁.tables.constants ↔ c ∈ b₂.tables.constants) ∧
        (∀ s, b₁.tables.rows s = (b₁.listed s).map RankedRow.row ∧
          b₂.tables.rows s = (b₂.listed s).map RankedRow.row ∧
          (b₁.tables.rows s).Perm (b₂.tables.rows s) ∧
          (b₁.listed s).map RankedRow.key = (b₂.listed s).map RankedRow.key) ∧
        ((∀ r ∈ b₁.ranked, ∀ s ∈ b₁.ranked, r.operators = s.operators → r.row = s.row) →
          b₁.tables = b₂.tables ∧ b₁.tables.files = b₂.tables.files) := by
  refine ⟨?_, fun b₁ b₂ h₁ h₂ => ?_⟩
  · simp only [exists_build_iff, (Catalog.rows_perm hls).mem_iff]
  · have hperm := ranked_perm h₁ h₂ hls
    have hlisted : ∀ s, (b₁.listed s).Perm (b₂.listed s) := fun s => hperm.filter _
    refine ⟨?_, fun c => ?_, fun s =>
      ⟨b₁.rows_tables s, b₂.rows_tables s, (hlisted s).map _, ?_⟩, fun hties => ?_⟩
    · rw [report, report, (ofLines_eq_ok h₁).1, (ofLines_eq_ok h₂).1, Catalog.report_eq hls]
    · simp only [tables, Tables.mem_constants_ofRanking, hperm.mem_iff]
    · exact (sorted_listed h₁ s).map_key_eq (sorted_listed h₂ s) (hlisted s)
    · have hkeys : ∀ r ∈ b₁.ranked, ∀ s ∈ b₁.ranked, r.key = s.key → r = s := by
        intro r hr s hs hkey
        have hoperators : r.operators = s.operators :=
          List.map_injective_iff.2 Operator.rank_injective hkey
        exact eq_of_row_eq h₁ h₁ hr hs (hties r hr s hs hoperators)
      have hranked := (sorted_ranked h₁).eq_of_perm (sorted_ranked h₂) hperm hkeys
      rw [tables, tables, hranked]
      exact ⟨rfl, rfl⟩

theorem sum_and_minimum_can_be_reordered :
    ∃ b₁ b₂,
      ofLines [
        "Leaves: 2, i: 0, Min::make(x0, k) -> Left-associativity with identity: \x7b 7 \x7d",
        "Leaves: 2, i: 1, Add::make(m, x0) -> Right-associativity with identity: \x7b 0 \x7d"] = .ok b₁ ∧
      ofLines [
        "Leaves: 2, i: 1, Add::make(m, x0) -> Right-associativity with identity: \x7b 0 \x7d",
        "Leaves: 2, i: 0, Min::make(x0, k) -> Left-associativity with identity: \x7b 7 \x7d"] = .ok b₂ ∧
      b₁.report = b₂.report ∧ b₁.tables.files = b₂.tables.files := by
  refine exists_builds
    (p := fun b _ => ∀ r ∈ b.ranked, ∀ s ∈ b.ranked, r.operators = s.operators → r.row = s.row)
    [⟨"Min::make(x0, k)", .left, .proven, "7"⟩, ⟨"Add::make(m, x0)", .right, .proven, "0"⟩]
    [⟨"Add::make(m, x0)", .right, .proven, "0"⟩, ⟨"Min::make(x0, k)", .left, .proven, "7"⟩]
    (by decide +kernel) (by decide +kernel) (by decide +kernel) fun b₁ b₂ h₁ h₂ hties => ?_
  obtain ⟨hreport, -, -, hfiles⟩ := (reordering_moves_only_ties (.swap _ _ _)).2 b₁ b₂ h₁ h₂
  exact ⟨hreport, (hfiles hties).2⟩

end ReductionTables.Build
