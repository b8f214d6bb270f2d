import ReductionTables.Proofs.Catalog
import ReductionTables.Proofs.Outcome
import ReductionTables.Proofs.Row.Atoms
import ReductionTables.Ranking

/-!
# Rankings list the facts of their catalogs

Ranking succeeds when every source can be read, and it then lists each fact of the catalog once. The
source of an entry can be read off its row, so the row alone decides how it is ranked.
-/

namespace ReductionTables

/-! ## Expressions -/

namespace Expression

variable {e : Expression} {t w : Text}

theorem ofText_eq_ok : ofText t = .ok e ↔ e.text = t ∧ Term.ofText t = .ok e.term := by
  rw [ofText]
  constructor
  · intro h
    split at h
    · rename_i term hterm
      obtain rfl := Except.ok.inj h
      exact ⟨rfl, hterm⟩
    · cases h
  · rintro ⟨rfl, hterm⟩
    rw [hterm]

theorem mem_constants_iff : w ∈ e.constants ↔ w ∈ e.term.leaves ∧ isConstantName w := by
  rw [constants, List.mem_eraseDups, List.mem_filter]

end Expression

/-! ## Entries -/

/-- What it takes to place an entry. -/
theorem Entry.rankedRow_eq_ok {e : Entry} {r : RankedRow} (h : e.rankedRow = .ok r) :
    ∃ x, Expression.ofText e.source = .ok x ∧ x.root = .ok r.root ∧ x.operators = .ok r.operators ∧
      r.constants = x.constants.map .ofWord ∧ r.row = e.row := by
  rw [rankedRow] at h
  obtain ⟨x, hx, h⟩ := bind_eq_ok.1 h
  obtain ⟨root, hroot, h⟩ := bind_eq_ok.1 h
  obtain ⟨operators, hoperators, h⟩ := bind_eq_ok.1 h
  obtain rfl := Except.ok.inj h
  exact ⟨x, hx, hroot, hoperators, rfl, rfl⟩

/-- The entry of a row, with the expression that the row was written from. -/
def Row.entry (row : Row) : Entry := ⟨row, withoutAtoms row.expression⟩

theorem Row.entry_ofVerdict (v : Verdict) : (ofVerdict v).entry = ⟨.ofVerdict v, v.oriented⟩ := by
  rw [entry, ofVerdict, withoutAtoms_withAtoms]

/-! ## Sorting -/

namespace RankedRow

theorem insert_perm (r : RankedRow) (rows : List RankedRow) : (insert r rows).Perm (r :: rows) := by
  induction rows with
  | nil => exact .refl _
  | cons s rows ih =>
    rw [insert]
    split
    · exact .refl _
    · exact (ih.cons s).trans (.swap r s rows)

theorem sort_perm (rows : List RankedRow) : (sort rows).Perm rows := by
  induction rows with
  | nil => exact .refl _
  | cons r rows ih => exact (insert_perm r (sort rows)).trans (ih.cons r)

end RankedRow

/-! ## Catalogs -/

namespace Catalog

variable {c : Catalog} {ranked : List RankedRow}

theorem ranking_eq_ok (h : c.ranking = .ok ranked) :
    ∃ rows, List.Forall₂ (fun e r => e.rankedRow = .ok r) c.entries rows ∧ ranked.Perm rows := by
  rw [ranking] at h
  obtain ⟨rows, hrows, rfl⟩ := map_eq_ok.1 h
  exact ⟨rows, forall₂_of_mapM hrows, RankedRow.sort_perm rows⟩

theorem map_row_of_forall₂ {es : List Entry} {rows : List RankedRow}
    (h : List.Forall₂ (fun e r => e.rankedRow = .ok r) es rows) :
    rows.map RankedRow.row = es.map Entry.row := by
  induction h with
  | nil => rfl
  | cons hr _ ih =>
    obtain ⟨-, -, -, -, -, hrow⟩ := Entry.rankedRow_eq_ok hr
    rw [List.map_cons, List.map_cons, ih, hrow]

theorem rows_perm_of_ranking (h : c.ranking = .ok ranked) :
    (ranked.map RankedRow.row).Perm c.rows := by
  obtain ⟨rows, hrows, hperm⟩ := ranking_eq_ok h
  rw [Catalog.rows, ← map_row_of_forall₂ hrows]
  exact hperm.map RankedRow.row

theorem exists_entry_of_ranking (h : c.ranking = .ok ranked) {r : RankedRow} (hr : r ∈ ranked) :
    ∃ e ∈ c.entries, e.rankedRow = .ok r := by
  obtain ⟨rows, hrows, hperm⟩ := ranking_eq_ok h
  obtain ⟨i, hi, rfl⟩ := List.mem_iff_getElem.1 (hperm.mem_iff.1 hr)
  have hi' : i < c.entries.length := hrows.length_eq ▸ hi
  exact ⟨c.entries[i], List.getElem_mem hi', hrows.get hi' hi⟩

/-! ## What a row says -/

theorem entries_eq {vs : List Verdict} (h : c.Collects vs) : c.entries = c.rows.map Row.entry := by
  rw [rows, List.map_map]
  refine (List.map_id _).symm.trans (List.map_congr_left fun e he => ?_)
  obtain ⟨v, -, rfl⟩ := h.stated e he
  rw [id, Function.comp, Row.entry_ofVerdict]

theorem rankedRow_of_ranking {vs : List Verdict} (hc : c.Collects vs) (h : c.ranking = .ok ranked)
    {r : RankedRow} (hr : r ∈ ranked) : r.row.entry.rankedRow = .ok r := by
  obtain ⟨e, he, hranked⟩ := exists_entry_of_ranking h hr
  rw [entries_eq hc] at he
  obtain ⟨row, -, rfl⟩ := List.mem_map.1 he
  obtain ⟨-, -, -, -, -, hrow⟩ := Entry.rankedRow_eq_ok hranked
  rw [hrow]
  exact hranked

theorem exists_ranking_iff {vs : List Verdict} (hc : c.Collects vs) :
    (∃ ranked, c.ranking = .ok ranked) ↔ ∀ row ∈ c.rows, ∃ r, row.entry.rankedRow = .ok r := by
  have hmapM : (∃ ranked, c.ranking = .ok ranked) ↔ ∃ rows, c.rankedRows = .ok rows := by
    simp [ranking, map_eq_ok]
  rw [hmapM, rankedRows, exists_mapM_iff, entries_eq hc, List.forall_mem_map]

end Catalog

end ReductionTables
