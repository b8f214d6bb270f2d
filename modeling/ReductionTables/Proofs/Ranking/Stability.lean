import Mathlib.Data.List.Lex
import ReductionTables.Proofs.Ranking.Order
import ReductionTables.Proofs.Tables

/-!
# Rankings are stable

The order of a ranking is decided by the keys of its rows, compared as words, and by the order in which
the facts were first seen: rows with equal keys keep the latter. These two conditions leave no choice.
The root of a row is the first operator of its key, so the tables of single expressions, one after the
other, list the rows as the ranking does.
-/

namespace ReductionTables

/-- The order of keys is that of lists of numbers, where the beginning of a list comes before it. -/
theorem keyLe_iff_le : {k l : List Nat} → (keyLe k l ↔ k ≤ l)
  | [], [] => by simp [keyLe]
  | [], n :: ns => by
    have hlt : [] < n :: ns := List.Lex.nil
    simp [keyLe, hlt.le]
  | m :: ms, [] => by
    have hlt : [] < m :: ms := List.Lex.nil
    simp [keyLe, hlt]
  | m :: ms, n :: ns => by
    have hlex : m :: ms < n :: ns ↔ m < n ∨ m = n ∧ ms < ns := List.cons_lex_cons_iff
    rw [keyLe_cons, keyLe_iff_le, le_iff_lt_or_eq, le_iff_lt_or_eq, hlex, List.cons.injEq]
    tauto

theorem le_of_begins {k l : List Nat} (h : k <+: l) : k ≤ l := by
  induction k generalizing l with
  | nil => exact keyLe_iff_le.1 (by simp [keyLe])
  | cons n k ih =>
    obtain ⟨t, rfl⟩ := h
    exact List.cons_le_cons n (ih (List.prefix_append k t))

/-- The row holds what the source of the entry says, and the fact of the entry. -/
def Entry.Ranks (e : Entry) (r : RankedRow) : Prop :=
  r.row = e.row ∧ ∃ x, Expression.ofText e.source = .ok x ∧ x.root = .ok r.root ∧
    x.operators = .ok r.operators ∧ r.constants = x.constants.map .ofWord

theorem Entry.ranks_of_rankedRow {e : Entry} {r : RankedRow} (h : e.rankedRow = .ok r) : e.Ranks r := by
  obtain ⟨x, htext, hroot, hoperators, hconstants, hrow⟩ := rankedRow_eq_ok h
  exact ⟨hrow, x, htext, hroot, hoperators, hconstants⟩

/-! ## Stable sorting -/

namespace RankedRow

variable {rows sorted sorted' : List RankedRow} {r s : RankedRow}

/-- The second list holds the rows of the first one by their keys, and rows with equal keys as they
stood. -/
structure StablySorted (rows sorted : List RankedRow) : Prop where
  perm : sorted.Perm rows
  ordered : sorted.IsChain fun r s => r.key ≤ s.key
  ties : ∀ k, sorted.filter (fun r => r.key = k) = rows.filter fun r => r.key = k

theorem filter_key_insert (r : RankedRow) (rows : List RankedRow) (k : List Nat) :
    (r.insert rows).filter (fun s => s.key = k) = (r :: rows).filter fun s => s.key = k := by
  induction rows with
  | nil => rfl
  | cons s rows ih =>
    rw [insert]
    split
    · rfl
    · rename_i hle
      -- A row is put behind another one only if their keys differ.
      have hne : ¬ (r.key = k ∧ s.key = k) := by
        rintro ⟨hr, hs⟩
        rw [hr, hs, keyLe_iff_le] at hle
        exact hle le_rfl
      rw [List.filter_cons, ih]
      by_cases hr : r.key = k
      · have hs : s.key ≠ k := fun hs => hne ⟨hr, hs⟩
        simp [hr, hs]
      · simp [List.filter_cons, hr]

theorem filter_key_sort (rows : List RankedRow) (k : List Nat) :
    (sort rows).filter (fun r => r.key = k) = rows.filter fun r => r.key = k := by
  induction rows with
  | nil => rfl
  | cons r rows ih =>
    rw [sort, List.foldr_cons, filter_key_insert, List.filter_cons, List.filter_cons, ← sort, ih]

theorem Sorted.pairwise_le (h : Sorted sorted) : sorted.Pairwise fun r s => r.key ≤ s.key :=
  h.imp keyLe_iff_le.1

theorem stablySorted_sort (rows : List RankedRow) : StablySorted rows (sort rows) where
  perm := sort_perm rows
  ordered := (sorted_sort rows).pairwise_le.isChain
  ties := filter_key_sort rows

theorem mem_of_ties (hties : ∀ k, sorted.filter (fun r => r.key = k) = sorted'.filter fun r => r.key = k)
    (hr : r ∈ sorted) : r ∈ sorted' := by
  have hmem : r ∈ sorted.filter fun s => s.key = r.key := List.mem_filter.2 ⟨hr, by simp⟩
  rw [hties] at hmem
  exact (List.mem_filter.1 hmem).1

theorem key_le_of_mem (h : (r :: sorted).Pairwise fun r s => r.key ≤ s.key) (hs : s ∈ r :: sorted) :
    r.key ≤ s.key := by
  rcases List.mem_cons.1 hs with rfl | hs
  · exact le_rfl
  · exact (List.pairwise_cons.1 h).1 s hs

/-- Rows in the order of their keys are determined by what stands at each key. -/
theorem eq_of_ties (h : sorted.Pairwise fun r s => r.key ≤ s.key)
    (h' : sorted'.Pairwise fun r s => r.key ≤ s.key)
    (hties : ∀ k, sorted.filter (fun r => r.key = k) = sorted'.filter fun r => r.key = k) :
    sorted = sorted' := by
  induction sorted generalizing sorted' with
  | nil =>
    refine (List.eq_nil_iff_forall_not_mem.2 fun r hr => ?_).symm
    exact List.not_mem_nil (mem_of_ties (fun k => (hties k).symm) hr)
  | cons r sorted ih =>
    cases sorted' with
    | nil => exact absurd (mem_of_ties hties List.mem_cons_self) List.not_mem_nil
    | cons s sorted' =>
      -- Each first row stands in the other list, so neither key comes before the other one.
      have hle : r.key ≤ s.key :=
        key_le_of_mem h (mem_of_ties (fun k => (hties k).symm) List.mem_cons_self)
      have hge : s.key ≤ r.key := key_le_of_mem h' (mem_of_ties hties List.mem_cons_self)
      have hfirst := hties r.key
      rw [List.filter_cons_of_pos (by simp), List.filter_cons_of_pos (by simp [hge.antisymm hle])]
        at hfirst
      obtain rfl := (List.cons.inj hfirst).1
      rw [ih h.of_cons h'.of_cons fun k => ?_]
      have hk := hties k
      rw [List.filter_cons, List.filter_cons] at hk
      split at hk
      · exact (List.cons.inj hk).2
      · exact hk

/-- Stable sorting leaves no choice. -/
theorem stablySorted_iff : StablySorted rows sorted ↔ sorted = sort rows := by
  constructor
  · intro h
    refine eq_of_ties (List.isChain_iff_pairwise.1 h.ordered) (sorted_sort rows).pairwise_le fun k => ?_
    rw [h.ties, filter_key_sort]
  · rintro rfl
    exact stablySorted_sort rows

end RankedRow

/-! ## Tables of single expressions -/

namespace Tables

variable {ranked : List RankedRow}

theorem flatMap_rows_single (h : ranked.Pairwise fun r s => r.root.rank ≤ s.root.rank) :
    (Operator.all.flatMap fun o => (ofRanking ranked .single).rows ⟨o, .single⟩) =
      ranked.map RankedRow.row := by
  have hslots : (Operator.all.map fun o => Slot.mk o .single).Pairwise fun s t => s.number < t.number :=
    by decide
  have hsorted : ranked.Pairwise fun r q =>
      (Slot.mk r.root .single).number ≤ (Slot.mk q.root .single).number := by
    simpa only [Slot.number_single] using h
  have hblocks := flatMap_filter_eq (fun r => Slot.mk r.root .single) hslots ranked hsorted
    fun r _ => List.mem_map_of_mem r.root.mem_all
  rw [List.flatMap_map] at hblocks
  calc (Operator.all.flatMap fun o => (ofRanking ranked .single).rows ⟨o, .single⟩)
      = (Operator.all.flatMap fun o =>
          ranked.filter fun r => Slot.mk r.root .single = ⟨o, .single⟩).map RankedRow.row := by
        rw [List.map_flatMap]
        rfl
    _ = ranked.map RankedRow.row := by rw [hblocks]

end Tables

namespace Catalog

variable {c : Catalog} {ranked : List RankedRow}

/-- A ranking lists the facts of its catalog, each with what its source says, by their keys, which are
compared as words; facts with equal keys stand in first-seen order, and no other list does all that. The
tables of single expressions are its blocks, in the order of their operators. -/
theorem ranking_is_the_stable_order (h : c.ranking = .ok ranked) :
    (∃ rows, List.Forall₂ Entry.Ranks c.entries rows ∧
        ∀ l, RankedRow.StablySorted rows l ↔ l = ranked) ∧
      (ranked.Pairwise fun r s => r.key ≤ s.key) ∧
      (∀ (i j : Nat) (hi : i < ranked.length) (hj : j < ranked.length),
        ranked[i].key <+: ranked[j].key → ranked[i].key ≠ ranked[j].key → i < j) ∧
      (Operator.all.flatMap fun o => (Tables.ofRanking ranked .single).rows ⟨o, .single⟩) =
        ranked.map RankedRow.row ∧
      ∀ o, (Tables.ofRanking ranked .single).rows ⟨o, .single⟩ <:+: ranked.map RankedRow.row := by
  have hordered : ranked.Pairwise fun r s => r.key ≤ s.key := (sorted_of_ranking h).pairwise_le
  have hblocks := Tables.flatMap_rows_single (roots_of_ranking h)
  refine ⟨?_, hordered, fun i j hi hj hprefix hne => ?_, hblocks, fun o => ?_⟩
  · rw [ranking] at h
    obtain ⟨rows, hrows, rfl⟩ := map_eq_ok.1 h
    refine ⟨rows, (forall₂_of_mapM hrows).imp fun _ _ => Entry.ranks_of_rankedRow, fun l => ?_⟩
    exact RankedRow.stablySorted_iff
  · by_contra hge
    rcases Nat.lt_or_eq_of_le (Nat.not_lt.1 hge) with hlt | rfl
    · exact hne ((le_of_begins hprefix).antisymm (List.pairwise_iff_getElem.1 hordered j i hj hi hlt))
    · exact hne rfl
  · rw [← hblocks, List.flatMap_def]
    exact List.infix_of_mem_flatten (List.mem_map_of_mem o.mem_all)

theorem tied_maxima_stand_as_they_were_seen :
    ∃ ranked, (ofVerdicts [⟨"Max::make(y0, x0)", .left, .proven, "7"⟩,
        ⟨"Add::make(Max::make(x0, k), y0)", .right, .proven, "0"⟩,
        ⟨"Max::make(x0, y0)", .left, .unknown, "7"⟩,
        ⟨"Add::make(x0, y0)", .left, .proven, "0"⟩]).ranking = .ok ranked ∧
      (Operator.all.flatMap fun o => (Tables.ofRanking ranked .single).rows ⟨o, .single⟩) =
        [⟨"i32_add_x0y0", "i32_zero"⟩, ⟨"Add::make(Max::make(i32_y0, k), i32_x0)", "i32_zero"⟩,
          ⟨"Max::make(i32_y0, i32_x0)", "7"⟩, ⟨"i32_max_x0y0", "7"⟩] := by
  obtain ⟨ranked, hmem, hrows⟩ : ∃ ranked ∈ (ofVerdicts [⟨"Max::make(y0, x0)", .left, .proven, "7"⟩,
        ⟨"Add::make(Max::make(x0, k), y0)", .right, .proven, "0"⟩,
        ⟨"Max::make(x0, y0)", .left, .unknown, "7"⟩,
        ⟨"Add::make(x0, y0)", .left, .proven, "0"⟩]).ranking.toOption, ranked.map RankedRow.row =
      [⟨"i32_add_x0y0", "i32_zero"⟩, ⟨"Add::make(Max::make(i32_y0, k), i32_x0)", "i32_zero"⟩,
        ⟨"Max::make(i32_y0, i32_x0)", "7"⟩, ⟨"i32_max_x0y0", "7"⟩] := by decide +kernel
  have hranking := eq_ok_of_mem_toOption hmem
  exact ⟨ranked, hranking, (ranking_is_the_stable_order hranking).2.2.2.1.trans hrows⟩

end Catalog

end ReductionTables
