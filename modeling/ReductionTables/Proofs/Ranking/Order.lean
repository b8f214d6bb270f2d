import Mathlib.Data.List.Perm.Basic
import ReductionTables.Proofs.Ranking

/-!
# Rankings are in order

Keys are ordered as the words of a dictionary. Sorting puts rows into this order, so the keys of a
sorted list depend only on which rows it holds, and so do the rows when no two of them have the same
key.
-/

namespace ReductionTables

/-! ## The order of keys -/

theorem keyLe_cons {m n : Nat} {ms ns : List Nat} :
    keyLe (m :: ms) (n :: ns) ↔ m < n ∨ m = n ∧ keyLe ms ns := by
  simp [keyLe]

theorem keyLe_total : (k l : List Nat) → keyLe k l ∨ keyLe l k
  | [], _ => by simp [keyLe]
  | _ :: _, [] => by simp [keyLe]
  | m :: ms, n :: ns => by
    have ih := keyLe_total ms ns
    simp only [keyLe_cons]
    rcases Nat.lt_trichotomy m n with h | rfl | h
    · exact Or.inl (Or.inl h)
    · simpa using ih
    · exact Or.inr (Or.inl h)

theorem keyLe_trans : {j k l : List Nat} → keyLe j k → keyLe k l → keyLe j l
  | [], _, _, _, _ => by simp [keyLe]
  | _ :: _, [], _, h, _ => by simp [keyLe] at h
  | _ :: _, _ :: _, [], _, h => by simp [keyLe] at h
  | _ :: _, _ :: _, _ :: _, h, h' => by
    simp only [keyLe_cons] at h h' ⊢
    rcases h with h | ⟨rfl, h⟩
    · rcases h' with h' | ⟨rfl, -⟩
      · exact Or.inl (Nat.lt_trans h h')
      · exact Or.inl h
    · rcases h' with h' | ⟨rfl, h'⟩
      · exact Or.inl h'
      · exact Or.inr ⟨rfl, keyLe_trans h h'⟩

theorem keyLe_antisymm : {k l : List Nat} → keyLe k l → keyLe l k → k = l
  | [], [], _, _ => rfl
  | [], _ :: _, _, h => by simp [keyLe] at h
  | _ :: _, [], h, _ => by simp [keyLe] at h
  | m :: ms, n :: ns, h, h' => by
    rcases keyLe_cons.1 h with hlt | ⟨rfl, hle⟩
    · rcases keyLe_cons.1 h' with hgt | ⟨rfl, -⟩ <;> omega
    · rcases keyLe_cons.1 h' with hgt | ⟨-, hge⟩
      · omega
      · rw [keyLe_antisymm hle hge]

theorem Operator.rank_injective : Function.Injective rank := by
  intro o p h
  cases o <;> cases p <;> first | rfl | cases h

/-! ## Sorted rows -/

namespace RankedRow

/-- The rows are listed by their keys. -/
def Sorted (rows : List RankedRow) : Prop := rows.Pairwise fun r s => keyLe r.key s.key

variable {rows rows' : List RankedRow}

theorem Sorted.insert (h : Sorted rows) (r : RankedRow) : Sorted (r.insert rows) := by
  induction rows with
  | nil => exact List.pairwise_singleton _ r
  | cons s rows ih =>
    obtain ⟨hs, hrows⟩ := List.pairwise_cons.1 h
    rw [RankedRow.insert]
    split
    · rename_i hle
      refine List.pairwise_cons.2 ⟨fun t ht => ?_, h⟩
      rcases List.mem_cons.1 ht with rfl | ht
      · exact hle
      · exact keyLe_trans hle (hs t ht)
    · rename_i hle
      refine List.pairwise_cons.2 ⟨fun t ht => ?_, ih hrows⟩
      rcases List.mem_cons.1 ((insert_perm r rows).mem_iff.1 ht) with rfl | ht
      · exact (keyLe_total s.key t.key).resolve_right hle
      · exact hs t ht

theorem sorted_sort (rows : List RankedRow) : Sorted (sort rows) := by
  induction rows with
  | nil => exact List.Pairwise.nil
  | cons r rows ih => exact ih.insert r

/-- Rows with the same key may be exchanged, but the keys stand as they stand. -/
theorem Sorted.map_key_eq (h : Sorted rows) (h' : Sorted rows') (hperm : rows.Perm rows') :
    rows.map key = rows'.map key := by
  have hkeys : ∀ {rs : List RankedRow}, Sorted rs → (rs.map key).Pairwise fun k l => keyLe k l :=
    fun hrs => List.pairwise_map.2 hrs
  exact (hperm.map key).eq_of_pairwise (fun k l _ _ => keyLe_antisymm) (hkeys h) (hkeys h')

theorem Sorted.eq_of_perm (h : Sorted rows) (h' : Sorted rows') (hperm : rows.Perm rows')
    (hkeys : ∀ r ∈ rows, ∀ s ∈ rows, r.key = s.key → r = s) : rows = rows' :=
  hperm.eq_of_pairwise (fun r s hr hs hle hge =>
    hkeys r hr s (hperm.mem_iff.2 hs) (keyLe_antisymm hle hge)) h h'

/-- Into sorted rows a row is put between those that come before it and those that do not. -/
theorem Sorted.insert_eq (h : Sorted rows) (r : RankedRow) : r.insert rows =
    (rows.filter fun s => !keyLe r.key s.key) ++ r :: rows.filter fun s => keyLe r.key s.key := by
  induction rows with
  | nil => rfl
  | cons s rows ih =>
    obtain ⟨hs, hrows⟩ := List.pairwise_cons.1 h
    rw [RankedRow.insert]
    split
    · rename_i hle
      have hall : ∀ t ∈ s :: rows, keyLe r.key t.key := by
        intro t ht
        rcases List.mem_cons.1 ht with rfl | ht
        · exact hle
        · exact keyLe_trans hle (hs t ht)
      have hnone : ((s :: rows).filter fun t => !keyLe r.key t.key) = [] :=
        List.filter_eq_nil_iff.2 fun t ht => by simpa using hall t ht
      rw [hnone, List.filter_eq_self.2 hall, List.nil_append]
    · rename_i hle
      simp [ih hrows, hle]

theorem sublist_insert (r : RankedRow) (rows : List RankedRow) : rows.Sublist (r.insert rows) := by
  induction rows with
  | nil => exact List.nil_sublist _
  | cons s rows ih =>
    rw [RankedRow.insert]
    split
    · exact List.sublist_cons_self r _
    · exact ih.cons_cons s

theorem Sorted.insert_sublist (h' : Sorted rows') (h : rows.Sublist rows') (r : RankedRow) :
    (r.insert rows).Sublist (r.insert rows') := by
  have hrows : Sorted rows := h'.sublist h
  rw [hrows.insert_eq, h'.insert_eq]
  exact (h.filter _).append ((h.filter _).cons_cons r)

/-- More rows leave the others in the order in which they were. -/
theorem sort_sublist (h : rows.Sublist rows') : (sort rows).Sublist (sort rows') := by
  induction h with
  | slnil => exact List.nil_sublist _
  | cons r _ ih => exact ih.trans (sublist_insert r _)
  | cons_cons r _ ih => exact (sorted_sort _).insert_sublist ih r

end RankedRow

/-! ## Roots -/

theorem Expression.head?_operators {e : Expression} {o : Operator} {os : List Operator}
    (hroot : e.root = .ok o) (hos : e.operators = .ok os) : os.head? = some o := by
  rw [root] at hroot
  rw [operators] at hos
  cases hterm : e.term with
  | leaf word =>
    rw [hterm] at hroot
    cases hroot
  | call name args =>
    rw [hterm] at hroot hos
    simp only [Term.head?] at hroot
    rw [Term.heads, List.mapM_cons] at hos
    obtain ⟨o', ho', h⟩ := bind_eq_ok.1 hos
    obtain ⟨os', -, h⟩ := bind_eq_ok.1 h
    obtain rfl := Except.ok.inj h
    rw [List.head?_cons, Except.ok.inj (ho'.symm.trans hroot)]

namespace Catalog

variable {c : Catalog} {ranked : List RankedRow}

theorem sorted_of_ranking (h : c.ranking = .ok ranked) : RankedRow.Sorted ranked := by
  rw [ranking] at h
  obtain ⟨rows, -, rfl⟩ := map_eq_ok.1 h
  exact RankedRow.sorted_sort rows

/-- The rows of a ranking are sorted by their roots first. -/
theorem roots_of_ranking (h : c.ranking = .ok ranked) :
    ranked.Pairwise fun r s => r.root.rank ≤ s.root.rank := by
  have hhead : ∀ r ∈ ranked, ∃ os, r.operators = r.root :: os := by
    intro r hr
    obtain ⟨e, -, hranked⟩ := exists_entry_of_ranking h hr
    obtain ⟨x, -, hroot, hoperators, -, -⟩ := Entry.rankedRow_eq_ok hranked
    obtain ⟨os, hos⟩ := List.head?_eq_some_iff.1 (Expression.head?_operators hroot hoperators)
    exact ⟨os, hos⟩
  refine (sorted_of_ranking h).imp_of_mem fun {r s} hr hs hle => ?_
  obtain ⟨os, hos⟩ := hhead r hr
  obtain ⟨os', hos'⟩ := hhead s hs
  rw [RankedRow.key, RankedRow.key, hos, hos', List.map_cons, List.map_cons, keyLe_cons] at hle
  omega

end Catalog

end ReductionTables
