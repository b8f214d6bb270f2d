import Mathlib.Data.List.Nodup
import ReductionTables.Tables

/-!
# Tables list every row once

The slots of an arity tell the rows of a ranking apart by their roots, so the tables together list
what was ranked, and nothing twice.
-/

namespace ReductionTables

theorem Slot.nodup_all : all.Nodup := by decide

theorem Slot.mem_all (s : Slot) : s ∈ all := by
  obtain ⟨o, a⟩ := s
  cases o <;> cases a <;> decide

/-- The place of a slot in the printed order. -/
def Slot.number (s : Slot) : Nat := all.idxOf s

theorem Slot.number_pairwise : all.Pairwise fun s t => s.number < t.number := by decide

theorem Slot.number_single (o : Operator) : Slot.number ⟨o, .single⟩ = o.rank := by
  cases o <;> decide

/-! ## Rows by slot -/

section

variable (f : RankedRow → Slot) {s : Slot} {slots : List Slot}

theorem flatMap_filter_of_not_mem (hs : s ∉ slots) (rs : List RankedRow) :
    (slots.flatMap fun s' => rs.filter fun r => f r = s') =
      slots.flatMap fun s' => (rs.filter fun r => !decide (f r = s)).filter fun r => f r = s' := by
  refine List.flatMap_congr fun s' hs' => ?_
  rw [List.filter_filter]
  refine List.filter_congr fun r _ => ?_
  have hne : s' ≠ s := by
    rintro rfl
    exact hs hs'
  by_cases hr : f r = s' <;> simp [hr, hne]

theorem mem_of_mem_filter_ne {rs : List RankedRow} (h : ∀ r ∈ rs, f r ∈ s :: slots) :
    ∀ r ∈ rs.filter fun r => !decide (f r = s), f r ∈ slots := by
  intro r hr
  obtain ⟨hr, hne⟩ := List.mem_filter.1 hr
  rcases List.mem_cons.1 (h r hr) with he | hmem
  · simp [he] at hne
  · exact hmem

/-- Rows that are sorted into slots are all there, each in one of them. -/
theorem flatMap_filter_perm (hslots : slots.Nodup) (rs : List RankedRow)
    (h : ∀ r ∈ rs, f r ∈ slots) :
    (slots.flatMap fun s => rs.filter fun r => f r = s).Perm rs := by
  induction slots generalizing rs with
  | nil =>
    cases rs with
    | nil => exact .refl _
    | cons r rs => exact absurd (h r (by simp)) List.not_mem_nil
  | cons s slots ih =>
    obtain ⟨hs, hnodup⟩ := List.nodup_cons.1 hslots
    rw [List.flatMap_cons, flatMap_filter_of_not_mem f hs]
    exact ((ih hnodup _ (mem_of_mem_filter_ne f h)).append_left _).trans
      (List.filter_append_perm (fun r => decide (f r = s)) rs)

theorem filter_append_filter_of_first {rs : List RankedRow}
    (hrs : rs.Pairwise fun r q => (f r).number ≤ (f q).number)
    (h : ∀ r ∈ rs, f r = s ∨ s.number < (f r).number) :
    (rs.filter fun r => f r = s) ++ (rs.filter fun r => !decide (f r = s)) = rs := by
  induction rs with
  | nil => rfl
  | cons r rs ih =>
    obtain ⟨hr, hrs⟩ := List.pairwise_cons.1 hrs
    rcases h r (by simp) with he | hlt
    · have hrest := ih hrs fun q hq => h q (List.mem_cons_of_mem r hq)
      simpa [he] using hrest
    · have hne : ∀ q ∈ r :: rs, f q ≠ s := by
        rintro q hq rfl
        rcases List.mem_cons.1 hq with rfl | hq
        · exact Nat.lt_irrefl _ hlt
        · exact absurd (hr q hq) (Nat.not_le.2 hlt)
      have hnone : ((r :: rs).filter fun q => f q = s) = [] :=
        List.filter_eq_nil_iff.2 fun q hq => by simpa using hne q hq
      have hall : ((r :: rs).filter fun q => !decide (f q = s)) = r :: rs :=
        List.filter_eq_self.2 fun q hq => by simpa using hne q hq
      rw [hnone, hall, List.nil_append]

/-- Rows that stand in the order of their slots still do so when they are sorted into these. -/
theorem flatMap_filter_eq (hslots : slots.Pairwise fun s t => s.number < t.number)
    (rs : List RankedRow) (hrs : rs.Pairwise fun r q => (f r).number ≤ (f q).number)
    (h : ∀ r ∈ rs, f r ∈ slots) :
    (slots.flatMap fun s => rs.filter fun r => f r = s) = rs := by
  induction slots generalizing rs with
  | nil =>
    cases rs with
    | nil => rfl
    | cons r rs => exact absurd (h r (by simp)) List.not_mem_nil
  | cons s slots ih =>
    obtain ⟨hs, hslots⟩ := List.pairwise_cons.1 hslots
    have hnotmem : s ∉ slots := fun hmem => Nat.lt_irrefl _ (hs s hmem)
    have hfirst : ∀ r ∈ rs, f r = s ∨ s.number < (f r).number := by
      intro r hr
      rcases List.mem_cons.1 (h r hr) with he | hmem
      · exact Or.inl he
      · exact Or.inr (hs _ hmem)
    rw [List.flatMap_cons, flatMap_filter_of_not_mem f hnotmem,
      ih hslots _ (hrs.filter _) (mem_of_mem_filter_ne f h), filter_append_filter_of_first f hrs hfirst]

end

namespace Tables

variable {ranked : List RankedRow} {a : Arity} {s : Slot} {row : Row}

theorem rows_ofRanking (ranked : List RankedRow) (a : Arity) (s : Slot) : (ofRanking ranked a).rows s =
    (ranked.filter fun r => Slot.mk r.root a = s).map RankedRow.row := rfl

theorem mem_rows_ofRanking : row ∈ (ofRanking ranked a).rows s ↔
    ∃ r ∈ ranked, Slot.mk r.root a = s ∧ r.row = row := by
  simp [rows_ofRanking, and_assoc]

theorem flatMap_rows_ofRanking (ranked : List RankedRow) (a : Arity) :
    Slot.all.flatMap (ofRanking ranked a).rows =
      (Slot.all.flatMap fun s => ranked.filter fun r => Slot.mk r.root a = s).map RankedRow.row := by
  rw [List.map_flatMap]
  rfl

theorem rows_perm_ofRanking (ranked : List RankedRow) (a : Arity) :
    (Slot.all.flatMap (ofRanking ranked a).rows).Perm (ranked.map RankedRow.row) := by
  rw [flatMap_rows_ofRanking]
  exact (flatMap_filter_perm _ Slot.nodup_all ranked fun r _ => Slot.mem_all _).map RankedRow.row

/-- When the rows are sorted by their roots, the tables hold them one table after the other. -/
theorem flatMap_rows_of_roots (h : ranked.Pairwise fun r s => r.root.rank ≤ s.root.rank) :
    Slot.all.flatMap (ofRanking ranked .single).rows = ranked.map RankedRow.row := by
  rw [flatMap_rows_ofRanking, flatMap_filter_eq _ Slot.number_pairwise ranked ?_ fun r _ => Slot.mem_all _]
  simpa only [Slot.number_single] using h

theorem mem_constants_ofRanking {c : Constant} :
    c ∈ (ofRanking ranked a).constants ↔ ∃ r ∈ ranked, c ∈ r.constants := by
  have h : (ofRanking ranked a).constants = ([] ++ ranked.flatMap RankedRow.constants).eraseDups := rfl
  rw [h, List.nil_append, List.mem_eraseDups, List.mem_flatMap]

end Tables

end ReductionTables
