import Mathlib.Algebra.BigOperators.Group.List.Basic
import ReductionTables.Proofs.FirstOccurrences
import ReductionTables.Proofs.Tables

/-!
# Filling tables in passes

Tables are filled row by row, in several passes over rows of one arity each. The rows of a pass can come
in any order and with any roots: a row that is entered goes to the end of its table, no table moves, and
a constant is listed once. So what the passes come to can be said of each table for itself, and passes
of different arities do not get in each other's way.
-/

namespace ReductionTables

/-- Rows that are appended to the tables of one arity. -/
structure Pass where
  arity : Arity
  rows : List RankedRow

/-! ## Row by row -/

/-- Tables and constants in the order in which they were listed first. -/
structure Listing where
  tables : List (Slot × List Row)
  constants : List Constant

namespace Listing

/-- Changes the table of a slot where it is listed. A slot that is not listed gets an empty table at the
end before. -/
def change (s : Slot) (f : List Row → List Row) : List (Slot × List Row) → List (Slot × List Row)
  | [] => [(s, f [])]
  | (s', rows) :: tables =>
    if s' = s then (s', f rows) :: tables else (s', rows) :: change s f tables

/-- All slots are listed, one after the other, with empty tables. -/
def initial : Listing where
  tables := Slot.all.foldl (fun tables s => change s (fun _ => []) tables) []
  constants := []

/-- Lists a constant unless it is listed already. -/
def addConstant (cs : List Constant) (c : Constant) : List Constant := if c ∈ cs then cs else cs ++ [c]

/-- Appends a row to the table that its root chooses. -/
def enter (a : Arity) (l : Listing) (r : RankedRow) : Listing where
  tables := change ⟨r.root, a⟩ (· ++ [r.row]) l.tables
  constants := r.constants.foldl addConstant l.constants

/-- Enters the rows of a pass. -/
def run (l : Listing) (p : Pass) : Listing := p.rows.foldl (enter p.arity) l

variable {s : Slot} {slots : List Slot}

/-- A listed table stays where it is, and no other is changed. -/
theorem change_map (hslots : slots.Nodup) (hs : s ∈ slots) (f : List Row → List Row)
    (g : Slot → List Row) : change s f (slots.map fun s' => (s', g s')) =
      slots.map fun s' => (s', if s' = s then f (g s') else g s') := by
  induction slots with
  | nil => cases hs
  | cons s₀ slots ih =>
    obtain ⟨hs₀, hslots⟩ := List.nodup_cons.1 hslots
    by_cases he : s₀ = s
    · subst he
      have hrest : ∀ s' ∈ slots, s' ≠ s₀ := fun s' hs' he => hs₀ (he ▸ hs')
      simp +contextual [change, hrest]
    · have hs : s ∈ slots := (List.mem_cons.1 hs).resolve_left (Ne.symm he)
      simp [change, he, ih hslots hs]

theorem foldl_addConstant (l cs : List Constant) :
    cs.foldl addConstant l.eraseDups = (l ++ cs).eraseDups :=
  foldl_concat_new l cs

end Listing

namespace Tables

variable {t : Tables} {ps qs : List Pass} {a : Arity} {r : RankedRow} {rs rs' : List RankedRow} {s : Slot}

/-- The tables in the order of print. -/
def listing (t : Tables) : Listing := ⟨Slot.all.map fun s => (s, t.rows s), t.constants⟩

theorem listing_empty : Listing.initial = listing ∅ := rfl

/-- No constant is listed twice. -/
def ListsOnce (t : Tables) : Prop := t.constants.eraseDups = t.constants

theorem listsOnce_empty : ListsOnce ∅ := rfl

theorem listsOnce_append (t : Tables) (a : Arity) (rs : List RankedRow) : (t.append a rs).ListsOnce :=
  eraseDups_append_eraseDups [] _

theorem append_nil (h : t.ListsOnce) (a : Arity) : t.append a [] = t := by
  have hconstants : (t.constants ++ []).eraseDups = t.constants := by rwa [List.append_nil]
  obtain ⟨rows, constants⟩ := t
  simpa [append] using hconstants

theorem append_append (t : Tables) (a : Arity) (rs rs' : List RankedRow) :
    (t.append a rs).append a rs' = t.append a (rs ++ rs') := by
  simp [append, eraseDups_eraseDups_append]

/-- Entering a row is appending it. -/
theorem enter_listing (h : t.ListsOnce) (a : Arity) (r : RankedRow) :
    t.listing.enter a r = (t.append a [r]).listing := by
  have htables : Listing.change ⟨r.root, a⟩ (· ++ [r.row]) (Slot.all.map fun s => (s, t.rows s)) =
      Slot.all.map fun s => (s, (t.append a [r]).rows s) := by
    rw [Listing.change_map Slot.nodup_all (Slot.mem_all _)]
    refine List.map_congr_left fun s _ => ?_
    by_cases hs : s = ⟨r.root, a⟩
    · simp [append, hs]
    · simp [append, hs, Ne.symm hs]
  have hconstants : r.constants.foldl Listing.addConstant t.constants = (t.append a [r]).constants := by
    have hfold := Listing.foldl_addConstant t.constants r.constants
    rw [h] at hfold
    simpa [append] using hfold
  simp only [Listing.enter, listing, htables, hconstants]

theorem foldl_enter_listing (h : t.ListsOnce) (a : Arity) (rs : List RankedRow) :
    rs.foldl (Listing.enter a) t.listing = (t.append a rs).listing := by
  induction rs generalizing t with
  | nil => rw [append_nil h, List.foldl_nil]
  | cons r rs ih =>
    rw [List.foldl_cons, enter_listing h, ih (listsOnce_append t a [r]), append_append, List.singleton_append]

/-! ## Several passes -/

def fill (t : Tables) (p : Pass) : Tables := t.append p.arity p.rows

/-- The tables after some passes. -/
def ofPasses (ps : List Pass) : Tables := ps.foldl fill ∅

theorem ofPasses_concat (ps : List Pass) (p : Pass) : ofPasses (ps ++ [p]) = (ofPasses ps).fill p := by
  rw [ofPasses, List.foldl_append]
  rfl

theorem listsOnce_ofPasses (ps : List Pass) : (ofPasses ps).ListsOnce := by
  cases ps using List.reverseRecOn with
  | nil => exact listsOnce_empty
  | append_singleton ps p =>
    rw [ofPasses_concat]
    exact listsOnce_append _ _ _

theorem foldl_run_listing (ps : List Pass) :
    ps.foldl Listing.run .initial = (ofPasses ps).listing := by
  induction ps using List.reverseRecOn with
  | nil => exact listing_empty
  | append_singleton ps p ih =>
    rw [List.foldl_append, ih, ofPasses_concat]
    exact foldl_enter_listing (listsOnce_ofPasses ps) p.arity p.rows

theorem rows_append (t : Tables) (a : Arity) (rs : List RankedRow) (o : Operator) (b : Arity) :
    (t.append a rs).rows ⟨o, b⟩ =
      t.rows ⟨o, b⟩ ++ if a = b then (rs.filter fun r => r.root = o).map RankedRow.row else [] := by
  by_cases h : a = b <;> simp [append, h]

theorem rows_ofPasses (ps : List Pass) (o : Operator) (a : Arity) : (ofPasses ps).rows ⟨o, a⟩ =
    (ps.filter fun p => p.arity = a).flatMap fun p =>
      (p.rows.filter fun r => r.root = o).map RankedRow.row := by
  induction ps using List.reverseRecOn with
  | nil => rfl
  | append_singleton ps p ih =>
    rw [ofPasses_concat, fill, rows_append, ih, List.filter_append, List.flatMap_append]
    by_cases h : p.arity = a <;> simp [h]

theorem constants_ofPasses (ps : List Pass) : (ofPasses ps).constants =
    (ps.flatMap fun p => p.rows.flatMap RankedRow.constants).eraseDups := by
  induction ps using List.reverseRecOn with
  | nil => rfl
  | append_singleton ps p ih =>
    rw [ofPasses_concat, fill, append, ih, eraseDups_eraseDups_append]
    simp

theorem size_append (t : Tables) (a : Arity) (rs : List RankedRow) :
    (t.append a rs).size = t.size + rs.length := by
  have hadded := (flatMap_filter_perm (fun r => Slot.mk r.root a) Slot.nodup_all rs
    fun r _ => Slot.mem_all _).length_eq
  rw [List.length_flatMap] at hadded
  simp only [size, append, List.length_flatMap, List.length_append, List.length_map]
  rw [List.sum_map_add, hadded]

theorem size_ofPasses (ps : List Pass) : (ofPasses ps).size = (ps.flatMap Pass.rows).length := by
  induction ps using List.reverseRecOn with
  | nil => rfl
  | append_singleton ps p ih =>
    rw [ofPasses_concat, fill, size_append, ih]
    simp

theorem constants_subset_of_perm (h : ps.Perm qs) : (ofPasses ps).constants ⊆ (ofPasses qs).constants := by
  intro c hc
  rw [constants_ofPasses, List.mem_eraseDups, List.mem_flatMap] at hc ⊢
  obtain ⟨p, hp, hcp⟩ := hc
  exact ⟨p, h.mem_iff.1 hp, hcp⟩

/-- Passes of different arities can be exchanged: no table has rows of both. -/
theorem same_of_exchanged {before after : List Pass} {p q : Pass} (h : p.arity ≠ q.arity) :
    (ofPasses (before ++ p :: q :: after)).Same (ofPasses (before ++ q :: p :: after)) := by
  have hperm : (before ++ p :: q :: after).Perm (before ++ q :: p :: after) :=
    (List.Perm.swap q p after).append_left before
  refine ⟨fun s _ => ?_, constants_subset_of_perm hperm, constants_subset_of_perm hperm.symm⟩
  have hpasses : (before ++ p :: q :: after).filter (fun p => p.arity = s.arity) =
      (before ++ q :: p :: after).filter fun p => p.arity = s.arity := by
    by_cases hp : p.arity = s.arity
    · have hq : q.arity ≠ s.arity := fun hq => h (hp.trans hq.symm)
      simp [hp, hq]
    · simp [List.filter_cons, hp]
  rw [rows_ofPasses, rows_ofPasses, hpasses]

/-- Entering the rows of any passes one by one lists the ten tables in the order of print. Each table
has the rows of its root from the passes of its arity, in the order of the passes, every row is in a
table, and the constants come in the order of first use. Passes of different arities that follow each
other can be exchanged. -/
theorem passes_fill_tables_in_order (ps : List Pass) :
    ps.foldl Listing.run .initial = (ofPasses ps).listing ∧
      (ofPasses ps).listing.tables.map Prod.fst =
        [⟨.add, .single⟩, ⟨.mul, .single⟩, ⟨.max, .single⟩, ⟨.min, .single⟩, ⟨.sub, .single⟩,
          ⟨.add, .double⟩, ⟨.mul, .double⟩, ⟨.max, .double⟩, ⟨.min, .double⟩, ⟨.sub, .double⟩] ∧
      (∀ o a, (ofPasses ps).rows ⟨o, a⟩ = (ps.filter fun p => p.arity = a).flatMap fun p =>
        (p.rows.filter fun r => r.root = o).map RankedRow.row) ∧
      (ofPasses ps).size = (ps.flatMap Pass.rows).length ∧
      (ofPasses ps).constants = (ps.flatMap fun p => p.rows.flatMap RankedRow.constants).eraseDups ∧
      ∀ before p q after, ps = before ++ p :: q :: after → p.arity ≠ q.arity →
        (ofPasses ps).Same (ofPasses (before ++ q :: p :: after)) := by
  refine ⟨foldl_run_listing ps, ?_, rows_ofPasses ps, size_ofPasses ps, constants_ofPasses ps, ?_⟩
  · rw [listing, List.map_map]
    rfl
  · rintro before p q after rfl h
    exact same_of_exchanged h

theorem exchanged_passes_list_constants_in_another_order :
    ∃ r s : RankedRow, (ofPasses [⟨.single, [s, r, s]⟩, ⟨.double, [r]⟩]).size = 4 ∧
      (ofPasses [⟨.single, [s, r, s]⟩, ⟨.double, [r]⟩]).rows ⟨.sub, .single⟩ = [s.row, s.row] ∧
      (ofPasses [⟨.single, [s, r, s]⟩, ⟨.double, [r]⟩]).Same
        (ofPasses [⟨.double, [r]⟩, ⟨.single, [s, r, s]⟩]) ∧
      (ofPasses [⟨.single, [s, r, s]⟩, ⟨.double, [r]⟩]).constants ≠
        (ofPasses [⟨.double, [r]⟩, ⟨.single, [s, r, s]⟩]).constants := by
  have h (rs qs : List RankedRow) := passes_fill_tables_in_order [⟨.single, rs⟩, ⟨.double, qs⟩]
  refine ⟨⟨.add, [.add], [.ofWord "k"], ⟨"i32_add_x0y0", "i32_zero"⟩⟩,
    ⟨.sub, [], [.ofWord "c"], ⟨"a", "7"⟩⟩, (h _ _).2.2.2.1, (h _ _).2.2.1 .sub .single, ?_, by decide⟩
  exact (h _ _).2.2.2.2.2 [] _ _ [] rfl (by decide)

end Tables

end ReductionTables
