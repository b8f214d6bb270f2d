import Mathlib.Data.List.Basic
import Mathlib.Data.List.Count
import Mathlib.Data.List.Nodup
import ReductionTables.Proofs.Term.Layout

/-!
# The list of nodes is a tree

Nodes are listed one after the other. A node that is added refers to the last of those to which none
refers yet, and is itself referred to by none. So arguments stand before the nodes that take them, from
left to right, and every node but the root is an argument once.
-/

namespace ReductionTables

/-- Nodes that were added one after the other, with the numbers of those to which none refers. -/
inductive Listed : List Node → List Nat → Prop
  | nil : Listed [] []
  | add {ns : List Node} {free args : List Nat} (label : Label) (h : Listed ns (free ++ args)) :
    Listed (ns ++ [⟨label, args⟩]) (free ++ [ns.length])

namespace Listed

variable {ns : List Node} {free : List Nat} {n : Node} {i : Nat}

theorem free_lt (h : Listed ns free) : ∀ i ∈ free, i < ns.length := by
  induction h with
  | nil => simp
  | @add ns free args label _ ih =>
    intro i hi
    rw [List.length_append, List.length_singleton]
    rcases List.mem_append.1 hi with hi | hi
    · exact Nat.lt_succ_of_lt (ih i (List.mem_append_left _ hi))
    · exact Nat.lt_succ_of_le (Nat.le_of_eq (List.mem_singleton.1 hi))

theorem free_pairwise (h : Listed ns free) : free.Pairwise (· < ·) := by
  induction h with
  | nil => exact .nil
  | @add ns free args label h ih =>
    refine List.pairwise_append.2 ⟨(List.pairwise_append.1 ih).1, List.pairwise_singleton _ _, ?_⟩
    intro i hi j hj
    rw [List.mem_singleton.1 hj]
    exact h.free_lt i (List.mem_append_left _ hi)

/-- The arguments of a node stand before it, from left to right. -/
theorem args_ordered (h : Listed ns free) (hn : ns[i]? = some n) :
    n.args.Pairwise (· < ·) ∧ ∀ j ∈ n.args, j < i := by
  induction h with
  | nil => simp at hn
  | @add ns free args label h ih =>
    rcases Nat.lt_or_ge i ns.length with hi | hi
    · rw [List.getElem?_append_left hi] at hn
      exact ih hn
    · rw [List.getElem?_append_right hi, List.getElem?_singleton] at hn
      obtain ⟨hzero, rfl⟩ : i - ns.length = 0 ∧ _ = n := by simpa using hn
      refine ⟨(List.pairwise_append.1 h.free_pairwise).2.1, fun j hj => ?_⟩
      exact Nat.lt_of_lt_of_le (h.free_lt j (List.mem_append_right _ hj)) hi

/-- Each number is that of an argument, or none refers to it, but not both and not twice. -/
theorem args_append_free_perm (h : Listed ns free) :
    (ns.flatMap Node.args ++ free).Perm (List.range ns.length) := by
  induction h with
  | nil => exact .nil
  | @add ns free args label _ ih =>
    rw [List.flatMap_append, List.length_append, List.length_singleton, List.range_succ]
    have hmove : (ns.flatMap Node.args ++ args ++ (free ++ [ns.length])).Perm
        (ns.flatMap Node.args ++ (free ++ args) ++ [ns.length]) := by
      simpa only [List.append_assoc] using
        ((List.perm_append_comm_assoc args free [ns.length]).append_left (ns.flatMap Node.args))
    simpa using hmove.trans (ih.append_right [ns.length])

end Listed

namespace Term

mutual

theorem listed_nodesFrom : (t : Term) → ∀ {ns : List Node} {free : List Nat}, Listed ns free →
    Listed (ns ++ t.nodesFrom ns.length) (free ++ [ns.length + t.size - 1])
  | leaf word, ns, free, h => by
    have hfree : Listed ns (free ++ []) := by rwa [List.append_nil]
    exact hfree.add (.leaf word)
  | call name args, ns, free, h => by
    have hargs := Listed.add (.ofName name) (listed_nodesOfList args h)
    simpa only [nodesFrom, size, List.append_assoc, List.length_append, length_nodesOfList,
      ← Nat.add_assoc, Nat.add_sub_cancel] using hargs

theorem listed_nodesOfList : (ts : List Term) → ∀ {ns : List Node} {free : List Nat}, Listed ns free →
    Listed (ns ++ nodesOfList ns.length ts) (free ++ rootNumbers ns.length ts)
  | [], ns, free, h => by simpa only [nodesOfList, rootNumbers, List.append_nil] using h
  | t :: ts, ns, free, h => by
    have hrest := listed_nodesOfList ts (listed_nodesFrom t h)
    simpa only [nodesOfList, rootNumbers, List.append_assoc, List.length_append, length_nodesFrom,
      List.singleton_append] using hrest

end

theorem listed_nodes (t : Term) : Listed t.nodes [t.size - 1] := by
  simpa [nodes] using listed_nodesFrom t .nil

theorem size_pos (t : Term) : 0 < t.size := by
  cases t with
  | leaf => simp [size]
  | call => simp [size]

/-- Each number but that of the root is an argument once. -/
theorem args_perm (t : Term) : (t.nodes.flatMap Node.args).Perm (List.range (t.nodes.length - 1)) := by
  obtain ⟨k, hk⟩ := Nat.exists_eq_succ_of_ne_zero (Nat.ne_of_gt t.size_pos)
  have hperm := t.listed_nodes.args_append_free_perm
  rw [length_nodes, hk, List.range_succ] at hperm
  simpa [length_nodes, hk] using (List.perm_append_right_iff _).1 hperm

theorem count_args_eq_one {t : Term} {j : Nat} (hj : j + 1 < t.nodes.length) :
    (t.nodes.flatMap Node.args).count j = 1 := by
  rw [t.args_perm.count_eq]
  exact List.count_eq_one_of_mem List.nodup_range (List.mem_range.2 (Nat.lt_sub_of_add_lt hj))

theorem root_not_mem_args (t : Term) : ∀ n ∈ t.nodes, t.nodes.length - 1 ∉ n.args := by
  intro n hn hroot
  have hmem := t.args_perm.mem_iff.1 (List.mem_flatMap.2 ⟨n, hn, hroot⟩)
  exact Nat.lt_irrefl _ (List.mem_range.1 hmem)

end Term

end ReductionTables
