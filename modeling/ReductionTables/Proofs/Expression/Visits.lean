import Mathlib.Data.List.Perm.Subperm
import ReductionTables.Proofs.Expression
import ReductionTables.Proofs.Term.Progress

/-!
# Every node is visited once

The numbers that are pending in a traversal are the roots of terms that are listed apart from each other.
A visit takes one number off such a term and leaves its arguments pending, which share the other numbers
of the term. So no node is visited twice, and all are visited unless a constructor is refused.
-/

namespace ReductionTables

/-! ## Listed terms -/

theorem Label.ofName_ne_leaf (name w : Text) : Label.ofName name ≠ .leaf w := by
  intro h
  have hword := word?_ofName name
  rw [h] at hword
  cases hword

namespace Term

variable {ns : List Node} {first : Nat}

/-- The nodes of the term are listed from the given number on. -/
def ListedFrom (ns : List Node) (first : Nat) (t : Term) : Prop :=
  ∃ before after, before.length = first ∧ ns = before ++ t.nodesFrom first ++ after

/-- Terms that are listed one after the other, each with its first number. -/
def placed (first : Nat) : List Term → List (Nat × Term)
  | [] => []
  | t :: ts => (first, t) :: placed (first + t.size) ts

/-- The number of the root of a term with its first number. -/
def rootNumber (p : Nat × Term) : Nat := p.1 + p.2.size - 1

/-- The numbers of the nodes of a term with its first number. -/
def numbers (p : Nat × Term) : List Nat := List.range' p.1 p.2.size

theorem rootNumbers_eq (first : Nat) (ts : List Term) :
    rootNumbers first ts = (placed first ts).map rootNumber := by
  induction ts generalizing first with
  | nil => rfl
  | cons t ts ih => rw [rootNumbers, ih, placed, List.map_cons, rootNumber]

theorem flatMap_numbers_placed (first : Nat) (ts : List Term) :
    (placed first ts).flatMap numbers = List.range' first (sizeOfList ts) := by
  induction ts generalizing first with
  | nil => rfl
  | cons t ts ih =>
    rw [placed, List.flatMap_cons, ih, numbers, sizeOfList, List.range'_append_1]

theorem numbers_leaf (first : Nat) (w : Text) : numbers (first, leaf w) = [rootNumber (first, leaf w)] := by
  simp [numbers, rootNumber, size]

/-- The numbers of a constructor are those of its arguments and its own. -/
theorem numbers_call (first : Nat) (name : Text) (args : List Term) : numbers (first, call name args) =
    (placed first args).flatMap numbers ++ [rootNumber (first, call name args)] := by
  rw [flatMap_numbers_placed]
  simp [numbers, rootNumber, size, List.range'_1_concat]

theorem rootNumber_mem_numbers (p : Nat × Term) : rootNumber p ∈ numbers p := by
  obtain ⟨first, t⟩ := p
  cases t with
  | leaf w => simp [numbers_leaf]
  | call name args => simp [numbers_call]

theorem ListedFrom.leaf {w : Text} (h : (leaf w).ListedFrom ns first) :
    ns[rootNumber (first, leaf w)]? = some ⟨.leaf w, []⟩ := by
  obtain ⟨before, after, rfl, rfl⟩ := h
  simp [rootNumber, size, nodesFrom]

theorem ListedFrom.call {name : Text} {args : List Term} (h : (call name args).ListedFrom ns first) :
    ns[rootNumber (first, call name args)]? = some ⟨.ofName name, (placed first args).map rootNumber⟩ := by
  obtain ⟨before, after, rfl, rfl⟩ := h
  have hlen := length_nodesOfList before.length args
  rw [← rootNumbers_eq]
  simp only [rootNumber, nodesFrom, size, ← Nat.add_assoc, Nat.add_sub_cancel, List.append_assoc, ← hlen]
  simp

theorem ListedFrom.label_call {name : Text} {args : List Term} {label : Label} {numbers : List Nat}
    (h : (Term.call name args).ListedFrom ns first)
    (hn : ns[rootNumber (first, Term.call name args)]? = some ⟨label, numbers⟩) : .ofName name = label := by
  rw [h.call] at hn
  exact congrArg Node.label (Option.some.inj hn)

theorem listedFrom_of_mem_placed (before after : List Node) (ts : List Term) :
    ∀ p ∈ placed before.length ts, p.2.ListedFrom (before ++ nodesOfList before.length ts ++ after) p.1 := by
  induction ts generalizing before with
  | nil => simp [placed]
  | cons t ts ih =>
    intro p hp
    rcases List.mem_cons.1 hp with rfl | hp
    · exact ⟨before, nodesOfList (before.length + t.size) ts ++ after, rfl, by simp [nodesOfList]⟩
    · have hlen : (before ++ t.nodesFrom before.length).length = before.length + t.size := by
        rw [List.length_append, length_nodesFrom]
      have hrest := ih (before ++ t.nodesFrom before.length) p (hlen ▸ hp)
      simpa only [nodesOfList, hlen, List.append_assoc] using hrest

theorem ListedFrom.args {name : Text} {args : List Term} (h : (Term.call name args).ListedFrom ns first) :
    ∀ p ∈ placed first args, p.2.ListedFrom ns p.1 := by
  obtain ⟨before, after, rfl, rfl⟩ := h
  have hargs := listedFrom_of_mem_placed before
    (⟨.ofName name, rootNumbers before.length args⟩ :: after) args
  simpa only [nodesFrom, List.append_assoc, List.singleton_append] using hargs

theorem listedFrom_nodes (t : Term) : t.ListedFrom t.nodes 0 := ⟨[], [], rfl, by simp [nodes]⟩

end Term

/-! ## Traversals -/

namespace Expression

open Term

variable {e : Expression} {pending visited : List Nat} {found : List Operator}
  {x : Except Failure (List Operator)}

/-- What a traversal visits from the roots of listed terms on are numbers of these, none of them twice,
and all of them if no constructor is refused. -/
theorem Traverses.subperm (h : e.Traverses pending found visited x) : ∀ {ps : List (Nat × Term)},
    ps.map rootNumber = pending → (∀ p ∈ ps, p.2.ListedFrom e.term.nodes p.1) →
    visited.Subperm (ps.flatMap numbers) ∧ (x.isOk → visited.Perm (ps.flatMap numbers)) := by
  induction h with
  | done =>
    intro ps hpending _
    obtain rfl := List.map_eq_nil_iff.1 hpending
    exact ⟨List.Subperm.refl _, fun _ => .nil⟩
  | leaf node _ ih =>
    intro ps hpending hps
    obtain ⟨⟨first, t⟩, ps, rfl, rfl, rfl⟩ := List.map_eq_cons_iff.1 hpending
    obtain ⟨ht, hrest⟩ := List.forall_mem_cons.1 hps
    cases t with
    | call name args => exact absurd (ht.label_call node) (Label.ofName_ne_leaf name _)
    | leaf v =>
      obtain ⟨hsub, hperm⟩ := ih rfl hrest
      rw [List.flatMap_cons, numbers_leaf, List.singleton_append]
      exact ⟨(List.subperm_cons _).2 hsub, fun hx => (hperm hx).cons _⟩
  | @operator i pending found visited o args x node _ ih =>
    intro ps hpending hps
    obtain ⟨⟨first, t⟩, ps, rfl, rfl, rfl⟩ := List.map_eq_cons_iff.1 hpending
    obtain ⟨ht, hrest⟩ := List.forall_mem_cons.1 hps
    cases t with
    | leaf v => simp [ht.leaf] at node
    | call name ts =>
      obtain ⟨-, rfl⟩ : _ ∧ (placed first ts).map rootNumber = args := by simpa [ht.call] using node
      -- The arguments share the numbers of the term but its own, which is visited now.
      have hpending : (placed first ts ++ ps).map rootNumber = _ := List.map_append
      obtain ⟨hsub, hperm⟩ := ih hpending fun p hp => (List.mem_append.1 hp).elim (ht.args p) (hrest p)
      have hnumbers : (rootNumber (first, .call name ts) :: (placed first ts ++ ps).flatMap numbers).Perm
          (((first, .call name ts) :: ps).flatMap numbers) := by
        rw [List.flatMap_cons, numbers_call, List.flatMap_append, List.append_assoc]
        exact List.perm_middle.symm
      exact ⟨((List.subperm_cons _).2 hsub).trans hnumbers.subperm,
        fun hx => ((hperm hx).cons _).trans hnumbers⟩
  | other node =>
    intro ps hpending hps
    obtain ⟨p, ps, rfl, rfl, rfl⟩ := List.map_eq_cons_iff.1 hpending
    refine ⟨List.singleton_subperm_iff.2 ?_, fun hx => by cases hx⟩
    exact List.mem_flatMap.2 ⟨p, List.mem_cons_self, rootNumber_mem_numbers p⟩

/-- A traversal that fails comes upon a constructor without an operator. -/
theorem Traverses.exists_other {f : Failure} (h : e.Traverses pending found visited x)
    (hx : x = .error f) : ∃ n ∈ e.term.nodes, ∃ name, n.label = .other name := by
  induction h with
  | done => cases hx
  | leaf _ _ ih => exact ih hx
  | operator _ _ ih => exact ih hx
  | @other i pending found name args node => exact ⟨_, List.mem_of_getElem? node, name, rfl⟩

/-- The nodes of an expression are listed while its text is read, leaves when it is clear that their words
are not called and constructors when they are closed, and make up a tree: arguments stand before the node
that takes them, from left to right, and each node but the last is an argument in one place. A traversal
from the last node on ends, no number that it comes to is out of range, it visits no node twice, and it
visits all if each constructor belongs to an operator. -/
theorem nodes_are_visited_once {s : Text} (h : ofText s = .ok e) :
    e.term.nodes ≠ [] ∧
      (∀ i (n : Node), e.term.nodes[i]? = some n → n.args.Pairwise (· < ·) ∧ ∀ j ∈ n.args, j < i) ∧
      (∀ j, j + 1 < e.term.nodes.length → (e.term.nodes.flatMap Node.args).count j = 1) ∧
      (∀ n ∈ e.term.nodes, e.term.nodes.length - 1 ∉ n.args) ∧
      (∀ t u, s = t ++ u → ∃ r, Reader.initial.run t = .ok r ∧
        Listed r.nodes (rootNumbers 0 r.terms) ∧ r.nodes <+: e.term.nodes ∧
        Text.plainWords t = Node.leafWords r.nodes ++ r.openWord?.toList ∧
        t.count ')' = Node.constructorCount r.nodes) ∧
      ∃ visited, (∀ ns x, e.Traverses [e.term.nodes.length - 1] [] ns x ↔ ns = visited ∧ x = e.operators) ∧
        visited.Nodup ∧ (∀ i ∈ visited, i < e.term.nodes.length) ∧
        ((∀ n ∈ e.term.nodes, ∀ name, n.label ≠ .other name) →
          visited.Perm (List.range e.term.nodes.length)) := by
  obtain ⟨rfl, hterm⟩ := ofText_eq_ok.1 h
  obtain ⟨visited, htraverses⟩ := e.traverses_root
  have hrun := (htraverses visited e.operators).2 ⟨rfl, rfl⟩
  have hnumbers : [(0, e.term)].flatMap numbers = List.range e.term.nodes.length := by
    simp [numbers, length_nodes, List.range_eq_range']
  have hroot : [(0, e.term)].map rootNumber = [e.term.nodes.length - 1] := by
    simp [rootNumber, length_nodes]
  obtain ⟨hsub, hperm⟩ := hrun.subperm hroot (List.forall_mem_singleton.2 e.term.listedFrom_nodes)
  rw [hnumbers] at hsub hperm
  refine ⟨?_, fun i n hn => e.term.listed_nodes.args_ordered hn, fun j hj => count_args_eq_one hj,
    e.term.root_not_mem_args, ?_, visited, htraverses, ?_, ?_, fun hlabels => hperm ?_⟩
  · rw [← List.length_pos_iff, length_nodes]
    exact e.term.size_pos
  · intro t u htext
    rw [htext] at hterm
    exact nodes_while_reading hterm
  · obtain ⟨l, hl, hrange⟩ := hsub
    exact hl.nodup_iff.1 (hrange.nodup List.nodup_range)
  · exact fun i hi => List.mem_range.1 (hsub.subset hi)
  · cases hoperators : e.operators with
    | ok os => rfl
    | error f =>
      obtain ⟨n, hn, name, hname⟩ := hrun.exists_other hoperators
      exact absurd hname (hlabels n hn name)

theorem nodes_of_a_difference_are_visited_once :
    ∃ e, ofText "Sub::make(Max::make(x0, k), y0)" = .ok e ∧ e.term.nodes.length = 5 ∧
      (e.term.nodes.flatMap Node.args).count 3 = 1 ∧
      ∃ visited, visited.Perm (List.range 5) ∧ e.Traverses [4] [] visited (.ok [.sub, .max]) := by
  have h : ofText "Sub::make(Max::make(x0, k), y0)" = .ok ⟨"Sub::make(Max::make(x0, k), y0)",
    .call "Sub" [.call "Max" [.leaf "x0", .leaf "k"], .leaf "y0"]⟩ := rfl
  obtain ⟨-, -, hcount, -, -, visited, htraverses, -, -, hperm⟩ := nodes_are_visited_once h
  have hlabels : ∀ n ∈ [(⟨.leaf "x0", []⟩ : Node), ⟨.leaf "k", []⟩, ⟨.operator .max, [0, 1]⟩,
      ⟨.leaf "y0", []⟩, ⟨.operator .sub, [2, 3]⟩], ∀ name, n.label ≠ .other name := by simp
  exact ⟨_, h, rfl, hcount 3 (by decide), visited, hperm hlabels, (htraverses _ _).2 ⟨rfl, rfl⟩⟩

end Expression

end ReductionTables
