import ReductionTables.Term.Node

/-!
# Where the nodes of a term stand

The list of nodes holds each subterm at the number that the node above it refers to, and holds
nothing else. Its leaves are those of the term, in the same order.
-/

namespace ReductionTables

/-- The word at a leaf. -/
def Label.word? : Label → Option Text
  | leaf word => some word
  | operator _ | other _ => none

theorem Label.word?_ofName (name : Text) : (ofName name).word? = none := by
  rw [ofName]
  cases Operator.ofName? name with
  | none => rfl
  | some o => rfl

/-- The words at the leaves among the nodes, by number. -/
def Node.leafWords (ns : List Node) : List Text := ns.filterMap fun n => n.label.word?

/-- How many of the nodes are constructors. -/
def Node.constructorCount (ns : List Node) : Nat := ns.countP fun n => n.label.word?.isNone

namespace Term

mutual

/-- The term can be followed from the node of the given number. -/
def StandsAt (ns : List Node) : Term → Nat → Prop
  | leaf word, i => ns[i]? = some ⟨.leaf word, []⟩
  | call name args, i =>
    ∃ numbers, ns[i]? = some ⟨.ofName name, numbers⟩ ∧ StandAtAll ns args numbers

def StandAtAll (ns : List Node) : List Term → List Nat → Prop
  | [], numbers => numbers = []
  | t :: ts, numbers => ∃ i is, numbers = i :: is ∧ t.StandsAt ns i ∧ StandAtAll ns ts is

end

mutual

theorem length_nodesFrom (first : Nat) : (t : Term) → (t.nodesFrom first).length = t.size
  | leaf _ => by simp only [nodesFrom, size, List.length_singleton]
  | call _ args => by
    simp only [nodesFrom, size, List.length_append, List.length_singleton,
      length_nodesOfList first args]

theorem length_nodesOfList (first : Nat) :
    (ts : List Term) → (nodesOfList first ts).length = sizeOfList ts
  | [] => by simp only [nodesOfList, sizeOfList, List.length_nil]
  | t :: ts => by
    simp only [nodesOfList, sizeOfList, List.length_append, length_nodesFrom first t,
      length_nodesOfList (first + t.size) ts]

end

theorem length_nodes (t : Term) : t.nodes.length = t.size := length_nodesFrom 0 t

mutual

theorem standsAt_nodesFrom (before after : List Node) : (t : Term) →
    t.StandsAt (before ++ t.nodesFrom before.length ++ after) (before.length + t.size - 1)
  | leaf word => by
    simp only [StandsAt, nodesFrom, size, Nat.add_sub_cancel, List.append_assoc]
    simp
  | call name args => by
    refine ⟨rootNumbers before.length args, ?_, ?_⟩
    · have hlen := length_nodesOfList before.length args
      simp only [nodesFrom, size, ← Nat.add_assoc, Nat.add_sub_cancel, List.append_assoc, ← hlen]
      simp
    · have h := standAtAll_nodesOfList before
        (⟨.ofName name, rootNumbers before.length args⟩ :: after) args
      simpa only [nodesFrom, List.append_assoc, List.singleton_append] using h

theorem standAtAll_nodesOfList (before after : List Node) : (ts : List Term) →
    StandAtAll (before ++ nodesOfList before.length ts ++ after) ts (rootNumbers before.length ts)
  | [] => by simp only [StandAtAll, rootNumbers]
  | t :: ts => by
    refine ⟨_, _, rfl, ?_, ?_⟩
    · have h := standsAt_nodesFrom before (nodesOfList (before.length + t.size) ts ++ after) t
      simpa only [nodesOfList, List.append_assoc] using h
    · have hlen : (before ++ t.nodesFrom before.length).length = before.length + t.size := by
        rw [List.length_append, length_nodesFrom]
      have h := standAtAll_nodesOfList (before ++ t.nodesFrom before.length) after ts
      simpa only [nodesOfList, hlen, List.append_assoc] using h

end

theorem standsAt_nodes (t : Term) : t.StandsAt t.nodes (t.size - 1) := by
  have h := standsAt_nodesFrom [] [] t
  simpa only [nodes, List.nil_append, List.append_nil, List.length_nil, Nat.zero_add] using h

/-! ## Leaves and constructors -/

mutual

theorem leafWords_nodesFrom (first : Nat) : (t : Term) → Node.leafWords (t.nodesFrom first) = t.leaves
  | leaf word => rfl
  | call name args => by
    have hargs := leafWords_nodesOfList first args
    rw [Node.leafWords] at hargs
    simp [Node.leafWords, nodesFrom, leaves, Label.word?_ofName, hargs]

theorem leafWords_nodesOfList (first : Nat) :
    (ts : List Term) → Node.leafWords (nodesOfList first ts) = leavesOfList ts
  | [] => rfl
  | t :: ts => by
    rw [nodesOfList, leavesOfList, ← leafWords_nodesFrom first t,
      ← leafWords_nodesOfList (first + t.size) ts]
    exact List.filterMap_append

end

theorem leafWords_nodes (t : Term) : Node.leafWords t.nodes = t.leaves := leafWords_nodesFrom 0 t

mutual

theorem constructorCount_nodesFrom (first : Nat) :
    (t : Term) → Node.constructorCount (t.nodesFrom first) = t.heads.length
  | leaf word => rfl
  | call name args => by
    have hargs := constructorCount_nodesOfList first args
    rw [Node.constructorCount] at hargs
    simp [Node.constructorCount, nodesFrom, heads, Label.word?_ofName, hargs]

theorem constructorCount_nodesOfList (first : Nat) :
    (ts : List Term) → Node.constructorCount (nodesOfList first ts) = (headsOfList ts).length
  | [] => rfl
  | t :: ts => by
    rw [nodesOfList, headsOfList, List.length_append, ← constructorCount_nodesFrom first t,
      ← constructorCount_nodesOfList (first + t.size) ts]
    exact List.countP_append

end

end Term

end ReductionTables
