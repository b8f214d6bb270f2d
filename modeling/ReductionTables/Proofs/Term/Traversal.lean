import ReductionTables.Expression
import ReductionTables.Proofs.Outcome
import ReductionTables.Proofs.Term.Layout

/-!
# Traversing the nodes of an expression

The operators of an expression can be found from its numbered nodes with a list of numbers that are
still to be visited. The arguments of a visited node are put before what is left, so the nodes of a
subterm are visited one after the other, each before its arguments.
-/

namespace ReductionTables.Expression

/-- Visiting the nodes of the pending numbers and what they refer to, with some operators found before,
comes past the visited numbers to an outcome: the operators found in the end, or the failure of the
first constructor that belongs to none. There is no outcome when a number is that of no node, or when
the visits do not end. -/
inductive Traverses (e : Expression) : (pending : List Nat) → (found : List Operator) →
    (visited : List Nat) → Except Failure (List Operator) → Prop
  | done {found} : Traverses e [] found [] (.ok found)
  | leaf {i pending found visited w args x} (node : e.term.nodes[i]? = some ⟨.leaf w, args⟩)
      (rest : Traverses e pending found visited x) : Traverses e (i :: pending) found (i :: visited) x
  | operator {i pending found visited o args x} (node : e.term.nodes[i]? = some ⟨.operator o, args⟩)
      (rest : Traverses e (args ++ pending) (found ++ [o]) visited x) :
      Traverses e (i :: pending) found (i :: visited) x
  | other {i pending found name args} (node : e.term.nodes[i]? = some ⟨.other name, args⟩) :
      Traverses e (i :: pending) found [i] (.error (.unknownOperator name e.text))

variable {e : Expression} {i : Nat} {pending visited visited' numbers : List Nat}
  {found os : List Operator} {x x' : Except Failure (List Operator)} {f : Failure}

/-- The branches of a visit exclude each other, by the label of the node. -/
theorem Traverses.unique (h : e.Traverses pending found visited x)
    (h' : e.Traverses pending found visited' x') : visited = visited' ∧ x = x' := by
  induction h generalizing visited' x' with
  | done =>
    cases h'
    exact ⟨rfl, rfl⟩
  | leaf node _ ih =>
    cases h' with
    | leaf _ rest' =>
      obtain ⟨rfl, rfl⟩ := ih rest'
      exact ⟨rfl, rfl⟩
    | operator node' _ => simp [node] at node'
    | other node' => simp [node] at node'
  | operator node _ ih =>
    cases h' with
    | leaf node' _ => simp [node] at node'
    | operator node' rest' =>
      obtain ⟨rfl, rfl⟩ : _ ∧ _ := by simpa [node] using node'
      obtain ⟨rfl, rfl⟩ := ih rest'
      exact ⟨rfl, rfl⟩
    | other node' => simp [node] at node'
  | other node =>
    cases h' with
    | leaf node' _ => simp [node] at node'
    | operator node' _ => simp [node] at node'
    | other node' =>
      obtain ⟨rfl, rfl⟩ : _ ∧ _ := by simpa [node] using node'
      exact ⟨rfl, rfl⟩

/-! ## Visits to several nodes -/

/-- The nodes of the given numbers and what they refer to are visited before what is pending, and come
to the given outcome. -/
def Finds (e : Expression) (numbers : List Nat) : Except Failure (List Operator) → Prop
  | .ok os => ∃ ns, ∀ {pending found visited x}, e.Traverses pending (found ++ os) visited x →
    e.Traverses (numbers ++ pending) found (ns ++ visited) x
  | .error f => ∃ ns, ∀ pending found, e.Traverses (numbers ++ pending) found ns (.error f)

namespace Finds

variable {more : List Nat}

theorem nil : e.Finds [] (.ok []) := ⟨[], fun h => by simpa using h⟩

theorem append (h : e.Finds numbers (.ok os)) (hmore : e.Finds more x) :
    e.Finds (numbers ++ more) (x.map (os ++ ·)) := by
  obtain ⟨ns, h⟩ := h
  cases x with
  | ok os' =>
    obtain ⟨ns', hmore⟩ := hmore
    exact ⟨ns ++ ns', fun hrest => by simpa using h (hmore (by simpa using hrest))⟩
  | error f =>
    obtain ⟨ns', hmore⟩ := hmore
    exact ⟨ns ++ ns', fun pending found => by simpa using h (hmore pending (found ++ os))⟩

theorem append_of_error (h : e.Finds numbers (.error f)) (more : List Nat) :
    e.Finds (numbers ++ more) (.error f) := by
  obtain ⟨ns, h⟩ := h
  exact ⟨ns, fun pending found => by simpa using h (more ++ pending) found⟩

theorem leaf {w : Text} (h : e.term.nodes[i]? = some ⟨.leaf w, numbers⟩) : e.Finds [i] (.ok []) :=
  ⟨[i], fun hrest => Traverses.leaf h (by simpa using hrest)⟩

theorem operator {o : Operator} (h : e.term.nodes[i]? = some ⟨.operator o, numbers⟩)
    (hargs : e.Finds numbers x) : e.Finds [i] (x.map (o :: ·)) := by
  cases x with
  | ok os =>
    obtain ⟨ns, hargs⟩ := hargs
    exact ⟨i :: ns, fun hrest => Traverses.operator h (hargs (by simpa using hrest))⟩
  | error f =>
    obtain ⟨ns, hargs⟩ := hargs
    exact ⟨i :: ns, fun pending found => Traverses.operator h (hargs pending (found ++ [o]))⟩

theorem other {name : Text} (h : e.term.nodes[i]? = some ⟨.other name, numbers⟩) :
    e.Finds [i] (.error (.unknownOperator name e.text)) :=
  ⟨[i], fun _ _ => Traverses.other h⟩

end Finds

/-! ## Whole terms -/

mutual

/-- What a traversal finds from the node of a term on are the operators of the term. -/
theorem finds_of_standsAt : (t : Term) → ∀ {i : Nat}, t.StandsAt e.term.nodes i →
    e.Finds [i] (t.heads.mapM e.operatorNamed)
  | .leaf w, i, h => Finds.leaf h
  | .call name args, i, h => by
    obtain ⟨numbers, hnode, hargs⟩ := h
    -- The arguments are visited next, so what they come to decides what the node comes to.
    have hfinds := finds_of_standAtAll args hargs
    rw [Term.heads, List.mapM_cons, operatorNamed]
    unfold Label.ofName at hnode
    cases hname : Operator.ofName? name with
    | none =>
      rw [hname] at hnode
      exact Finds.other hnode
    | some o =>
      rw [hname] at hnode
      exact Finds.operator hnode hfinds

theorem finds_of_standAtAll : (ts : List Term) → ∀ {numbers : List Nat},
    Term.StandAtAll e.term.nodes ts numbers → e.Finds numbers ((Term.headsOfList ts).mapM e.operatorNamed)
  | [], numbers, h => by
    obtain rfl : numbers = [] := h
    exact Finds.nil
  | t :: ts, numbers, h => by
    obtain ⟨i, is, rfl, ht, hts⟩ := h
    have hfirst := finds_of_standsAt t ht
    rw [Term.headsOfList, List.mapM_append]
    cases hheads : t.heads.mapM e.operatorNamed with
    | error f =>
      rw [hheads] at hfirst
      exact hfirst.append_of_error is
    | ok os =>
      rw [hheads] at hfirst
      exact hfirst.append (finds_of_standAtAll ts hts)

end

/-- A traversal from the root on ends, and comes to the operators of the expression or to the failure
that these come to. -/
theorem traverses_root (e : Expression) : ∃ visited, ∀ ns x,
    e.Traverses [e.term.nodes.length - 1] [] ns x ↔ ns = visited ∧ x = e.operators := by
  have h := finds_of_standsAt e.term e.term.standsAt_nodes
  have hroot : ∃ visited, e.Traverses [e.term.nodes.length - 1] [] visited e.operators := by
    rw [operators, Term.length_nodes]
    cases hheads : e.term.heads.mapM e.operatorNamed with
    | ok os =>
      rw [hheads] at h
      obtain ⟨ns, h⟩ := h
      exact ⟨ns ++ [], h .done⟩
    | error f =>
      rw [hheads] at h
      obtain ⟨ns, h⟩ := h
      exact ⟨ns, h [] []⟩
  obtain ⟨visited, hvisited⟩ := hroot
  refine ⟨visited, fun ns x => ⟨fun h => h.unique hvisited, ?_⟩⟩
  rintro ⟨rfl, rfl⟩
  exact hvisited

end ReductionTables.Expression
