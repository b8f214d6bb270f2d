import ReductionTables.Expression
import ReductionTables.Proofs.Row.Expressions
import ReductionTables.Proofs.Term.Words
import ReductionTables.Proofs.Text.SinglePass
import ReductionTables.Row.Basic

/-!
# Names in rows

A row names variables, shorthands and what else stands at the leaves of its expression, and a constant
is named by a substitution into its word alone. Both come to the same name, because the renaming of
variables sees one word at a time and shorthands are found in no single word.
-/

namespace ReductionTables

/-! ## Words that are kept -/

theorem Rule.applyAll_eq_self {rules : List Rule} (hrules : Compatible rules) {t : Text}
    (h : ∀ r ∈ rules, ∃ c ∈ r.old, c ∉ t) : applyAll rules t = t := by
  refine hrules.applyAll_of_absent fun r hr hocc => ?_
  obtain ⟨c, hc, hct⟩ := h r hr
  exact hct (hocc.subset hc)

namespace Text

theorem isDigit_of_natural? {t : Text} {n : Nat} (h : natural? t = some n) : ∀ c ∈ t, c.isDigit := by
  rw [natural?] at h
  split at h
  · exact List.all_eq_true.1 (And.right ‹_›)
  · cases h

theorem exists_of_integer? {t : Text} {i : Int} (h : integer? t = some i) :
    ∃ ds n, natural? ds = some n ∧ (t = ds ∨ t = '-' :: ds ∨ t = '+' :: ds) := by
  rw [integer?.eq_def] at h
  split at h
  all_goals
    obtain ⟨k, hk, -⟩ := Option.map_eq_some_iff.1 h
    obtain ⟨n, hn, -⟩ := Option.bind_eq_some_iff.1 hk
  · exact ⟨_, n, hn, Or.inr (Or.inl rfl)⟩
  · exact ⟨_, n, hn, Or.inr (Or.inr rfl)⟩
  · exact ⟨_, n, hn, Or.inl rfl⟩

/-- An integer is written with digits and a sign only. -/
theorem mem_of_signed64? {t : Text} (h : (signed64? t).isSome) :
    ∀ c ∈ t, c.isDigit ∨ c = '-' ∨ c = '+' := by
  obtain ⟨i, hi⟩ := Option.isSome_iff_exists.1 h
  obtain ⟨ds, n, hn, ht⟩ := exists_of_integer? (Option.filter_eq_some_iff.1 hi).1
  have hds := isDigit_of_natural? hn
  intro c hc
  rcases ht with rfl | rfl | rfl
  · exact Or.inl (hds c hc)
  · rcases List.mem_cons.1 hc with rfl | hc
    · exact Or.inr (Or.inl rfl)
    · exact Or.inl (hds c hc)
  · rcases List.mem_cons.1 hc with rfl | hc
    · exact Or.inr (Or.inr rfl)
    · exact Or.inl (hds c hc)

end Text

/-! ## Renamed words -/

namespace Variable

/-- The text with the atoms of variables for their names. -/
def rename (t : Text) : Text := Rule.applyAll rules t

theorem rules_forWords : ∀ r ∈ rules, r.ForWords := by decide

theorem wordwise_rename : Wordwise rename := .applyAll rules_forWords

theorem rename_name (v : Variable) : rename v.name = v.atom := by cases v <;> decide

theorem rename_injective : Function.Injective rename := Function.LeftInverse.injective unrename_rename

theorem rename_of_signed64? {w : Text} (h : (Text.signed64? w).isSome) : rename w = w := by
  refine Rule.applyAll_eq_self rules_compatible fun r hr => ?_
  have hletter : ∀ r ∈ rules, 'x' ∈ r.old ∨ 'y' ∈ r.old := by decide
  rcases hletter r hr with hx | hy
  · exact ⟨'x', hx, fun hw => absurd (Text.mem_of_signed64? h 'x' hw) (by decide)⟩
  · exact ⟨'y', hy, fun hw => absurd (Text.mem_of_signed64? h 'y' hw) (by decide)⟩

end Variable

/-- Atoms are given to a word by renaming alone. -/
theorem withAtoms_word {w : Text} (hw : ':' ∉ w) : withAtoms w = Variable.rename w := by
  refine Rule.applyAll_eq_self Shorthand.rules_compatible fun r hr => ?_
  obtain ⟨s, -, rfl⟩ := List.mem_map.1 hr
  refine ⟨':', by simp [Shorthand.rule, Shorthand.pattern], ?_⟩
  exact Rule.not_mem_applyAll (fun q hq hc => (Variable.rules_new_characters q hq ':' hc).2 rfl) hw

/-! ## Terms of rows -/

theorem Shorthand.exists_of_mem_leaves (s : Shorthand) {w : Text} (hw : w ∈ s.term.leaves) :
    ∃ v : Variable, w = v.atom := by
  have hleaves : s.term.leaves = [s.left.atom, s.right.atom] := rfl
  rw [hleaves] at hw
  rcases List.mem_pair.1 hw with rfl | rfl
  · exact ⟨s.left, rfl⟩
  · exact ⟨s.right, rfl⟩

theorem Operator.isSome_ofName?_name : ∀ o ∈ all, (ofName? o.name).isSome := by decide

namespace Term

variable {s : Text} {t u : Term} {k w : Text}

mutual

theorem leaves_graft (g : Text → Term) :
    (t : Term) → (t.graft g).leaves = t.leaves.flatMap fun w => (g w).leaves
  | leaf _ => by simp only [graft, leaves, List.flatMap_cons, List.flatMap_nil, List.append_nil]
  | call _ args => by simp only [graft, leaves, leavesOfList_graftList g args]

theorem leavesOfList_graftList (g : Text → Term) : (ts : List Term) →
    leavesOfList (graftList g ts) = (leavesOfList ts).flatMap fun w => (g w).leaves
  | [] => rfl
  | t :: ts => by
    simp only [graftList, leavesOfList, List.flatMap_append, leaves_graft g t,
      leavesOfList_graftList g ts]

end

/-- The second term is how a row writes the first: with atoms for variables, and with shorthands for
operations on them. -/
def WrittenAs (t u : Term) : Prop := u.graft Shorthand.termOfWord = t.mapWords Variable.rename

theorem exists_writtenAs (h : ofText s = .ok t)
    (hheads : ∀ n ∈ t.heads, n ∈ Operator.all.map Operator.name) :
    ∃ u, ofText (withAtoms s) = .ok u ∧ t.WrittenAs u := by
  obtain ⟨ht, hs⟩ := ofText_eq_ok_iff.1 h
  obtain ⟨v, hv, hvt, hvs⟩ :=
    Variable.retraced.exists_print Variable.rules_compatible ht hheads (fun _ _ => trivial) hs
  have hvheads : ∀ n ∈ v.heads, n ∈ Operator.all.map Operator.name := fun n hn =>
    hheads n (hvt ▸ heads_subset_graft _ v hn)
  have hoperators : ∀ n ∈ v.heads, (Operator.ofName? n).isSome := by
    intro n hn
    obtain ⟨o, ho, rfl⟩ := List.mem_map.1 (hvheads n hn)
    exact Operator.isSome_ofName?_name o ho
  -- The print that renaming makes is that of the term with its words renamed, since it was read before.
  obtain ⟨t', ht', rfl⟩ := Variable.wordwise_rename.exists_of_ofText (ofText_print hv hvs) hoperators
  obtain rfl := Except.ok.inj (h.symm.trans ht')
  have habsent : ∀ w ∈ (t.mapWords Variable.rename).tokens, ∀ q ∈ Shorthand.all, w ≠ q.atom := by
    rintro w hw q - rfl
    exact (Rewrites.applyAll Variable.rules_compatible s).not_atom q (hvs.infix_of_mem hw)
  obtain ⟨u, hu, hut, hus⟩ :=
    Shorthand.retraced.exists_print Shorthand.rules_compatible hv hvheads habsent hvs
  exact ⟨u, ofText_print hu hus, hut⟩

namespace WrittenAs

/-- A leaf of a row is a shorthand, or the renamed word of a leaf. -/
theorem exists_leaf (h : t.WrittenAs u) (hw : w ∈ u.leaves) :
    w ∈ Shorthand.all.map Shorthand.atom ∨ ∃ k ∈ t.leaves, Variable.rename k = w := by
  refine or_iff_not_imp_left.2 fun hnot => ?_
  have hword : Shorthand.termOfWord w = .leaf w := by
    refine Shorthand.termOfWord_of_ne fun s hs he => hnot ?_
    rw [he]
    exact List.mem_map_of_mem hs
  have hmem : w ∈ (u.graft Shorthand.termOfWord).leaves := by
    rw [leaves_graft]
    exact List.mem_flatMap.2 ⟨w, hw, by simp [hword, leaves]⟩
  rw [h, leaves_mapWords] at hmem
  exact List.mem_map.1 hmem

/-- No shorthand hides a word that is no variable. -/
theorem mem_leaves (h : t.WrittenAs u) (hk : k ∈ t.leaves)
    (hname : k ∉ Variable.all.map Variable.name) : Variable.rename k ∈ u.leaves := by
  have hmem : Variable.rename k ∈ (u.graft Shorthand.termOfWord).leaves := by
    rw [h, leaves_mapWords]
    exact List.mem_map_of_mem hk
  rw [leaves_graft] at hmem
  obtain ⟨w, hw, hmem⟩ := List.mem_flatMap.1 hmem
  by_cases hshort : ∃ s ∈ Shorthand.all, w = s.atom
  · obtain ⟨s, hs, rfl⟩ := hshort
    rw [Shorthand.termOfWord_atom hs] at hmem
    obtain ⟨v, hv⟩ := s.exists_of_mem_leaves hmem
    rw [← Variable.rename_name] at hv
    rw [Variable.rename_injective hv] at hname
    exact absurd (List.mem_map_of_mem v.mem_all) hname
  · have hleaf : Shorthand.termOfWord w = .leaf w :=
      Shorthand.termOfWord_of_ne fun s hs he => hshort ⟨s, hs, he⟩
    simp only [hleaf, leaves, List.mem_singleton] at hmem
    rwa [hmem]

end WrittenAs

end Term

/-! ## Constants -/

theorem isConstantName_iff {w : Text} : isConstantName w ↔
    w ∉ Variable.all.map Variable.name ∧ ¬ (Text.signed64? w).isSome := by
  simp [isConstantName]

namespace Term

variable {t u : Term} {k w : Text}

theorem name_of_mem_leaves (ht : t.WellFormed) (hk : k ∈ t.leaves) :
    (Constant.ofWord k).name = Variable.rename k := by
  rw [Constant.ofWord, ← withAtoms_word (wellFormed_of_mem_leaves t ht hk).2.2]

/-- What a row names is an atom, a literal or a constant. -/
theorem WrittenAs.names (h : t.WrittenAs u) (ht : t.WellFormed) (hw : w ∈ u.leaves) :
    w ∈ Variable.all.map Variable.atom ∨ w ∈ Shorthand.all.map Shorthand.atom ∨
      (Text.signed64? w).isSome ∨
        ∃ k ∈ t.leaves, isConstantName k ∧ (Constant.ofWord k).name = w := by
  rcases h.exists_leaf hw with hshort | ⟨k, hk, rfl⟩
  · exact Or.inr (Or.inl hshort)
  · by_cases hname : k ∈ Variable.all.map Variable.name
    · obtain ⟨v, hv, rfl⟩ := List.mem_map.1 hname
      rw [Variable.rename_name]
      exact Or.inl (List.mem_map_of_mem hv)
    · refine Or.inr (Or.inr ?_)
      by_cases hliteral : (Text.signed64? k).isSome
      · rw [Variable.rename_of_signed64? hliteral]
        exact Or.inl hliteral
      · exact Or.inr ⟨k, hk, isConstantName_iff.2 ⟨hname, hliteral⟩, name_of_mem_leaves ht hk⟩

/-- A row names every constant of its expression. -/
theorem WrittenAs.mem_of_constant (h : t.WrittenAs u) (ht : t.WellFormed) (hk : k ∈ t.leaves)
    (hconstant : isConstantName k) : (Constant.ofWord k).name ∈ u.leaves := by
  rw [name_of_mem_leaves ht hk]
  exact h.mem_leaves hk (isConstantName_iff.1 hconstant).1

end Term

end ReductionTables
