import ReductionTables.Proofs.Row.Atoms
import ReductionTables.Proofs.Text.SinglePass

/-!
# Atoms in any order

Variables are renamed and shorthands collapsed by tables of rules that are applied in the order in which
they are listed. Any other order would do: each table comes to a single pass, and when the shorthands
are collapsed none is left to be found.
-/

namespace ReductionTables

/-! ## Collapsed texts -/

namespace Shorthand

variable {s : Shorthand} {t u : Text}

theorem rules_written_clear : ∀ q ∈ rules, ∀ r ∈ rules, Text.Avoids q.new r.old := by
  intro q hq r hr
  obtain ⟨s, hs, rfl⟩ := List.mem_map.1 hq
  obtain ⟨s', -, rfl⟩ := List.mem_map.1 hr
  exact atom_avoids_pattern hs s'

theorem rules_searched_clear : ∀ q ∈ rules, ∀ r ∈ rules, Text.Avoids r.old q.new := by
  intro q hq r hr
  obtain ⟨s, -, rfl⟩ := List.mem_map.1 hq
  obtain ⟨s', hs', rfl⟩ := List.mem_map.1 hr
  exact pattern_avoids_atom hs' s

/-- Collapsing leaves no expression that has a shorthand. -/
theorem not_pattern_of_rewrites (h : Rewrites rules t u) (hs : s ∈ all) : ¬ s.pattern <:+: u :=
  h.not_infix_old rules_written_clear rules_searched_clear rules_compatible.old_ne_nil
    (List.mem_map_of_mem hs)

end Shorthand

theorem withAtoms_eq (t : Text) :
    withAtoms t = Rule.applyAll Shorthand.rules (Rule.applyAll Variable.rules t) := rfl

theorem not_pattern_withAtoms {s : Shorthand} (hs : s ∈ Shorthand.all) (t : Text) :
    ¬ s.pattern <:+: withAtoms t :=
  Shorthand.not_pattern_of_rewrites (Rewrites.applyAll Shorthand.rules_compatible _) hs

/-! ## The order of the tables -/

/-- The variables and then the shorthands may be given their names in any order, one after the other or
at once: the text is the same, no expression that has a shorthand is left in it, and looking for these
once more, in any order, changes nothing. -/
theorem atoms_come_in_any_order (t : Text) {renames collapses : List Rule}
    (hrenames : renames.Perm (Variable.all.map Variable.rule))
    (hcollapses : collapses.Perm (Shorthand.all.map Shorthand.rule)) :
    Rule.applyAll collapses (Rule.applyAll renames t) = withAtoms t ∧
      Rule.applyAtOnce collapses (Rule.applyAtOnce renames t) = withAtoms t ∧
      (∀ s ∈ Shorthand.all, ¬ s.pattern <:+: withAtoms t) ∧
      Rule.applyAll collapses (withAtoms t) = withAtoms t := by
  have hvariables : Rule.Compatible renames := Variable.rules_compatible.perm hrenames.symm
  have hshorthands : Rule.Compatible collapses := Shorthand.rules_compatible.perm hcollapses.symm
  have hordered : Rule.applyAll collapses (Rule.applyAll renames t) = withAtoms t := by
    rw [withAtoms_eq, Variable.rules_compatible.applyAll_perm hrenames,
      Shorthand.rules_compatible.applyAll_perm hcollapses]
  refine ⟨hordered, ?_, fun s hs => not_pattern_withAtoms hs t, ?_⟩
  · rw [hshorthands.applyAtOnce_eq, hvariables.applyAtOnce_eq, hordered]
  · refine hshorthands.applyAll_of_absent fun r hr => ?_
    obtain ⟨s, hs, rfl⟩ := List.mem_map.1 (hcollapses.mem_iff.1 hr)
    exact not_pattern_withAtoms hs t

/-- The names `kx0` and `i32_y0` hold variables, and the inner product is collapsed before the sum is
looked at. -/
theorem atoms_come_backwards :
    Rule.applyAll (Shorthand.all.map Shorthand.rule).reverse
        (Rule.applyAll (Variable.all.map Variable.rule).reverse
          "Add::make(Mul::make(x0, y0), Max::make(kx0, i32_y0))") =
      "Add::make(i32_mul_x0y0, Max::make(ki32_x0, i32_i32_y0))".toList := by
  have hnames : withAtoms "Add::make(Mul::make(x0, y0), Max::make(kx0, i32_y0))" =
      "Add::make(i32_mul_x0y0, Max::make(ki32_x0, i32_i32_y0))".toList := by decide
  exact ((atoms_come_in_any_order _ (List.reverse_perm _) (List.reverse_perm _)).1).trans hnames

end ReductionTables
