import Mathlib.Logic.Function.Basic
import ReductionTables.Proofs.Text.Rewriting
import ReductionTables.Row.Basic

/-!
# Atoms can be undone

The renaming of variables and the collapsing of shorthands each do what a single pass does, and each
pass can be undone: the first puts the same mark before every variable, and the second writes names
that no renamed text holds, because in them a variable stands behind another character.
-/

namespace ReductionTables

theorem Operator.mem_all (o : Operator) : o ∈ Operator.all := by cases o <;> decide

/-! ## The renaming of variables -/

namespace Variable

theorem mem_all (v : Variable) : v ∈ all := by cases v <;> decide

def rules : List Rule := all.map rule

theorem rules_compatible : Rule.Compatible rules := ⟨by decide, by decide⟩

theorem rules_inverse_compatible : Rule.Compatible (rules.map Rule.inverse) := ⟨by decide, by decide⟩

theorem rules_new_clear : ∀ q ∈ rules, ∀ r ∈ rules, Text.Avoids r.old q.new := by decide

/-- The text with the names of variables for their atoms. -/
def unrename (t : Text) : Text := Rule.applyAll (rules.map Rule.inverse) t

theorem unrename_rename (t : Text) : unrename (Rule.applyAll rules t) = t := by
  refine Rewrites.applyAll_eq rules_inverse_compatible ?_
  refine Rewrites.inverse_of_mark 'i' ['3', '2', '_'] rules_compatible ?_ ?_
    rules_new_clear (Rewrites.applyAll rules_compatible t)
  · decide
  · decide

end Variable

/-! ## The collapsing of shorthands -/

namespace Shorthand

def rules : List Rule := all.map rule

theorem length_pattern (s : Shorthand) : s.pattern.length = 25 := by
  have hname : ∀ o : Operator, o.name.length = 3 := by intro o; cases o <;> rfl
  have hatom : ∀ v : Variable, v.atom.length = 6 := by intro v; cases v <;> rfl
  simp only [pattern, List.length_append, hname, hatom]
  rfl

theorem length_atom (s : Shorthand) : s.atom.length = 12 := by
  have hname : ∀ o : Operator, o.lowerName.length = 3 := by intro o; cases o <;> rfl
  have hvariable : ∀ v : Variable, v.name.length = 2 := by intro v; cases v <;> rfl
  unfold atom
  simp only [List.length_append, hname, hvariable]
  rfl

theorem pattern_eq (s : Shorthand) : s.pattern =
    s.operator.name ++ ("::make(".toList ++ s.left.atom ++ ", ".toList ++ s.right.atom ++ ")".toList) := by
  simp only [pattern, List.append_assoc]

theorem atom_eq (s : Shorthand) : s.atom =
    ("i32_".toList ++ s.operator.lowerName) ++ ("_".toList ++ s.left.name ++ s.right.name) := by
  unfold atom
  simp only [List.append_assoc]

theorem pattern_injective : ∀ s ∈ all, ∀ q ∈ all, s.pattern = q.pattern → s = q := by decide

theorem atom_injective : ∀ s ∈ all, ∀ q ∈ all, s.atom = q.atom → s = q := by decide

theorem pattern_tail_avoids_operator :
    ∀ s ∈ all, ∀ o ∈ Operator.all, Text.Avoids s.pattern.tail o.name := by decide

theorem atom_avoids_operator : ∀ s ∈ all, ∀ o ∈ Operator.all, Text.Avoids s.atom o.name := by
  decide

theorem pattern_avoids_operator_atom :
    ∀ s ∈ all, ∀ o ∈ Operator.all, Text.Avoids s.pattern ("i32_".toList ++ o.lowerName) := by
  decide

theorem atom_tail_avoids_mark : ∀ s ∈ all, Text.Avoids s.atom.tail "i32_".toList := by
  decide

variable {s q : Shorthand}

theorem atom_avoids_pattern (hs : s ∈ all) (q : Shorthand) : Text.Avoids s.atom q.pattern := by
  rw [pattern_eq q]
  exact (atom_avoids_operator s hs q.operator q.operator.mem_all).append _

theorem pattern_avoids_atom (hs : s ∈ all) (q : Shorthand) : Text.Avoids s.pattern q.atom := by
  rw [atom_eq q]
  exact (pattern_avoids_operator_atom s hs q.operator q.operator.mem_all).append _

theorem atom_tail_avoids_atom (hs : s ∈ all) (q : Shorthand) : Text.Avoids s.atom.tail q.atom := by
  rw [atom_eq q, List.append_assoc]
  exact (atom_tail_avoids_mark s hs).append _

theorem pattern_avoids_pattern (hs : s ∈ all) (hq : q ∈ all) (h : s ≠ q) :
    Text.Avoids s.pattern q.pattern := by
  refine Text.Avoids.of_tail ?_ (by rw [length_pattern, length_pattern])
    fun he => h (pattern_injective s hs q hq he)
  rw [pattern_eq q]
  exact (pattern_tail_avoids_operator s hs q.operator q.operator.mem_all).append _

theorem atom_avoids_atom (hs : s ∈ all) (hq : q ∈ all) (h : s ≠ q) : Text.Avoids s.atom q.atom :=
  Text.Avoids.of_tail (atom_tail_avoids_atom hs q) (by rw [length_atom, length_atom])
    fun he => h (atom_injective s hs q hq he)

theorem nodup_all : all.Nodup := by decide

theorem rules_compatible : Rule.Compatible rules where
  old_ne_nil := by
    intro r hr
    obtain ⟨s, -, rfl⟩ := List.mem_map.1 hr
    exact List.ne_nil_of_length_eq_add_one s.length_pattern
  apart := by
    refine List.pairwise_map.2 (nodup_all.imp_of_mem fun {s q} hs hq hne => ?_)
    exact ⟨⟨atom_avoids_pattern hs q, pattern_avoids_atom hq s, pattern_avoids_pattern hq hs hne.symm⟩,
      ⟨atom_avoids_pattern hq s, pattern_avoids_atom hs q, pattern_avoids_pattern hs hq hne⟩⟩

theorem rules_inverse_compatible : Rule.Compatible (rules.map Rule.inverse) where
  old_ne_nil := by
    intro r hr
    simp only [rules, List.map_map] at hr
    obtain ⟨s, -, rfl⟩ := List.mem_map.1 hr
    exact List.ne_nil_of_length_eq_add_one s.length_atom
  apart := by
    rw [rules, List.map_map]
    refine List.pairwise_map.2 (nodup_all.imp_of_mem fun {s q} hs hq hne => ?_)
    exact ⟨⟨pattern_avoids_atom hs q, atom_avoids_pattern hq s, atom_avoids_atom hq hs hne.symm⟩,
      ⟨pattern_avoids_atom hq s, atom_avoids_pattern hs q, atom_avoids_atom hs hq hne⟩⟩

/-- The text with the expressions of shorthands for their names. -/
def expand (t : Text) : Text := Rule.applyAll (rules.map Rule.inverse) t

theorem expand_collapse {t : Text} (ht : ∀ s ∈ all, ¬ s.atom <:+: t) :
    expand (Rule.applyAll rules t) = t := by
  refine Rewrites.applyAll_eq rules_inverse_compatible ?_
  refine Rewrites.inverse_of_absent ?_ (Rewrites.applyAll rules_compatible t) ?_
  · intro q hq r hr
    obtain ⟨s, -, rfl⟩ := List.mem_map.1 hq
    obtain ⟨s', hs', rfl⟩ := List.mem_map.1 hr
    exact atom_tail_avoids_atom hs' s
  · intro r hr
    obtain ⟨s, hs, rfl⟩ := List.mem_map.1 hr
    exact ht s hs

end Shorthand

/-! ## Both -/

theorem Variable.atom_avoids_operator_atom :
    ∀ v ∈ all, ∀ o ∈ Operator.all, Text.Avoids v.atom ("i32_".toList ++ o.lowerName) := by
  decide

theorem Operator.mark_avoids_variable :
    ∀ o ∈ all, ∀ q ∈ Variable.rules, Text.Avoids ("32_".toList ++ o.lowerName ++ "_".toList) q.new := by
  decide

/-- A renamed text holds no name of a shorthand: there a variable stands behind a letter or digit,
while the renaming puts an underscore before each. -/
theorem Rewrites.not_atom {t u : Text} (h : Rewrites Variable.rules t u) (s : Shorthand) :
    ¬ s.atom <:+: u := by
  induction h with
  | nil =>
    intro hocc
    exact List.ne_nil_of_length_eq_add_one s.length_atom (List.infix_nil.1 hocc)
  | hit hr _ ih =>
    intro hocc
    obtain ⟨v, hv, rfl⟩ := List.mem_map.1 hr
    have havoid : Text.Avoids v.atom s.atom := by
      rw [Shorthand.atom_eq s]
      exact (Variable.atom_avoids_operator_atom v hv s.operator s.operator.mem_all).append _
    exact ih (havoid.of_append hocc)
  | @miss c t u hc h ih =>
    intro hocc
    rcases List.infix_cons_iff.1 hocc with hbegin | hocc
    · have hatom : s.atom = 'i' :: (("32_".toList ++ s.operator.lowerName ++ "_".toList) ++
          (s.left.name ++ s.right.name)) := by
        unfold Shorthand.atom
        rw [List.append_assoc _ s.left.name]
        rfl
      rw [hatom, List.cons_prefix_cons] at hbegin
      obtain ⟨-, u₁, rfl⟩ := hbegin
      rw [List.append_assoc _ (s.left.name ++ s.right.name), List.append_assoc s.left.name] at h
      obtain ⟨t₁, -, h₁⟩ :=
        of_prefix_right (Operator.mark_avoids_variable s.operator s.operator.mem_all) h
      exact not_begins_old Variable.rules_new_clear Variable.rules_compatible.old_ne_nil h₁
        (List.mem_map_of_mem s.left.mem_all) (List.prefix_append s.left.name _)
    · exact ih hocc

/-- The text as it was before variables and shorthands were given their names. -/
def withoutAtoms (t : Text) : Text := Variable.unrename (Shorthand.expand t)

theorem withoutAtoms_withAtoms (t : Text) : withoutAtoms (withAtoms t) = t := by
  have habsent : ∀ s ∈ Shorthand.all, ¬ s.atom <:+: Rule.applyAll Variable.rules t :=
    fun s _ => (Rewrites.applyAll Variable.rules_compatible t).not_atom s
  calc
    withoutAtoms (withAtoms t) = Variable.unrename (Rule.applyAll Variable.rules t) :=
      congrArg Variable.unrename (Shorthand.expand_collapse habsent)
    _ = t := Variable.unrename_rename t

end ReductionTables
