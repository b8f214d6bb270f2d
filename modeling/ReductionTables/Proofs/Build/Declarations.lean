import ReductionTables.Proofs.Build.Names
import ReductionTables.Proofs.Build.Source
import ReductionTables.Proofs.Code.Declarations
import ReductionTables.Proofs.FirstOccurrences

/-!
# Names are declared once

Constants are named by a substitution into words that a log is free to choose, next to names that are
the same in every source. Renaming puts its mark before variables only, so what it makes of a constant
is neither the atom of a variable nor that of a shorthand. Nothing keeps a log from using the names of
the values, which are not renamed.
-/

namespace ReductionTables

/-- The constant was made from a leaf that is neither a variable nor a literal. -/
structure Constant.Declared (c : Constant) : Prop where
  wellFormed : (Term.leaf c.word).WellFormed
  constant : isConstantName c.word
  name : c.name = Variable.rename c.word

theorem Constant.declared_ofWord {w : Text} (hw : (Term.leaf w).WellFormed)
    (hconstant : isConstantName w) : (ofWord w).Declared where
  wellFormed := hw
  constant := hconstant
  name := by rw [ofWord, withAtoms_word hw.2.2]

namespace Constant.Declared

variable {c d : Constant}

theorem eq_of_name_eq (hc : c.Declared) (hd : d.Declared) (h : c.name = d.name) : c = d := by
  have hword : c.word = d.word := by
    rw [hc.name, hd.name] at h
    exact Variable.rename_injective h
  cases c
  cases d
  simp_all

theorem name_not_variable (hc : c.Declared) : c.name ∉ Variable.all.map Variable.atom := by
  intro hmem
  obtain ⟨v, hv, hatom⟩ := List.mem_map.1 hmem
  rw [hc.name, ← Variable.rename_name] at hatom
  have hword := Variable.rename_injective hatom
  exact (isConstantName_iff.1 hc.constant).1 (hword ▸ List.mem_map_of_mem hv)

theorem name_not_shorthand (hc : c.Declared) : c.name ∉ Shorthand.all.map Shorthand.atom := by
  intro hmem
  obtain ⟨s, -, hatom⟩ := List.mem_map.1 hmem
  rw [hc.name] at hatom
  have habsent := (Rewrites.applyAll Variable.rules_compatible c.word).not_atom s
  exact habsent (hatom ▸ List.infix_refl _)

theorem name_mem_values_iff (hc : c.Declared) :
    c.name ∈ Code.Declaration.ofValues.map Code.Declaration.name ↔
      c.word ∈ Code.Declaration.ofValues.map Code.Declaration.name := by
  have hkept : ∀ n ∈ Code.Declaration.ofValues.map Code.Declaration.name, Variable.rename n = n := by
    decide
  rw [hc.name]
  constructor
  · intro hmem
    have hrename := hkept _ hmem
    rwa [Variable.rename_injective hrename] at hmem
  · intro hmem
    rwa [hkept _ hmem]

theorem blank_not_mem_name (hc : c.Declared) : ' ' ∉ c.name := by
  rw [hc.name]
  intro hmem
  exact absurd ((Variable.wellFormed_rename hc.wellFormed).2.1 ' ' hmem) (by decide)

end Constant.Declared

namespace Build

variable {ls : List Text} {b : Build} {c : Constant}

theorem declared_of_mem (h : ofLines ls = .ok b) (hc : c ∈ b.tables.constants) : c.Declared := by
  obtain ⟨w, hw, hconstant, rfl⟩ := exists_word h hc
  exact Constant.declared_ofWord hw hconstant

theorem nodup_constants (b : Build) : b.tables.constants.Nodup := nodup_eraseDups _

theorem nodup_names (h : ofLines ls = .ok b) : (b.tables.constants.map Constant.name).Nodup :=
  b.nodup_constants.map_on fun _ hc _ hd =>
    (declared_of_mem h hc).eq_of_name_eq (declared_of_mem h hd)

theorem declaredNames_source (h : ofLines ls = .ok b) :
    (Text.lines b.source).filterMap Code.declaredName? =
      (Code.Declaration.groups b.tables).flatten.map Code.Declaration.name := by
  rw [source, Code.lines_source (plain_tables h)]
  exact Code.declared_sourceLines fun c hc => (declared_of_mem h hc).blank_not_mem_name

/-- No two lines of the source declare the same name, unless a log has a constant that is called like
one of the values. Constants with the same name are the same, and their names are neither atoms of
variables nor shorthands. -/
theorem names_are_declared_once (h : ofLines ls = .ok b) :
    (((Text.lines b.source).filterMap Code.declaredName?).Nodup ↔ ∀ c ∈ b.tables.constants,
      c.word ∉ (["i32", "i32_zero", "i32_one", "i32_tmax", "i32_tmin"] : List Text)) ∧
      (∀ c ∈ b.tables.constants, ∀ d ∈ b.tables.constants, c.name = d.name → c = d) ∧
      ∀ c ∈ b.tables.constants, c.name ∉ Variable.all.map Variable.atom ∧
        c.name ∉ Shorthand.all.map Shorthand.atom := by
  have hdeclared := fun c (hc : c ∈ b.tables.constants) => declared_of_mem h hc
  refine ⟨?_, fun c hc d hd => (hdeclared c hc).eq_of_name_eq (hdeclared d hd), fun c hc =>
    ⟨(hdeclared c hc).name_not_variable, (hdeclared c hc).name_not_shorthand⟩⟩
  rw [declaredNames_source h, Code.nodup_names_iff]
  have hnames (c : Constant) (hc : c ∈ b.tables.constants) : c.name ∉ Code.fixedNames ↔
      c.word ∉ Code.Declaration.ofValues.map Code.Declaration.name := by
    -- Of the three kinds of fixed names only those of the values can be taken.
    simp [Code.fixedNames, ← (hdeclared c hc).name_mem_values_iff, (hdeclared c hc).name_not_variable,
      (hdeclared c hc).name_not_shorthand]
  rw [forall₂_congr hnames]
  exact and_iff_right (nodup_names h)

theorem constant_called_like_a_value_is_declared_twice :
    ∃ b₁ b₂,
      ofLines [
        "Leaves: 2, i: 0, Min::make(x0, i32_ones) -> Left-associativity with identity: \x7b 7 \x7d"] =
          .ok b₁ ∧
      ofLines [
        "Leaves: 2, i: 0, Min::make(x0, i32_one) -> Left-associativity with identity: \x7b 7 \x7d"] =
          .ok b₂ ∧
      ((Text.lines b₁.source).filterMap Code.declaredName?).Nodup ∧
      ¬ ((Text.lines b₂.source).filterMap Code.declaredName?).Nodup := by
  refine exists_builds (p := fun b₁ b₂ => b₁.tables.constants = [⟨"i32_ones", "i32_ones"⟩] ∧
      b₂.tables.constants = [⟨"i32_one", "i32_one"⟩])
    [⟨"Min::make(x0, i32_ones)", .left, .proven, "7"⟩] [⟨"Min::make(x0, i32_one)", .left, .proven, "7"⟩]
    (by decide +kernel) (by decide +kernel) (by decide +kernel) fun b₁ b₂ h₁ h₂ h => ?_
  obtain ⟨hones, hone⟩ := h
  rw [(names_are_declared_once h₁).1, (names_are_declared_once h₂).1, hones, hone]
  decide

end Build

end ReductionTables
