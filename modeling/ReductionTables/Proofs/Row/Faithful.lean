import Mathlib.Data.Set.Function
import ReductionTables.Proofs.Row.Atoms
import ReductionTables.Proofs.Verdict.Line

/-!
# Rows determine their facts

Writing an expression with atoms can be undone, and so can naming the literal of an identity. Two
verdicts of a log therefore have the same row only when they state the same oriented expression with
the same identity, and merging equal rows merges no two different facts.
-/

namespace ReductionTables

theorem withAtoms_injective : Function.Injective withAtoms :=
  Function.LeftInverse.injective withoutAtoms_withAtoms

/-! ## Identities -/

/-- The literal that a name of the generated tables stands for, else the text itself. -/
def literalOfName (name : Text) : Text := ((namedLiterals.map Prod.swap).lookup name).getD name

theorem literalOfName_identityName {i : Text} (hi : i ∉ namedLiterals.map Prod.snd) :
    literalOfName (identityName i) = i := by
  cases hlookup : namedLiterals.lookup i with
  | some name =>
    have hpair : (i, name) ∈ namedLiterals := by
      obtain ⟨l₁, l₂, hl, -⟩ := List.lookup_eq_some_iff.1 hlookup
      simp [hl]
    have hback : ∀ p ∈ namedLiterals, (namedLiterals.map Prod.swap).lookup p.2 = some p.1 := by
      decide
    have hname : identityName i = name := by rw [identityName, hlookup, Option.getD_some]
    rw [hname, literalOfName, hback (i, name) hpair, Option.getD_some]
  | none =>
    have hback : (namedLiterals.map Prod.swap).lookup i = none := by
      refine List.lookup_eq_none_iff.2 fun p hp => ?_
      obtain ⟨q, hq, rfl⟩ := List.mem_map.1 hp
      have hne : i ≠ q.2 := fun he => hi (he ▸ List.mem_map_of_mem hq)
      simpa using hne
    have hname : identityName i = i := by rw [identityName, hlookup, Option.getD_none]
    rw [hname, literalOfName, hback, Option.getD_none]

theorem Text.IsLiteral.not_mem_names {i : Text} (hi : Text.IsLiteral i) :
    i ∉ namedLiterals.map Prod.snd := by
  have hnames : ∀ n ∈ namedLiterals.map Prod.snd, 'i' ∈ n := by decide
  exact fun hmem => hi.not_mem (by decide) (by decide) (hnames i hmem)

theorem not_mem_identityName {i : Text} {c : Char} (hi : c ∉ i)
    (hnames : ∀ n ∈ namedLiterals.map Prod.snd, c ∉ n) : c ∉ identityName i := by
  cases hlookup : namedLiterals.lookup i with
  | none => rwa [identityName, hlookup]
  | some name =>
    obtain ⟨l₁, l₂, hl, -⟩ := List.lookup_eq_some_iff.1 hlookup
    rw [identityName, hlookup]
    exact hnames name (by simp [hl])

theorem identityName_injOn : Set.InjOn identityName {i | Text.IsLiteral i} := by
  intro i hi j hj h
  rw [← literalOfName_identityName (Text.IsLiteral.not_mem_names hi), h,
    literalOfName_identityName (Text.IsLiteral.not_mem_names hj)]

/-! ## Rows -/

theorem Verdict.oriented_eq_of_row_eq {v w : Verdict} (h : Row.ofVerdict v = Row.ofVerdict w) :
    v.oriented = w.oriented :=
  withAtoms_injective (Row.mk.inj h).1

theorem Row.ofVerdict_eq_iff {v w : Verdict} (hv : Text.IsLiteral v.identity)
    (hw : Text.IsLiteral w.identity) :
    Row.ofVerdict v = Row.ofVerdict w ↔ v.oriented = w.oriented ∧ v.identity = w.identity := by
  constructor
  · intro h
    obtain ⟨he, hi⟩ := Row.mk.inj h
    exact ⟨withAtoms_injective he, identityName_injOn hv hw hi⟩
  · rintro ⟨he, hi⟩
    rw [Row.ofVerdict, Row.ofVerdict, he, hi]

/-- Merging equal rows never merges two different facts: expressions and identities are written
injectively, so two verdicts of any log share a row only if they state the same fact. -/
theorem rows_determine_facts :
    Function.Injective withAtoms ∧
      Set.InjOn identityName {i | ∃ line v, Verdict.ofLine? line = some v ∧ v.identity = i} ∧
      ∀ line₁ line₂ v₁ v₂, Verdict.ofLine? line₁ = some v₁ → Verdict.ofLine? line₂ = some v₂ →
        (Row.ofVerdict v₁ = Row.ofVerdict v₂ ↔
          v₁.oriented = v₂.oriented ∧ v₁.identity = v₂.identity) := by
  refine ⟨withAtoms_injective, identityName_injOn.mono ?_, ?_⟩
  · rintro i ⟨line, v, hv, rfl⟩
    exact Verdict.isLiteral_identity hv
  · intro line₁ line₂ v₁ v₂ h₁ h₂
    exact Row.ofVerdict_eq_iff (Verdict.isLiteral_identity h₁) (Verdict.isLiteral_identity h₂)

theorem swapped_difference_is_one_fact :
    Verdict.ofLine?
        "Leaves: 2, i: 0, Sub::make(x0, y0) -> Right-associativity with identity: \x7b 0 \x7d".toList =
      some ⟨"Sub::make(x0, y0)", .right, .proven, "0"⟩ ∧
    Verdict.ofLine?
        "Leaves: 2, i: 3, Sub::make(y0, x0) -> UNKNOWN associative with left-identity: \x7b 0 \x7d".toList =
      some ⟨"Sub::make(y0, x0)", .left, .unknown, "0"⟩ ∧
    Row.ofVerdict ⟨"Sub::make(x0, y0)", .right, .proven, "0"⟩ =
      Row.ofVerdict ⟨"Sub::make(y0, x0)", .left, .unknown, "0"⟩ := by
  have hleft : Verdict.ofLine?
      "Leaves: 2, i: 0, Sub::make(x0, y0) -> Right-associativity with identity: \x7b 0 \x7d".toList =
        some ⟨"Sub::make(x0, y0)", .right, .proven, "0"⟩ := by decide +kernel
  have hright : Verdict.ofLine?
      "Leaves: 2, i: 3, Sub::make(y0, x0) -> UNKNOWN associative with left-identity: \x7b 0 \x7d".toList =
        some ⟨"Sub::make(y0, x0)", .left, .unknown, "0"⟩ := by decide +kernel
  exact ⟨hleft, hright, (rows_determine_facts.2.2 _ _ _ _ hleft hright).2 ⟨by decide, rfl⟩⟩

end ReductionTables
