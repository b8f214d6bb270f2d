import ReductionTables.Proofs.Build
import ReductionTables.Proofs.Code.Source
import ReductionTables.Proofs.Term.Recognition

/-!
# The source of a build tells its tables

The tables of a build come from parsed lines, so nothing in them can be taken for the code around it.
-/

namespace ReductionTables

/-! ## Texts of a log -/

theorem newline_not_mem_withAtoms {t : Text} (ht : '\n' ∉ t) : '\n' ∉ withAtoms t := by
  have hvariables : ∀ r ∈ Variable.rules, '\n' ∉ r.new := by decide
  have hshorthands : ∀ r ∈ Shorthand.rules, '\n' ∉ r.new := by decide
  exact Rule.not_mem_applyAll hshorthands (Rule.not_mem_applyAll hvariables ht)

theorem Verdict.newline_not_mem_oriented {v : Verdict} (hv : '\n' ∉ v.expression) :
    '\n' ∉ v.oriented := by
  have hexchange : ∀ r ∈ exchangeRules, '\n' ∉ r.new := by decide
  rw [oriented]
  split
  · exact Rule.not_mem_applyAll hexchange hv
  · exact hv
  · exact hv

theorem Row.plain_ofVerdict {line : Text} {v : Verdict} (h : Verdict.ofLine? line = some v) :
    (Row.ofVerdict v).Plain := by
  have hliteral := Verdict.isLiteral_identity h
  have hidentity : ∀ {c : Char}, ¬ Text.isDecimalDigit c → c ≠ '-' →
      (∀ n ∈ namedLiterals.map Prod.snd, c ∉ n) → c ∉ identityName v.identity :=
    fun hdigit hminus => not_mem_identityName (hliteral.not_mem hdigit hminus)
  have hexpression := newline_not_mem_withAtoms
    (v.newline_not_mem_oriented (v.newline_not_mem_expression h))
  rw [Row.ofVerdict]
  -- Unfolding what the substitutions of atoms do would take long and is not needed.
  generalize withAtoms v.oriented = expression at hexpression ⊢
  exact ⟨hexpression, hidentity (by decide) (by decide) (by decide),
    hidentity (by decide) (by decide) (by decide), hidentity (by decide) (by decide) (by decide)⟩

theorem Constant.plain_ofWord {w : Text} (hw : (Term.leaf w).WellFormed) :
    (Constant.ofWord w).Plain := by
  have hnot : ∀ {c : Char}, ¬ isNameCharacter c → c ∉ w := fun hc hmem => hc (hw.2.1 _ hmem)
  have hnewline : '\n' ∉ w := hnot (by decide)
  have hname := newline_not_mem_withAtoms hnewline
  rw [Constant.ofWord]
  generalize withAtoms w = name at hname ⊢
  exact ⟨hname, hnewline, hnot (by decide)⟩

theorem Expression.wellFormed_of_mem_constants {t w : Text} {e : Expression}
    (he : ofText t = .ok e) (hw : w ∈ e.constants) : (Term.leaf w).WellFormed := by
  obtain ⟨ht, -⟩ := Term.ofText_eq_ok_iff.1 (ofText_eq_ok.1 he).2
  exact Term.wellFormed_of_mem_leaves e.term ht (mem_constants_iff.1 hw).1

namespace Build

variable {ls ls₁ ls₂ : List Text} {b b₁ b₂ : Build}

/-- The word of the log that a constant of the tables was made from. -/
theorem exists_word (h : ofLines ls = .ok b) {c : Constant} (hc : c ∈ b.tables.constants) :
    ∃ w, (Term.leaf w).WellFormed ∧ isConstantName w ∧ Constant.ofWord w = c := by
  obtain ⟨r, hr, hcr⟩ := Tables.mem_constants_ofRanking.1 hc
  obtain ⟨e, he, -, -, hconstants, -⟩ := Entry.rankedRow_eq_ok (rankedRow_of_mem h hr)
  rw [hconstants] at hcr
  obtain ⟨w, hw, rfl⟩ := List.mem_map.1 hcr
  exact ⟨w, Expression.wellFormed_of_mem_constants he hw, (Expression.mem_constants_iff.1 hw).2, rfl⟩

theorem plain_tables (h : ofLines ls = .ok b) : b.tables.Plain where
  rows s r hr := by
    obtain ⟨v, hv, rfl⟩ := exists_verdict h hr
    obtain ⟨line, -, hline⟩ := List.mem_filterMap.1 hv
    exact Row.plain_ofVerdict hline
  constants c hc := by
    obtain ⟨w, hw, -, rfl⟩ := exists_word h hc
    exact Constant.plain_ofWord hw

/-- The source of a log loses none of its tables: two logs have the same source exactly when they have
the same constants and, in the same order, the same rows up to the spelling of literals. -/
theorem source_determines_tables (h₁ : ofLines ls₁ = .ok b₁) (h₂ : ofLines ls₂ = .ok b₂) :
    b₁.source = b₂.source ↔ b₁.tables.Alike b₂.tables :=
  Code.source_eq_iff (plain_tables h₁) (plain_tables h₂)

theorem leading_zero_is_not_in_the_source :
    ∃ b₁ b₂,
      ofLines [
        "Leaves: 2, i: 0, Min::make(x0, k) -> Left-associativity with identity: \x7b 7 \x7d"] = .ok b₁ ∧
      ofLines [
        "Leaves: 2, i: 0, Min::make(x0, k) -> Left-associativity with identity: \x7b 07 \x7d"] = .ok b₂ ∧
      b₁.tables.rows ⟨.min, .single⟩ = [⟨"Min::make(i32_x0, k)", "7"⟩] ∧
      b₂.tables.rows ⟨.min, .single⟩ = [⟨"Min::make(i32_x0, k)", "07"⟩] ∧
      b₁.source = b₂.source := by
  refine exists_builds (p := fun b₁ b₂ => b₁.tables.Alike b₂.tables ∧
      b₁.tables.rows ⟨.min, .single⟩ = [⟨"Min::make(i32_x0, k)", "7"⟩] ∧
      b₂.tables.rows ⟨.min, .single⟩ = [⟨"Min::make(i32_x0, k)", "07"⟩])
    [⟨"Min::make(x0, k)", .left, .proven, "7"⟩] [⟨"Min::make(x0, k)", .left, .proven, "07"⟩]
    (by decide +kernel) (by decide +kernel) (by decide +kernel) fun b₁ b₂ h₁ h₂ h => ?_
  obtain ⟨halike, hrows₁, hrows₂⟩ := h
  exact ⟨hrows₁, hrows₂, (source_determines_tables h₁ h₂).2 halike⟩

end Build

end ReductionTables
