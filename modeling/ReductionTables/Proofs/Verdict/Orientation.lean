import ReductionTables.Proofs.Ranking
import ReductionTables.Proofs.Row.Names
import ReductionTables.Proofs.Term.Leaves
import ReductionTables.Proofs.Verdict.Exchange

/-!
# What orientation does to constants

An expression over the operators stays one when it is read from the left, with the same constructors.
Its leaves are exchanged, and the exchange finds the variables' names in the names of constants as
well: such a constant is renamed, and `_x0` even becomes a variable.
-/

namespace ReductionTables

variable {w : Text}

/-! ## Literals and variables -/

theorem letter_not_mem_of_signed64? {c : Char} (hw : (Text.signed64? w).isSome)
    (hdigit : ¬ c.isDigit) (hsign : ¬ (c = '-' ∨ c = '+')) : c ∉ w := fun hc =>
  (Text.mem_of_signed64? hw c hc).elim hdigit hsign

theorem exchange_eq_self_of_signed64? (hw : (Text.signed64? w).isSome) : exchange w = w := by
  have hx : 'x' ∉ w := letter_not_mem_of_signed64? hw (by decide) (by decide)
  have hy : 'y' ∉ w := letter_not_mem_of_signed64? hw (by decide) (by decide)
  exact exchange_eq_self_iff.2
    ⟨fun hocc => hx (hocc.subset (by decide)), fun hocc => hy (hocc.subset (by decide))⟩

theorem signed64?_exchange_isSome_iff :
    (Text.signed64? (exchange w)).isSome ↔ (Text.signed64? w).isSome := by
  refine ⟨fun h => ?_, fun h => by rwa [exchange_eq_self_of_signed64? h]⟩
  have hx : 'x' ∉ exchange w := letter_not_mem_of_signed64? h (by decide) (by decide)
  have hy : 'y' ∉ exchange w := letter_not_mem_of_signed64? h (by decide) (by decide)
  rwa [exchange_eq_of_untouched hx hy] at h

theorem exchangeName_of_not_mem (h : w ∉ Variable.all.map Variable.name) : exchangeName w = w := by
  have hname (v : Variable) : w ≠ v.name := by
    rintro rfl
    exact h (List.mem_map_of_mem v.mem_all)
  rw [exchangeName, if_neg (hname .x0), if_neg (hname .y0)]

/-! ## Constants -/

theorem isConstantName_exchange : isConstantName (exchange w) ↔ isConstantName w ∧ w ≠ "_x0" := by
  rw [isConstantName_iff, isConstantName_iff, exchange_mem_variables_iff, not_or,
    signed64?_exchange_isSome_iff, and_right_comm]

/-- Only constants can be taken for something else by the exchange. -/
theorem exchange_eq_exchangeName_iff : exchange w = exchangeName w ↔
    (isConstantName w → ¬ "x0".toList <:+: w ∧ ¬ "y0".toList <:+: w) := by
  by_cases hvariable : w ∈ Variable.all.map Variable.name
  · have hall : ∀ w ∈ Variable.all.map Variable.name, exchange w = exchangeName w := by decide
    exact iff_of_true (hall w hvariable) fun h => absurd hvariable (isConstantName_iff.1 h).1
  · rw [exchangeName_of_not_mem hvariable]
    by_cases hliteral : (Text.signed64? w).isSome
    · exact iff_of_true (exchange_eq_self_of_signed64? hliteral) fun h =>
        absurd hliteral (isConstantName_iff.1 h).2
    · rw [exchange_eq_self_iff, imp_iff_right (isConstantName_iff.2 ⟨hvariable, hliteral⟩)]

theorem filter_map_exchangeName (ws : List Text) :
    (ws.map exchangeName).filter isConstantName = ws.filter isConstantName := by
  induction ws with
  | nil => rfl
  | cons w ws ih =>
    by_cases hvariable : w ∈ Variable.all.map Variable.name
    · have hall : ∀ w ∈ Variable.all.map Variable.name,
          ¬ isConstantName w ∧ ¬ isConstantName (exchangeName w) := by decide
      obtain ⟨hw, hw'⟩ := hall w hvariable
      rw [List.map_cons, List.filter_cons_of_neg hw', List.filter_cons_of_neg hw, ih]
    · rw [List.map_cons, exchangeName_of_not_mem hvariable, List.filter_cons, List.filter_cons, ih]

/-! ## Oriented expressions -/

namespace Expression

variable {e : Expression}

/-- The expression with its leaves exchanged. -/
def exchanged (e : Expression) : Expression := ⟨exchange e.text, e.term.mapLeaves exchange⟩

theorem ofText_exchanged_of_kept (he : ofText e.text = .ok e)
    (hkept : ∀ n ∈ e.term.heads, exchange (n ++ constructorMark) = n ++ constructorMark) :
    ofText (exchange e.text) = .ok e.exchanged := by
  refine ofText_eq_ok.2 ⟨rfl, ?_⟩
  exact wordwise_exchange.ofText_mapLeaves (fun _ => colon_not_mem_exchange) (ofText_eq_ok.1 he).2 hkept

theorem ofText_exchanged (he : ofText e.text = .ok e)
    (hheads : ∀ n ∈ e.term.heads, n ∈ Operator.all.map Operator.name) :
    ofText (exchange e.text) = .ok e.exchanged := by
  have hkept : ∀ n ∈ Operator.all.map Operator.name,
      exchange (n ++ constructorMark) = n ++ constructorMark := by decide
  exact ofText_exchanged_of_kept he fun n hn => hkept n (hheads n hn)

theorem mem_constants_exchanged {c : Text} :
    c ∈ e.exchanged.constants ↔ ∃ k ∈ e.constants, k ≠ "_x0" ∧ exchange k = c := by
  simp only [mem_constants_iff, exchanged, Term.leaves_mapLeaves, List.mem_map]
  constructor
  · rintro ⟨⟨k, hk, rfl⟩, hc⟩
    obtain ⟨hconstant, hne⟩ := isConstantName_exchange.1 hc
    exact ⟨k, ⟨hk, hconstant⟩, hne, rfl⟩
  · rintro ⟨k, ⟨hk, hconstant⟩, hne, rfl⟩
    exact ⟨⟨k, hk, rfl⟩, isConstantName_exchange.2 ⟨hconstant, hne⟩⟩

theorem term_exchanged_eq_iff : e.exchanged.term = e.term.mapLeaves exchangeName ↔
    ∀ k ∈ e.constants, ¬ "x0".toList <:+: k ∧ ¬ "y0".toList <:+: k := by
  rw [exchanged, Term.mapLeaves_eq_iff]
  simp only [exchange_eq_exchangeName_iff, mem_constants_iff, and_imp]

theorem constants_exchanged_of_plain
    (h : ∀ k ∈ e.constants, ¬ "x0".toList <:+: k ∧ ¬ "y0".toList <:+: k) :
    e.exchanged.constants = e.constants := by
  rw [constants, term_exchanged_eq_iff.2 h, Term.leaves_mapLeaves, filter_map_exchangeName, constants]

end Expression

namespace Verdict

/-- An expression over the operators still is one when it is oriented, and only its leaves may have
changed. What is stated from the right has all leaves exchanged: constants are renamed where they name
one of the two variables, and only those, and `_x0` is one no longer. -/
theorem orientation_changes_leaves_only {v : Verdict} {e : Expression}
    (he : Expression.ofText v.expression = .ok e)
    (hheads : ∀ n ∈ e.term.heads, n ∈ Operator.all.map Operator.name) :
    ∃ e', Expression.ofText v.oriented = .ok e' ∧
      (v.direction ≠ .right → e' = e) ∧
      (v.direction = .right →
        e'.term = e.term.mapLeaves exchange ∧
        (∀ c, c ∈ e'.constants ↔ ∃ k ∈ e.constants, k ≠ "_x0" ∧ exchange k = c) ∧
        (e'.term = e.term.mapLeaves exchangeName ↔
          ∀ k ∈ e.constants, ¬ "x0".toList <:+: k ∧ ¬ "y0".toList <:+: k)) ∧
      ((∀ k ∈ e.constants, ¬ "x0".toList <:+: k ∧ ¬ "y0".toList <:+: k) →
        e'.constants = e.constants) := by
  by_cases hright : v.direction = .right
  · have htext : e.text = v.expression := (Expression.ofText_eq_ok.1 he).1
    have horiented : v.oriented = exchange e.text := by rw [oriented, hright, htext]
    refine ⟨e.exchanged, ?_, fun hne => absurd hright hne, fun _ => ⟨rfl, fun c => ?_, ?_⟩, ?_⟩
    · rw [horiented]
      exact Expression.ofText_exchanged (htext ▸ he) hheads
    · exact Expression.mem_constants_exchanged
    · exact Expression.term_exchanged_eq_iff
    · exact Expression.constants_exchanged_of_plain
  · have horiented : v.oriented = v.expression := by
      rw [oriented]
      split
      · exact absurd ‹_› hright
      · rfl
      · rfl
    exact ⟨e, horiented ▸ he, fun _ => rfl, fun h => absurd h hright, fun _ => rfl⟩

theorem plain_constant_is_kept :
    ∃ e', Expression.ofText
        (Verdict.oriented ⟨"Max::make(x0, Add::make(y0, k0))", .right, .proven, "0"⟩) = .ok e' ∧
      e'.constants = ["k0".toList] := by
  obtain ⟨e', he', -, -, hconstants⟩ := orientation_changes_leaves_only
    (v := ⟨"Max::make(x0, Add::make(y0, k0))", .right, .proven, "0"⟩)
    (e := ⟨"Max::make(x0, Add::make(y0, k0))",
      .call "Max" [.leaf "x0", .call "Add" [.leaf "y0", .leaf "k0"]]⟩) rfl (by decide)
  exact ⟨e', he', hconstants (by decide)⟩

/-- Of two constants that are named after the first variable, one gets another name and the other one
is no constant any more. -/
theorem constant_is_renamed_and_constant_is_lost :
    ∃ e e', Expression.ofText "Add::make(Max::make(x0, kx0), _x0)" = .ok e ∧
      Expression.ofText
        (Verdict.oriented ⟨"Add::make(Max::make(x0, kx0), _x0)", .right, .proven, "0"⟩) = .ok e' ∧
      e.constants = ["kx0".toList, "_x0".toList] ∧ e'.constants = ["ky0".toList] := by
  refine ⟨⟨"Add::make(Max::make(x0, kx0), _x0)",
      .call "Add" [.call "Max" [.leaf "x0", .leaf "kx0"], .leaf "_x0"]⟩,
    ⟨"Add::make(Max::make(y0, ky0), x0)",
      .call "Add" [.call "Max" [.leaf "y0", .leaf "ky0"], .leaf "x0"]⟩, rfl, rfl, ?_, ?_⟩
  · decide
  · decide

end Verdict

end ReductionTables
