import ReductionTables.Proofs.Build
import ReductionTables.Proofs.Row.Names
import ReductionTables.Proofs.Verdict.Exchange

/-!
# Names in tables

The rows of a build and its constants are named by two substitutions, one into whole expressions and
one into single words. They agree: rows name nothing that is not an atom, a literal or one of the
constants, and every constant is named by some row.
-/

namespace ReductionTables

/-! ## Oriented expressions -/

/-- An expression over the operators is still one when it is read from the left. -/
theorem Verdict.heads_oriented {v : Verdict} {t : Term}
    (hv : ∀ t, Term.ofText v.expression = .ok t → ∀ n ∈ t.heads, n ∈ Operator.all.map Operator.name)
    (h : Term.ofText v.oriented = .ok t) (hoperators : ∀ n ∈ t.heads, (Operator.ofName? n).isSome) :
    ∀ n ∈ t.heads, n ∈ Operator.all.map Operator.name := by
  unfold oriented at h
  split at h
  · obtain ⟨s, hs, rfl⟩ := wordwise_exchange.exists_of_ofText h hoperators
    intro n hn
    rw [Term.heads_mapWords] at hn
    obtain ⟨m, hm, rfl⟩ := List.mem_map.1 hn
    obtain ⟨o, ho, rfl⟩ := List.mem_map.1 (hv s hs m hm)
    rw [Operator.exchange_name o ho]
    exact List.mem_map_of_mem ho
  · exact hv t h
  · exact hv t h

/-! ## What a ranked row was read from -/

namespace Expression

variable {e : Expression} {os : List Operator}

theorem isSome_ofName?_of_operators (h : e.operators = .ok os) :
    ∀ n ∈ e.term.heads, (Operator.ofName? n).isSome := by
  intro n hn
  obtain ⟨o, ho⟩ := exists_mapM_iff.1 ⟨os, h⟩ n hn
  rw [operatorNamed] at ho
  split at ho
  · rename_i hname
    rw [hname]
    rfl
  · cases ho

end Expression

namespace Build

variable {ls : List Text} {b : Build} {r : RankedRow}

/-- The expression that a row was made from, with the term that the row is read as. -/
theorem exists_terms (h : ofLines ls = .ok b)
    (hheads : ∀ l ∈ ls, ∀ v, Verdict.ofLine? l = some v → ∀ t, Term.ofText v.expression = .ok t →
      ∀ n ∈ t.heads, n ∈ Operator.all.map Operator.name) (hr : r ∈ b.ranked) :
    ∃ t u : Term, t.WellFormed ∧ Term.ofText r.row.expression = .ok u ∧ t.WrittenAs u ∧
      ∀ c, c ∈ r.constants ↔ ∃ k ∈ t.leaves, isConstantName k ∧ Constant.ofWord k = c := by
  have hranked := rankedRow_of_mem h hr
  obtain ⟨v, hv, hrow⟩ := exists_verdict h (Tables.mem_rows_ofRanking.2 ⟨r, hr, rfl, rfl⟩)
  obtain ⟨l, hl, hline⟩ := List.mem_filterMap.1 hv
  rw [← hrow, Row.entry_ofVerdict] at hranked
  obtain ⟨e, he, -, hoperators, hconstants, -⟩ := Entry.rankedRow_eq_ok hranked
  have hterm := (Expression.ofText_eq_ok.1 he).2
  obtain ⟨u, hu, hwritten⟩ := Term.exists_writtenAs hterm <|
    Verdict.heads_oriented (hheads l hl v hline) hterm
      (Expression.isSome_ofName?_of_operators hoperators)
  refine ⟨e.term, u, (Term.ofText_eq_ok_iff.1 hterm).1, ?_, hwritten, fun c => ?_⟩
  · rw [← hrow, Row.ofVerdict, hu]
  · simp only [hconstants, List.mem_map, Expression.mem_constants_iff, and_assoc]

/-- When the log's expressions are over the operators, every leaf of a row is an atom of a variable, a
shorthand, an integer or the name of a constant of the tables, and each of these constants is a leaf
of some row. -/
theorem rows_name_what_is_declared (h : ofLines ls = .ok b)
    (hheads : ∀ l ∈ ls, ∀ v, Verdict.ofLine? l = some v → ∀ t, Term.ofText v.expression = .ok t →
      ∀ n ∈ t.heads, n ∈ Operator.all.map Operator.name) :
    (∀ s, ∀ row ∈ b.tables.rows s, ∃ u, Term.ofText row.expression = .ok u ∧ ∀ w ∈ u.leaves,
      w ∈ Variable.all.map Variable.atom ∨ w ∈ Shorthand.all.map Shorthand.atom ∨
        (Text.signed64? w).isSome ∨ w ∈ b.tables.constants.map Constant.name) ∧
      ∀ c ∈ b.tables.constants, ∃ s, ∃ row ∈ b.tables.rows s, ∃ u,
        Term.ofText row.expression = .ok u ∧ c.name ∈ u.leaves := by
  refine ⟨fun s row hrow => ?_, fun c hc => ?_⟩
  · obtain ⟨r, hr, -, rfl⟩ := Tables.mem_rows_ofRanking.1 hrow
    obtain ⟨t, u, ht, hu, hwritten, hconstants⟩ := exists_terms h hheads hr
    refine ⟨u, hu, fun w hw => ?_⟩
    rcases hwritten.names ht hw with hvariable | hshort | hliteral | ⟨k, hk, hconstant, rfl⟩
    · exact Or.inl hvariable
    · exact Or.inr (Or.inl hshort)
    · exact Or.inr (Or.inr (Or.inl hliteral))
    · have hmem : Constant.ofWord k ∈ b.tables.constants :=
        Tables.mem_constants_ofRanking.2 ⟨r, hr, (hconstants _).2 ⟨k, hk, hconstant, rfl⟩⟩
      exact Or.inr (Or.inr (Or.inr (List.mem_map_of_mem hmem)))
  · obtain ⟨r, hr, hcr⟩ := Tables.mem_constants_ofRanking.1 hc
    obtain ⟨t, u, ht, hu, hwritten, hconstants⟩ := exists_terms h hheads hr
    obtain ⟨k, hk, hconstant, rfl⟩ := (hconstants c).1 hcr
    exact ⟨⟨r.root, .single⟩, r.row, Tables.mem_rows_ofRanking.2 ⟨r, hr, rfl, rfl⟩, u, hu,
      hwritten.mem_of_constant ht hk hconstant⟩

theorem constant_of_a_turned_maximum_is_named :
    ∃ b, ofLines [
        "Leaves: 4, i: 2, Max::make(Mul::make(y0, x0), Add::make(ky0, -3)) -> Right-associativity with identity: \x7b 1 \x7d"] =
          .ok b ∧
      ⟨"ki32_x0", "kx0"⟩ ∈ b.tables.constants ∧
      ∃ s, ∃ row ∈ b.tables.rows s, ∃ u, Term.ofText row.expression = .ok u ∧
        "ki32_x0".toList ∈ u.leaves := by
  have hlines : List.filterMap Verdict.ofLine? [
      "Leaves: 4, i: 2, Max::make(Mul::make(y0, x0), Add::make(ky0, -3)) -> Right-associativity with identity: \x7b 1 \x7d"] =
        [⟨"Max::make(Mul::make(y0, x0), Add::make(ky0, -3))", .right, .proven, "1"⟩] := by
    decide +kernel
  have hbuild : ∃ b ∈ (ofVerdicts
      [⟨"Max::make(Mul::make(y0, x0), Add::make(ky0, -3))", .right, .proven, "1"⟩]).toOption,
        ⟨"ki32_x0", "kx0"⟩ ∈ b.tables.constants := by
    decide +kernel
  have hterm : Term.ofText "Max::make(Mul::make(y0, x0), Add::make(ky0, -3))" =
      .ok (.call "Max" [.call "Mul" [.leaf "y0", .leaf "x0"], .call "Add" [.leaf "ky0", .leaf "-3"]]) :=
    rfl
  obtain ⟨b, hb, hconstant⟩ := hbuild
  have h := (ofLines_eq hlines).trans (eq_ok_of_mem_toOption hb)
  refine ⟨b, h, hconstant, (rows_name_what_is_declared h fun l hl v hv t ht => ?_).2 _ hconstant⟩
  have hmem := List.mem_filterMap.2 ⟨l, hl, hv⟩
  rw [hlines] at hmem
  obtain rfl := List.mem_singleton.1 hmem
  obtain rfl := Except.ok.inj (hterm.symm.trans ht)
  decide

end Build

end ReductionTables
