import ReductionTables.Proofs.Build.Failure

/-!
# The vocabulary of tables

Tables can be built from a log exactly when all its expressions are calls, and every constructor in
them, however deep, has the name of an operator at its beginning. What follows that name is free: it
is printed as it stands and chooses nothing.
-/

namespace ReductionTables

/-- A constructor belongs to an operator exactly when its name begins with the name of one. -/
theorem Operator.isSome_ofName?_iff {n : Text} :
    (ofName? n).isSome ↔ ∃ o : Operator, o.name <+: n := by
  rw [ofName?, List.find?_isSome]
  simp only [List.isPrefixOf_iff_prefix, mem_all, true_and]

namespace Expression

variable {e : Expression} {t : Text}

theorem exists_operatorNamed_iff {n : Text} :
    (∃ o, e.operatorNamed n = .ok o) ↔ ∃ o : Operator, o.name <+: n := by
  rw [← Operator.isSome_ofName?_iff, operatorNamed]
  cases Operator.ofName? n with
  | none => simp
  | some o => simp

theorem exists_operators_iff :
    (∃ os, e.operators = .ok os) ↔ ∀ n ∈ e.term.heads, ∃ o : Operator, o.name <+: n := by
  rw [operators, exists_mapM_iff]
  simp only [exists_operatorNamed_iff]

/-- What can be placed is a call over constructors that belong to operators. -/
theorem check_eq_ok_iff : check t = .ok () ↔
    ∃ n ts, Term.ofText t = .ok (.call n ts) ∧
      ∀ m ∈ (Term.call n ts).heads, ∃ o : Operator, o.name <+: m := by
  constructor
  · intro h
    obtain ⟨e, he, h⟩ := bind_eq_ok.1 h
    obtain ⟨o, ho, h⟩ := bind_eq_ok.1 h
    obtain ⟨os, hos, -⟩ := bind_eq_ok.1 h
    have hterm := (ofText_eq_ok.1 he).2
    have hheads := exists_operators_iff.1 ⟨os, hos⟩
    cases hcall : e.term with
    | leaf w =>
      rw [root, hcall] at ho
      cases ho
    | call n ts =>
      rw [hcall] at hterm hheads
      exact ⟨n, ts, hterm, hheads⟩
  · rintro ⟨n, ts, hterm, hheads⟩
    have he : ofText t = .ok ⟨t, .call n ts⟩ := ofText_eq_ok.2 ⟨rfl, hterm⟩
    obtain ⟨o, ho⟩ :=
      exists_operatorNamed_iff (e := ⟨t, .call n ts⟩) |>.2 (hheads n List.mem_cons_self)
    obtain ⟨os, hos⟩ := exists_operators_iff (e := ⟨t, .call n ts⟩) |>.2 hheads
    exact bind_eq_ok.2 ⟨_, he, bind_eq_ok.2 ⟨o, ho, bind_eq_ok.2 ⟨os, hos, rfl⟩⟩⟩

end Expression

namespace Build

variable {ls : List Text}

theorem exists_ofLines_iff : (∃ b, ofLines ls = .ok b) ↔
    ∀ l ∈ ls, ∀ v, Verdict.ofLine? l = some v → Expression.check v.oriented = .ok () := by
  constructor
  · rintro ⟨b, hb⟩ l hl v hv
    exact check_eq_ok_of_ofLines hb hl hv
  · intro h
    cases hbuild : ofLines ls with
    | ok b => exact ⟨b, rfl⟩
    | error f =>
      obtain ⟨before, l, after, v, rfl, hl, hf, -⟩ := ofLines_eq_error_iff.1 hbuild
      rw [h l (by simp) v hl] at hf
      cases hf

/-- One constructor that belongs to no operator refuses the whole log, wherever it stands, so no row
is of such an expression. -/
theorem foreign_constructors_reach_no_table (ls : List Text) :
    (∀ l ∈ ls, ∀ v, Verdict.ofLine? l = some v → ∀ t, Term.ofText v.oriented = .ok t →
      ∀ n ∈ t.heads, (∀ o : Operator, ¬ o.name <+: n) → ∃ f, ofLines ls = .error f) ∧
      ∀ b, ofLines ls = .ok b → ∀ s, ∀ row ∈ b.tables.rows s,
        (∃ l ∈ ls, ∃ v, Verdict.ofLine? l = some v ∧ Row.ofVerdict v = row) ∧
          ∀ l ∈ ls, ∀ v, Verdict.ofLine? l = some v → Row.ofVerdict v = row →
            ∃ t, Term.ofText v.oriented = .ok t ∧
              ∀ n ∈ t.heads, ∃ o : Operator, o.name <+: n := by
  have hplaced {b : Build} (hb : ofLines ls = .ok b) {l : Text} (hl : l ∈ ls) {v : Verdict}
      (hv : Verdict.ofLine? l = some v) :
      ∃ t, Term.ofText v.oriented = .ok t ∧ ∀ n ∈ t.heads, ∃ o : Operator, o.name <+: n := by
    obtain ⟨n, ts, hterm, hheads⟩ :=
      Expression.check_eq_ok_iff.1 (exists_ofLines_iff.1 ⟨b, hb⟩ l hl v hv)
    exact ⟨_, hterm, hheads⟩
  refine ⟨fun l hl v hv t ht n hn hforeign => ?_, fun b hb s row hrow => ⟨?_, ?_⟩⟩
  · cases hbuild : ofLines ls with
    | error f => exact ⟨f, rfl⟩
    | ok b =>
      obtain ⟨t', ht', hheads⟩ := hplaced hbuild hl hv
      obtain rfl := Except.ok.inj (ht.symm.trans ht')
      obtain ⟨o, ho⟩ := hheads n hn
      exact absurd ho (hforeign o)
  · obtain ⟨v, hv, hrow'⟩ := exists_verdict hb hrow
    obtain ⟨l, hl, hline⟩ := List.mem_filterMap.1 hv
    exact ⟨l, hl, v, hline, hrow'⟩
  · exact fun l hl v hv _ => hplaced hb hl hv

theorem inner_quotient_is_refused :
    ∃ f, ofLines [
        "Leaves: 2, i: 0, Min::make(x0, y0) -> Left-associativity with identity: \x7b 7 \x7d",
        "Leaves: 3, i: 1, Min::make(x0, Div::make(y0, k)) -> Left-associativity with identity: \x7b 7 \x7d"] =
      .error f := by
  have hdiv : Verdict.ofLine?
      "Leaves: 3, i: 1, Min::make(x0, Div::make(y0, k)) -> Left-associativity with identity: \x7b 7 \x7d".toList =
        some ⟨"Min::make(x0, Div::make(y0, k))", .left, .proven, "7"⟩ := by decide +kernel
  have hforeign (o : Operator) : ¬ o.name <+: "Div".toList := by cases o <;> decide
  exact (foreign_constructors_reach_no_table _).1 _ (List.mem_of_getElem? (i := 1) rfl) _ hdiv
    (.call "Min" [.leaf "x0", .call "Div" [.leaf "y0", .leaf "k"]]) rfl "Div" (by decide) hforeign

/-- A name that only begins with that of an operator is none of theirs, but it reaches a table. -/
theorem longer_constructor_is_listed :
    ∃ b, ofLines [
        "Leaves: 2, i: 0, Addx::make(x0, y0) -> Left-associativity with identity: \x7b 0 \x7d"] = .ok b ∧
      ∃ v t, Verdict.ofLine?
          "Leaves: 2, i: 0, Addx::make(x0, y0) -> Left-associativity with identity: \x7b 0 \x7d".toList =
            some v ∧
        Term.ofText v.oriented = .ok t ∧ "Addx".toList ∈ t.heads ∧
        "Addx".toList ∉ Operator.all.map Operator.name ∧
        Row.ofVerdict v ∈ b.tables.rows ⟨.add, .single⟩ := by
  have hline : Verdict.ofLine?
      "Leaves: 2, i: 0, Addx::make(x0, y0) -> Left-associativity with identity: \x7b 0 \x7d".toList =
        some ⟨"Addx::make(x0, y0)", .left, .proven, "0"⟩ := by decide +kernel
  have hbuild : ∃ b ∈ (ofVerdicts [⟨"Addx::make(x0, y0)", .left, .proven, "0"⟩]).toOption,
      Row.ofVerdict ⟨"Addx::make(x0, y0)", .left, .proven, "0"⟩ ∈
        b.tables.rows ⟨.add, .single⟩ := by
    decide +kernel
  obtain ⟨b, hb, hrow⟩ := hbuild
  have hlines : List.filterMap Verdict.ofLine? [
      "Leaves: 2, i: 0, Addx::make(x0, y0) -> Left-associativity with identity: \x7b 0 \x7d"] =
        [⟨"Addx::make(x0, y0)", .left, .proven, "0"⟩] := by
    rw [List.filterMap_cons_some hline, List.filterMap_nil]
  exact ⟨b, (ofLines_eq hlines).trans (eq_ok_of_mem_toOption hb), _,
    .call "Addx" [.leaf "x0", .leaf "y0"], hline, rfl, by decide, by decide, hrow⟩

end Build

end ReductionTables
