import ReductionTables.Proofs.Build
import ReductionTables.Proofs.Ranking.Insertion

/-!
# Which line makes a log fail

An expression is refused when it is no term, then for its root, then for any other constructor. One
line with such an expression is enough to refuse the whole log, and the first one is quoted.
-/

namespace ReductionTables

/-- Refuses the text of an expression that no row can be placed by. -/
def Expression.check (t : Text) : Except Failure Unit := do
  let e ← ofText t
  let _ ← e.root
  let _ ← e.operators

/-- The expression that a failure quotes. -/
def Failure.expression? : Failure → Option Text
  | inaccessible _ _ => none
  | malformed e _ => some e
  | unknownOperator _ e => some e
  | noRootOperator e => some e

theorem Failure.expression_infix_message {f : Failure} {t : Text} (h : f.expression? = some t) :
    t <:+: f.message := by
  cases f with
  | inaccessible _ _ => cases h
  | malformed e _ =>
    obtain rfl := Option.some.inj h
    exact (List.infix_append _ e _).trans (List.prefix_append _ _).isInfix
  | unknownOperator _ e =>
    obtain rfl := Option.some.inj h
    exact List.infix_append _ e _
  | noRootOperator e =>
    obtain rfl := Option.some.inj h
    exact List.infix_append _ e _

namespace Expression

variable {t : Text} {e : Expression} {f : Failure}

theorem expression?_of_ofText (h : ofText t = .error f) : f.expression? = some t := by
  rw [ofText] at h
  split at h
  · cases h
  · cases h
    rfl

theorem expression?_of_operatorNamed {name : Text} (h : e.operatorNamed name = .error f) :
    f.expression? = some e.text := by
  rw [operatorNamed] at h
  split at h
  · cases h
  · cases h
    rfl

theorem expression?_of_root (h : e.root = .error f) : f.expression? = some e.text := by
  rw [root] at h
  split at h
  · exact expression?_of_operatorNamed h
  · cases h
    rfl

theorem expression?_of_operators (h : e.operators = .error f) : f.expression? = some e.text := by
  obtain ⟨-, name, -, -, hname, -⟩ := mapM_eq_error_iff.1 h
  exact expression?_of_operatorNamed hname

/-- What is refused is quoted. -/
theorem expression?_of_check (h : check t = .error f) : f.expression? = some t := by
  rcases bind_eq_error.1 h with h | ⟨e, he, h⟩
  · exact expression?_of_ofText h
  · rw [← (ofText_eq_ok.1 he).1]
    rcases bind_eq_error.1 h with h | ⟨-, -, h⟩
    · exact expression?_of_root h
    · rcases bind_eq_error.1 h with h | ⟨-, -, h⟩
      · exact expression?_of_operators h
      · cases h

end Expression

/-- Ranking a fact is refused for its expression only. -/
theorem Verdict.check_oriented (v : Verdict) :
    Expression.check v.oriented = v.rankedRow.map fun _ => () := by
  rw [rankedRow, Entry.rankedRow, Expression.check]
  cases Expression.ofText v.oriented with
  | error f => rfl
  | ok e =>
    cases hroot : e.root with
    | error f => simp only [bind, Except.bind, hroot, Except.map]
    | ok o =>
      cases hoperators : e.operators with
      | error f => simp only [bind, Except.bind, hroot, hoperators, Except.map]
      | ok os => simp only [bind, Except.bind, pure, Except.pure, hroot, hoperators, Except.map]

theorem Verdict.check_eq_ok_iff (v : Verdict) :
    Expression.check v.oriented = .ok () ↔ ∃ r, v.rankedRow = .ok r := by
  simp only [check_oriented, map_eq_ok, and_true]

theorem Verdict.check_eq_error_iff (v : Verdict) {f : Failure} :
    Expression.check v.oriented = .error f ↔ v.rankedRow = .error f := by
  rw [check_oriented, map_eq_error]

namespace Build

variable {ls : List Text} {f : Failure}

theorem ofLines_eq_error : ofLines ls = .error f ↔
    (ls.filterMap Verdict.ofLine?).mapM Verdict.rankedRow = .error f := by
  rw [ofLines, map_eq_error, Catalog.ranking, map_eq_error, Catalog.ofLines, Catalog.insertLines,
    Catalog.rankedRows_insertMany_eq_error Catalog.collects_empty]
  constructor
  · rintro (h | ⟨rows, -, h⟩)
    · cases h
    · exact h
  · exact fun h => Or.inr ⟨[], rfl, h⟩

theorem check_eq_ok_of_ofLines {b : Build} (h : ofLines ls = .ok b) {l : Text} (hl : l ∈ ls)
    {v : Verdict} (hv : Verdict.ofLine? l = some v) : Expression.check v.oriented = .ok () := by
  cases hranked : (ls.filterMap Verdict.ofLine?).mapM Verdict.rankedRow with
  | error f =>
    rw [ofLines_eq_error.2 hranked] at h
    cases h
  | ok rows =>
    have hmem : v ∈ ls.filterMap Verdict.ofLine? := List.mem_filterMap.2 ⟨l, hl, hv⟩
    exact v.check_eq_ok_iff.2 (exists_mapM_iff.1 ⟨rows, hranked⟩ v hmem)

theorem ofLines_eq_error_iff : ofLines ls = .error f ↔
    ∃ before l after v, ls = before ++ l :: after ∧ Verdict.ofLine? l = some v ∧
      Expression.check v.oriented = .error f ∧
      ∀ l' ∈ before, ∀ v', Verdict.ofLine? l' = some v' → Expression.check v'.oriented = .ok () := by
  rw [ofLines_eq_error, mapM_eq_error_iff]
  constructor
  · rintro ⟨vs, v, ws, hls, hf, hvs⟩
    obtain ⟨ls₁, ls₂, rfl, hls₁, hls₂⟩ := List.filterMap_eq_append_iff.1 hls
    obtain ⟨skipped, l, after, rfl, hskipped, hl, -⟩ := List.filterMap_eq_cons_iff.1 hls₂
    refine ⟨ls₁ ++ skipped, l, after, v, by simp, hl, v.check_eq_error_iff.2 hf, ?_⟩
    intro l' hl' v' hv'
    rcases List.mem_append.1 hl' with hl' | hl'
    · exact v'.check_eq_ok_iff.2 (hvs v' (hls₁ ▸ List.mem_filterMap.2 ⟨l', hl', hv'⟩))
    · rw [hskipped l' hl'] at hv'
      cases hv'
  · rintro ⟨before, l, after, v, rfl, hl, hf, hbefore⟩
    refine ⟨before.filterMap Verdict.ofLine?, v, after.filterMap Verdict.ofLine?, ?_,
      v.check_eq_error_iff.1 hf, fun v' hv' => ?_⟩
    · rw [List.filterMap_append, List.filterMap_cons_some hl]
    · obtain ⟨l', hl', hv'⟩ := List.mem_filterMap.1 hv'
      exact v'.check_eq_ok_iff.1 (hbefore l' hl' v' hv')

/-- One line with a bad expression refuses its whole log, and the first such line decides how, whatever
is stated again before it or after it. The failure quotes the expression as it was oriented. -/
theorem first_bad_line_decides (ls : List Text) :
    ((∃ f, ofLines ls = .error f) ↔
      ∃ l ∈ ls, ∃ v, Verdict.ofLine? l = some v ∧ ∃ f, Expression.check v.oriented = .error f) ∧
      (∀ f, ofLines ls = .error f ↔
        ∃ before l after v, ls = before ++ l :: after ∧ Verdict.ofLine? l = some v ∧
          Expression.check v.oriented = .error f ∧
          ∀ l' ∈ before, ∀ v', Verdict.ofLine? l' = some v' →
            Expression.check v'.oriented = .ok ()) ∧
      ∀ t f, Expression.check t = .error f → f.expression? = some t ∧ t <:+: f.message := by
  refine ⟨⟨?_, ?_⟩, fun f => ofLines_eq_error_iff, fun t f h => ?_⟩
  · rintro ⟨f, hf⟩
    obtain ⟨before, l, after, v, rfl, hl, hv, -⟩ := ofLines_eq_error_iff.1 hf
    exact ⟨l, by simp, v, hl, f, hv⟩
  · rintro ⟨l, hl, v, hv, f, hf⟩
    cases hbuild : ofLines ls with
    | error f' => exact ⟨f', rfl⟩
    | ok b =>
      rw [check_eq_ok_of_ofLines hbuild hl hv] at hf
      cases hf
  · have hquoted := Expression.expression?_of_check h
    exact ⟨hquoted, Failure.expression_infix_message hquoted⟩

/-- The quotient is stated from the right, so its expression is quoted with the variables exchanged. -/
theorem quotient_is_refused_first :
    ofLines [
        "Leaves: 2, i: 0, Min::make(x0, y0) -> Left-associativity with identity: \x7b 7 \x7d",
        "Leaves: 2, i: 1, Div::make(x0, y0) -> Right-associativity with identity: \x7b 1 \x7d",
        "Leaves: 2, i: 2, Min::make(x0 -> Left-associativity with identity: \x7b 7 \x7d"] =
      .error (.unknownOperator "Div" "Div::make(y0, x0)") ∧
    "Div::make(y0, x0)".toList <:+: (Failure.unknownOperator "Div" "Div::make(y0, x0)").message := by
  have hmin : Verdict.ofLine?
      "Leaves: 2, i: 0, Min::make(x0, y0) -> Left-associativity with identity: \x7b 7 \x7d".toList =
        some ⟨"Min::make(x0, y0)", .left, .proven, "7"⟩ := by decide +kernel
  have hdiv : Verdict.ofLine?
      "Leaves: 2, i: 1, Div::make(x0, y0) -> Right-associativity with identity: \x7b 1 \x7d".toList =
        some ⟨"Div::make(x0, y0)", .right, .proven, "1"⟩ := by decide +kernel
  have hgood : Expression.check "Min::make(x0, y0)" = .ok () := by decide +kernel
  have hbad : Expression.check "Div::make(y0, x0)" =
      .error (.unknownOperator "Div" "Div::make(y0, x0)") := by decide +kernel
  refine ⟨((first_bad_line_decides _).2.1 _).2 ⟨[_], _, [_], _, rfl, hdiv, hbad, ?_⟩,
    ((first_bad_line_decides []).2.2 _ _ hbad).2⟩
  intro l hl v hv
  rw [List.mem_singleton.1 hl, hmin] at hv
  obtain rfl := Option.some.inj hv
  exact hgood

end Build

end ReductionTables
