import ReductionTables.Proofs.Ranking.Insertion
import ReductionTables.Proofs.Tables
import ReductionTables.Proofs.Verdict.Orientation

/-!
# Orientation moves no fact

A fact is placed by the constructors of its expression, and the exchange reaches only the leaves of an
expression in whose constructors neither variable is named. What is stated from the right is therefore
placed as it stands in the log, or it cannot be placed for the same constructor.
-/

namespace ReductionTables

/-- The failure for the same reason of the expression with the given text. -/
def Failure.quoting (t : Text) : Failure → Failure
  | inaccessible path error => inaccessible path error
  | malformed _ reason => malformed t reason
  | unknownOperator name _ => unknownOperator name t
  | noRootOperator _ => noRootOperator t

/-! ## Expressions with the same constructors -/

theorem Term.head?_eq_head?_heads (t : Term) : t.head? = t.heads.head? := by
  cases t with
  | leaf word => rfl
  | call name args => rfl

namespace Expression

variable {e e' : Expression} {s : Text}

theorem operatorNamed_eq_mapError (e e' : Expression) (name : Text) :
    e'.operatorNamed name = (e.operatorNamed name).mapError (.quoting e'.text) := by
  rw [operatorNamed, operatorNamed]
  cases Operator.ofName? name with
  | none => rfl
  | some o => rfl

theorem root_eq_mapError (h : e'.term.heads = e.term.heads) :
    e'.root = e.root.mapError (.quoting e'.text) := by
  rw [root, root, Term.head?_eq_head?_heads, Term.head?_eq_head?_heads, h]
  cases e.term.heads.head? with
  | none => rfl
  | some name => exact operatorNamed_eq_mapError e e' name

theorem operators_eq_mapError (h : e'.term.heads = e.term.heads) :
    e'.operators = e.operators.mapError (.quoting e'.text) := by
  rw [operators, operators, h, ← mapM_mapError]
  exact congrArg e.term.heads.mapM (funext (operatorNamed_eq_mapError e e'))

theorem root_eq_ok_iff (h : e'.term.heads = e.term.heads) {o : Operator} :
    e'.root = .ok o ↔ e.root = .ok o := by
  rw [root_eq_mapError h, mapError_eq_ok]

theorem map_operators_eq_ok_iff (h : e'.term.heads = e.term.heads) {k : List Nat} :
    e'.operators.map (List.map Operator.rank) = .ok k ↔
      e.operators.map (List.map Operator.rank) = .ok k := by
  simp only [operators_eq_mapError h, map_eq_ok, mapError_eq_ok]

theorem heads_exchanged (e : Expression) : e.exchanged.term.heads = e.term.heads :=
  Term.heads_mapLeaves exchange e.term

theorem ofText_exchange_of_unnamed (he : ofText s = .ok e)
    (hheads : ∀ n ∈ e.term.heads,
      ¬ "x0".toList <:+: n ++ constructorMark ∧ ¬ "y0".toList <:+: n ++ constructorMark) :
    ofText (exchange s) = .ok e.exchanged := by
  obtain rfl := (ofText_eq_ok.1 he).1
  exact ofText_exchanged_of_kept he fun n hn => exchange_eq_self_iff.2 (hheads n hn)

end Expression

/-! ## Places -/

section

variable {e : Expression} {v : Verdict} {vs : List Verdict} {ranked : List RankedRow}

/-- The constructors of the oriented expression decide whether and where a verdict is placed. -/
theorem Verdict.exists_rankedRow_iff (he : Expression.ofText v.oriented = .ok e) {o : Operator}
    {k : List Nat} : (∃ r, v.rankedRow = .ok r ∧ r.root = o ∧ r.key = k) ↔
      e.root = .ok o ∧ e.operators.map (List.map Operator.rank) = .ok k := by
  constructor
  · rintro ⟨r, hr, rfl, rfl⟩
    obtain ⟨x, hx, hroot, hoperators, -, -⟩ := Entry.rankedRow_eq_ok hr
    obtain rfl := Except.ok.inj (he.symm.trans hx)
    exact ⟨hroot, map_eq_ok.2 ⟨r.operators, hoperators, rfl⟩⟩
  · rintro ⟨hroot, hkey⟩
    obtain ⟨os, hoperators, rfl⟩ := map_eq_ok.1 hkey
    refine ⟨⟨o, os, e.constants.map .ofWord, .ofVerdict v⟩, ?_, rfl, rfl⟩
    exact bind_eq_ok.2 ⟨e, he, bind_eq_ok.2 ⟨o, hroot, bind_eq_ok.2 ⟨os, hoperators, rfl⟩⟩⟩

/-- The fact of a verdict is ranked by the expression of that verdict, whichever stated it first. -/
theorem Verdict.rankedRow_of_ranking (h : (Catalog.ofVerdicts vs).ranking = .ok ranked)
    {r : RankedRow} (hr : r ∈ ranked) (hrow : r.row = .ofVerdict v) : v.rankedRow = .ok r := by
  have hranked := Catalog.rankedRow_of_ranking (Catalog.collects_empty.insertMany vs) h hr
  rwa [hrow, Row.entry_ofVerdict] at hranked

theorem Catalog.exists_of_ranking (h : (ofVerdicts vs).ranking = .ok ranked) (hv : v ∈ vs) :
    ∃ r ∈ ranked, r.row = .ofVerdict v := by
  have hcollects := collects_empty.insertMany vs
  have hmem := (rows_perm_of_ranking h).mem_iff.2 (hcollects.mem_rows v hv)
  exact List.mem_map.1 hmem

/-- The fact of a verdict stands in the tables of its root operator and in no others. -/
theorem Tables.mem_rows_ofVerdict_iff (he : Expression.ofText v.oriented = .ok e) (hv : v ∈ vs)
    (h : (Catalog.ofVerdicts vs).ranking = .ok ranked) {a : Arity} {s : Slot} :
    Row.ofVerdict v ∈ (ofRanking ranked a).rows s ↔ e.root = .ok s.operator ∧ s.arity = a := by
  have hroot {r : RankedRow} (hr : r ∈ ranked) (hrow : r.row = .ofVerdict v) : e.root = .ok r.root :=
    ((Verdict.exists_rankedRow_iff he).1 ⟨r, Verdict.rankedRow_of_ranking h hr hrow, rfl, rfl⟩).1
  rw [mem_rows_ofRanking]
  constructor
  · rintro ⟨r, hr, rfl, hrow⟩
    exact ⟨hroot hr hrow, rfl⟩
  · rintro ⟨hs, rfl⟩
    obtain ⟨r, hr, hrow⟩ := Catalog.exists_of_ranking h hv
    have hoperator : r.root = s.operator := Except.ok.inj ((hroot hr hrow).symm.trans hs)
    exact ⟨r, hr, by rw [hoperator], hrow⟩

end

/-- When no constructor of an expression names one of the two variables, the exchanged expression is
read with the same constructors, each leaf being exchanged in its place. It has the same operators, or
fails for the same reason, and a verdict that is stated from the right by such an expression is ranked
and listed as the expression in the log says. -/
theorem orientation_keeps_the_place {s : Text} {e : Expression} (he : Expression.ofText s = .ok e)
    (hheads : ∀ n ∈ e.term.heads,
      ¬ "x0".toList <:+: n ++ constructorMark ∧ ¬ "y0".toList <:+: n ++ constructorMark) :
    ∃ e', Expression.ofText (exchange s) = .ok e' ∧ e'.term = e.term.mapLeaves exchange ∧
      e'.operators = e.operators.mapError (.quoting (exchange s)) ∧
      e'.root = e.root.mapError (.quoting (exchange s)) ∧
      ∀ v : Verdict, v.expression = s → v.direction = .right →
        (∀ o k, (∃ r, v.rankedRow = .ok r ∧ r.root = o ∧ r.key = k) ↔
          e.root = .ok o ∧ e.operators.map (List.map Operator.rank) = .ok k) ∧
        ∀ vs ranked, v ∈ vs → (Catalog.ofVerdicts vs).ranking = .ok ranked → ∀ a t,
          Row.ofVerdict v ∈ (Tables.ofRanking ranked a).rows t ↔
            e.root = .ok t.operator ∧ t.arity = a := by
  have hexchanged := Expression.ofText_exchange_of_unnamed he hheads
  have hsame := Expression.heads_exchanged e
  have htext : e.exchanged.text = exchange s := (Expression.ofText_eq_ok.1 hexchanged).1
  refine ⟨e.exchanged, hexchanged, rfl, htext ▸ Expression.operators_eq_mapError hsame,
    htext ▸ Expression.root_eq_mapError hsame, fun v hv hright => ?_⟩
  have horiented : Expression.ofText v.oriented = .ok e.exchanged := by
    rw [Verdict.oriented, hright, hv, hexchanged]
  -- The oriented expression decides the place, and it has the constructors of the one in the log.
  refine ⟨fun o k => ?_, fun vs ranked hmem hranking a t => ?_⟩
  · rw [Verdict.exists_rankedRow_iff horiented, Expression.root_eq_ok_iff hsame,
      Expression.map_operators_eq_ok_iff hsame]
  · rw [Tables.mem_rows_ofVerdict_iff horiented hmem hranking, Expression.root_eq_ok_iff hsame]

/-- The exchange shortens a constant, and the constructor at the root has the name of no operator. -/
theorem reversed_constant_keeps_its_place :
    ∃ r, Verdict.rankedRow ⟨"Mulx::make(Add::make(y0, _x0), x0)", .right, .proven, "1"⟩ = .ok r ∧
      r.root = .mul ∧ r.key = [1, 0] := by
  obtain ⟨-, -, -, -, -, hplaced⟩ := orientation_keeps_the_place
    (s := "Mulx::make(Add::make(y0, _x0), x0)")
    (e := ⟨"Mulx::make(Add::make(y0, _x0), x0)",
      .call "Mulx" [.call "Add" [.leaf "y0", .leaf "_x0"], .leaf "x0"]⟩) rfl (by decide +kernel)
  exact ((hplaced ⟨_, .right, .proven, "1"⟩ rfl rfl).1 .mul [1, 0]).2 ⟨rfl, rfl⟩

end ReductionTables
