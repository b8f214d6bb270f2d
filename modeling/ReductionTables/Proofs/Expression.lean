import ReductionTables.Proofs.FirstOccurrences
import ReductionTables.Proofs.Ranking
import ReductionTables.Proofs.Term.Scanning
import ReductionTables.Proofs.Term.Traversal

/-!
# Operators and constants in the order of the text

The operators of an expression are those of the constructors that its text names, from left to right.
The first name in the text that belongs to no operator is the one that is refused, whichever
constructors surround it. The constants can be collected from the nodes by number, because leaves are
listed in the order of the text.
-/

namespace ReductionTables.Expression

variable {e : Expression} {f : Failure} {name s : Text} {names : List Text} {o : Operator}
  {os : List Operator}

/-! ## Names without operators -/

theorem operatorNamed_eq_ok : e.operatorNamed name = .ok o ↔ Operator.ofName? name = some o := by
  rw [operatorNamed]
  cases Operator.ofName? name <;> simp

theorem operatorNamed_eq_error : e.operatorNamed name = .error f ↔
    Operator.ofName? name = none ∧ f = .unknownOperator name e.text := by
  rw [operatorNamed]
  cases Operator.ofName? name <;> simp [eq_comm]

theorem mapM_operatorNamed_eq_ok :
    names.mapM e.operatorNamed = .ok os ↔ names.map Operator.ofName? = os.map some := by
  induction names generalizing os with
  | nil => cases os <;> simp [pure, Except.pure]
  | cons name names ih =>
    rw [List.mapM_cons, List.map_cons, operatorNamed]
    cases Operator.ofName? name with
    | none => cases os <;> simp [bind, Except.bind]
    | some o =>
      cases hnames : names.mapM e.operatorNamed with
      | error f => cases os <;> simp [bind, Except.bind, ← ih, hnames]
      | ok os' => cases os <;> simp [bind, Except.bind, pure, Except.pure, ← ih, hnames]

theorem mapM_operatorNamed_eq_error : names.mapM e.operatorNamed = .error f ↔
    ∃ before name after, names = before ++ name :: after ∧
      (∀ n ∈ before, (Operator.ofName? n).isSome) ∧ Operator.ofName? name = none ∧
        f = .unknownOperator name e.text := by
  simp only [mapM_eq_error_iff, operatorNamed_eq_ok, operatorNamed_eq_error, Option.isSome_iff_exists]
  grind

/-! ## Constants at the nodes -/

/-- Takes down the constant that stands at a node, unless it was there before. -/
def noteConstant (noted : List Text) (n : Node) : List Text :=
  match n.label.word? with
  | some word => if isConstantName word then if word ∈ noted then noted else noted ++ [word] else noted
  | none => noted

/-- The constants are those that are noted when the nodes are gone through by number. -/
theorem constants_eq_foldl (e : Expression) : e.constants = e.term.nodes.foldl noteConstant [] :=
  calc e.constants = ((Node.leafWords e.term.nodes).filter isConstantName).eraseDups := by
        rw [constants, Term.leafWords_nodes]
    _ = ((Node.leafWords e.term.nodes).filter isConstantName).foldl
          (fun noted word => if word ∈ noted then noted else noted ++ [word]) [] :=
        (foldl_concat_new [] _).symm
    _ = e.term.nodes.foldl noteConstant [] := by
        rw [List.foldl_filter, Node.leafWords, List.foldl_filterMap]
        congr 1
        funext noted n
        rw [noteConstant]
        cases n.label.word? with
        | none => rfl
        | some word => rfl

/-! ## Whole expressions -/

theorem root_of_call {args : List Term} (h : e.term = .call name args) :
    e.root = e.operatorNamed name := by
  rw [root, h, Term.head?]

theorem operators_of_call {args : List Term} (h : e.term = .call name args) :
    e.operators = (e.operatorNamed name).bind fun o =>
      ((Term.headsOfList args).mapM e.operatorNamed).map (o :: ·) := by
  rw [operators, h, Term.heads, List.mapM_cons]
  rfl

/-- The constructors of an expression are the called words of its text. Its operators are those of
their names in this order, and the first name without an operator is refused; a traversal of the nodes
comes to the same. The root belongs to the first name. -/
theorem operators_stand_in_the_text (h : ofText s = .ok e) :
    Text.calledWords s = (Text.constructorNames s).map (· ++ constructorMark) ∧
      (∀ os, e.operators = .ok os ↔ (Text.constructorNames s).map Operator.ofName? = os.map some) ∧
      (∀ f, e.operators = .error f ↔
        ∃ before name after, Text.constructorNames s = before ++ name :: after ∧
          (∀ n ∈ before, (Operator.ofName? n).isSome) ∧ Operator.ofName? name = none ∧
            f = .unknownOperator name s) ∧
      (∃ visited, ∀ ns x,
        e.Traverses [e.term.nodes.length - 1] [] ns x ↔ ns = visited ∧ x = e.operators) ∧
      ((∀ w, e.term ≠ .leaf w) → ∃ name rest, Text.constructorNames s = name :: rest ∧
        (∀ o, e.root = .ok o ↔ Operator.ofName? name = some o) ∧
        (∀ o os, e.operators = .ok (o :: os) → e.root = .ok o) ∧
        (Operator.ofName? name = none → e.root = .error (.unknownOperator name s) ∧
          e.operators = .error (.unknownOperator name s))) := by
  obtain ⟨rfl, hterm⟩ := ofText_eq_ok.1 h
  have hnames := Term.constructorNames_eq hterm
  refine ⟨?_, fun os => ?_, fun f => ?_, e.traverses_root, fun hleaf => ?_⟩
  · rw [hnames, Term.calledWords_eq hterm]
  · rw [hnames, operators, mapM_operatorNamed_eq_ok]
  · rw [hnames, operators, mapM_operatorNamed_eq_error]
  · cases hcall : e.term with
    | leaf w => exact absurd hcall (hleaf w)
    | call name args =>
      refine ⟨name, Term.headsOfList args, by rw [hnames, hcall, Term.heads], ?_, ?_, ?_⟩
      · intro o
        rw [root_of_call hcall, operatorNamed_eq_ok]
      · intro o os hos
        rw [operators_of_call hcall] at hos
        obtain ⟨o', ho', hos⟩ := bind_eq_ok.1 hos
        obtain ⟨os', -, hos⟩ := map_eq_ok.1 hos
        rw [root_of_call hcall, ho', (List.cons.inj hos).1]
      · intro hnone
        have hname : e.operatorNamed name = .error (.unknownOperator name e.text) :=
          operatorNamed_eq_error.2 ⟨hnone, rfl⟩
        rw [root_of_call hcall, operators_of_call hcall, hname]
        exact ⟨rfl, rfl⟩

theorem first_foreign_constructor_in_the_text_is_refused :
    Text.constructorNames "Add::make (Max::make\t(x0,Div::make(y0)), Mulx::make( k , Mod::make(y0)))" =
        ["Add".toList, "Max".toList, "Div".toList, "Mulx".toList, "Mod".toList] ∧
      ∃ e, ofText "Add::make (Max::make\t(x0,Div::make(y0)), Mulx::make( k , Mod::make(y0)))" = .ok e ∧
        e.root = .ok .add ∧ e.operators = .error (.unknownOperator "Div" e.text) := by
  have hnames :
      Text.constructorNames "Add::make (Max::make\t(x0,Div::make(y0)), Mulx::make( k , Mod::make(y0)))" =
        ["Add".toList, "Max".toList, "Div".toList, "Mulx".toList, "Mod".toList] := by decide +kernel
  have he : ofText "Add::make (Max::make\t(x0,Div::make(y0)), Mulx::make( k , Mod::make(y0)))" =
      .ok ⟨"Add::make (Max::make\t(x0,Div::make(y0)), Mulx::make( k , Mod::make(y0)))", .call "Add"
        [.call "Max" [.leaf "x0", .call "Div" [.leaf "y0"]],
          .call "Mulx" [.leaf "k", .call "Mod" [.leaf "y0"]]]⟩ := rfl
  obtain ⟨-, -, herror, -, hroot⟩ := operators_stand_in_the_text he
  obtain ⟨name, rest, hfirst, hoperator, -⟩ := hroot (by simp)
  rw [hnames] at herror hfirst
  obtain rfl := (List.cons.inj hfirst).1
  refine ⟨hnames, _, he, (hoperator .add).2 (by decide), (herror _).2 ?_⟩
  exact ⟨["Add".toList, "Max".toList], "Div", ["Mulx".toList, "Mod".toList], rfl, by decide, by decide, rfl⟩

end ReductionTables.Expression
