import ReductionTables.Proofs.Code.Tables
import ReductionTables.Proofs.Tables

/-!
# The generated source can be read back

Between parts that are the same in every source stand the constants and the ten tables. No text of a
log ends its line or its string early, so both can be told from what follows them.
-/

namespace ReductionTables

/-- The constant ends neither a line nor a string. -/
structure Constant.Plain (c : Constant) : Prop where
  name : '\n' ∉ c.name
  word : '\n' ∉ c.word
  quote : '"' ∉ c.word

structure Tables.Plain (t : Tables) : Prop where
  rows : ∀ s, ∀ r ∈ t.rows s, r.Plain
  constants : ∀ c ∈ t.constants, c.Plain

/-- The same tables up to the spelling of literals. -/
structure Tables.Alike (t u : Tables) : Prop where
  rows : ∀ s, List.Forall₂ Row.Alike (t.rows s) (u.rows s)
  constants : t.constants = u.constants

instance (t u : Tables) : Decidable (t.Alike u) :=
  decidable_of_iff ((∀ s ∈ Slot.all, List.Forall₂ Row.Alike (t.rows s) (u.rows s)) ∧
    t.constants = u.constants)
    ⟨fun h => ⟨fun s => h.1 s s.mem_all, h.2⟩, fun h => ⟨fun s _ => h.1 s, h.2⟩⟩

namespace Code

variable {c d : Constant} {cs ds : List Constant} {t u : Tables} {x y : List Text}

/-! ## Constants -/

def constantLine (c : Constant) : Text := (Declaration.ofVariable c.name c.word).line

theorem constantLine_eq (c : Constant) : constantLine c = "const Expr ".toList ++ (c.name ++
    (" = Variable::make(i32, ".toList ++ '"' :: c.word)) ++ "\");".toList := by
  unfold constantLine Declaration.line Declaration.ofVariable
  simp only [List.append_assoc, List.cons_append]
  rfl

theorem constantLine_inj (hc : c.Plain) (hd : d.Plain) (h : constantLine c = constantLine d) :
    c = d := by
  rw [constantLine_eq, constantLine_eq, List.append_left_inj, List.append_right_inj,
    ← List.append_assoc, ← List.append_assoc] at h
  obtain ⟨hname, hword⟩ := Text.append_cons_inj_of_right hc.quote hd.quote h
  cases c
  cases d
  obtain rfl := List.append_cancel_right hname
  obtain rfl := hword
  rfl

theorem quote_mem_constantLine (c : Constant) : '"' ∈ constantLine c := by
  rw [constantLine_eq]
  simp

theorem isLine_constantLine (hc : c.Plain) : (constantLine c).IsLine := by
  rw [constantLine_eq]
  exact .append (by simp [hc.name, hc.word]) (by decide) (by decide)

theorem head?_ne_constantLine (hx : ∀ l ∈ x.head?, '"' ∉ l) : x.head? ≠ some (constantLine c) :=
  fun h => hx _ h (quote_mem_constantLine c)

/-- The declarations of constants with the empty line after them, unless there are none. -/
theorem constantLines_append (cs : List Constant) (x : List Text) :
    declarationLines (Declaration.ofConstants cs) ++ x =
      cs.map constantLine ++ if cs = [] then x else [] :: x := by
  cases cs with
  | nil => rfl
  | cons c cs =>
    rw [if_neg (by simp), declarationLines, if_neg (by simp [Declaration.ofConstants]),
      Declaration.ofConstants, List.map_map, List.append_assoc]
    rfl

theorem constantLines_append_inj (hcs : ∀ c ∈ cs, c.Plain) (hds : ∀ d ∈ ds, d.Plain)
    (hx : ∀ l ∈ x.head?, '"' ∉ l) (hy : ∀ l ∈ y.head?, '"' ∉ l)
    (h : declarationLines (Declaration.ofConstants cs) ++ x =
      declarationLines (Declaration.ofConstants ds) ++ y) : cs = ds ∧ x = y := by
  have hend : ∀ {cs : List Constant} {x : List Text}, (∀ l ∈ x.head?, '"' ∉ l) →
      ∀ l ∈ (if cs = [] then x else [] :: x).head?, '"' ∉ l := by
    intro cs x hx
    split
    · exact hx
    · simp
  rw [constantLines_append, constantLines_append] at h
  obtain ⟨hsame, hxy⟩ := Text.forall₂_of_map_append (R := Eq) h
    (fun a ha b hb => constantLine_inj (hcs a ha) (hds b hb))
    (fun b _ => head?_ne_constantLine (hend hx)) (fun a _ => head?_ne_constantLine (hend hy))
  obtain rfl := List.forall₂_eq_eq_eq ▸ hsame
  refine ⟨rfl, ?_⟩
  split at hxy
  · exact hxy
  · exact (List.cons.inj hxy).2

theorem isLine_constantLines (hcs : ∀ c ∈ cs, c.Plain) :
    ∀ l ∈ declarationLines (Declaration.ofConstants cs), l.IsLine := by
  rw [← List.append_nil (declarationLines _), constantLines_append]
  intro l hl
  rcases List.mem_append.1 hl with hl | hl
  · obtain ⟨c, hc, rfl⟩ := List.mem_map.1 hl
    exact isLine_constantLine (hcs c hc)
  · split at hl
    · cases hl
    · rw [List.mem_singleton.1 hl]
      decide

/-! ## Functions -/

theorem tableFunctions_append_inj {slots : List Slot} (ht : t.Plain) (hu : u.Plain)
    (h : slots.flatMap (tableFunction t) ++ x = slots.flatMap (tableFunction u) ++ y) :
    ∀ s ∈ slots, List.Forall₂ Row.Alike (t.rows s) (u.rows s) := by
  induction slots generalizing x y with
  | nil => simp
  | cons s slots ih =>
    simp only [List.flatMap_cons, tableFunction, List.append_assoc, List.append_right_inj] at h
    obtain ⟨hrows, h⟩ := tableDefinition_append_inj (ht.rows s) (hu.rows s) h
    exact List.forall_mem_cons.2 ⟨hrows, ih (List.append_cancel_left h)⟩

theorem tableFunction_eq (h : t.Alike u) (s : Slot) : tableFunction t s = tableFunction u s := by
  rw [tableFunction, tableFunction, tableDefinition_eq (h.rows s)]

theorem isLine_tableFunction (ht : t.Plain) (s : Slot) : ∀ l ∈ tableFunction t s, l.IsLine := by
  have hopening : ∀ s ∈ Slot.all, Text.IsLine ("const ".toList ++ tableType ++ " &".toList ++
      tableFunctionName s ++ "() \x7b".toList) := by decide +kernel
  have hclosing : ∀ l ∈ [indent 1 "return exprs;", "\x7d".toList, []], l.IsLine := by decide +kernel
  simp only [tableFunction, List.forall_mem_append, List.forall_mem_singleton]
  exact ⟨⟨hopening s s.mem_all, isLine_tableDefinition (ht.rows s)⟩, hclosing⟩

/-! ## The whole file -/

def beforeConstants : List Text := sourceOpening ++ openNamespaces ++ ["namespace \x7b".toList, []] ++
  declarationLines Declaration.ofValues ++ declarationLines Declaration.ofVariables

def shorthandLines : List Text :=
  (Shorthand.groups.map Declaration.ofShorthands).flatMap declarationLines

def afterTables : List Text :=
  ["\x7d  // namespace".toList, []] ++ lookup ++ closeNamespaces ++ trial

theorem sourceLines_eq (t : Tables) : sourceLines t = beforeConstants ++
    (declarationLines (Declaration.ofConstants t.constants) ++
      (shorthandLines ++ (Slot.all.flatMap (tableFunction t) ++ afterTables))) := by
  simp only [sourceLines, hiddenPart, Declaration.groups, beforeConstants, shorthandLines,
    afterTables, List.flatMap_append, List.flatMap_cons, List.flatMap_nil, List.append_assoc,
    List.append_nil]

theorem quote_not_mem_head?_shorthandLines (x : List Text) :
    ∀ l ∈ (shorthandLines ++ x).head?, '"' ∉ l := by
  have hquote : ∀ l ∈ shorthandLines.head?, '"' ∉ l := by decide
  have hne : shorthandLines ≠ [] := by decide
  rwa [List.head?_append_of_ne_nil _ hne]

theorem isLine_sourceLines (ht : t.Plain) : ∀ l ∈ sourceLines t, l.IsLine := by
  have hbefore : ∀ l ∈ beforeConstants, l.IsLine := by decide +kernel
  have hshorthands : ∀ l ∈ shorthandLines, l.IsLine := by decide +kernel
  have hafter : ∀ l ∈ afterTables, l.IsLine := by decide +kernel
  rw [sourceLines_eq]
  simp only [List.forall_mem_append]
  refine ⟨hbefore, isLine_constantLines ht.constants, hshorthands, fun l hl => ?_, hafter⟩
  obtain ⟨s, -, hl⟩ := List.mem_flatMap.1 hl
  exact isLine_tableFunction ht s l hl

/-- Nothing in the source can be taken for the end of a line but the ends of its lines. -/
theorem lines_source (ht : t.Plain) : Text.lines (source t) = sourceLines t :=
  Text.lines_unlines (isLine_sourceLines ht)

theorem source_eq_iff (ht : t.Plain) (hu : u.Plain) : source t = source u ↔ t.Alike u := by
  constructor
  · intro h
    have hlines : sourceLines t = sourceLines u := by rw [← lines_source ht, h, lines_source hu]
    rw [sourceLines_eq, sourceLines_eq, List.append_right_inj] at hlines
    obtain ⟨hconstants, hrest⟩ := constantLines_append_inj ht.constants hu.constants
      (quote_not_mem_head?_shorthandLines _) (quote_not_mem_head?_shorthandLines _) hlines
    have hrows := tableFunctions_append_inj ht hu (List.append_cancel_left hrest)
    exact ⟨fun s => hrows s s.mem_all, hconstants⟩
  · intro h
    rw [source, source, sourceLines_eq, sourceLines_eq, h.constants,
      List.flatMap_congr fun s _ => tableFunction_eq h s]

end Code

end ReductionTables
