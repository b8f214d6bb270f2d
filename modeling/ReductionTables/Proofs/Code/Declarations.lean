import ReductionTables.Proofs.Code.Source

/-!
# Declared names

The names that the generated source declares can be read off its lines. Rows and the code around them
are never taken for declarations: what is not indented begins in another way.
-/

namespace ReductionTables.Code

/-- The name that a line declares as a type or as an expression. -/
def declaredName? (line : Text) : Option Text := do
  let rest ← "const Type ".toList.isPrefixOf? line <|> "const Expr ".toList.isPrefixOf? line
  if " = ".toList <+: rest.dropWhile (· ≠ ' ') then some (rest.takeWhile (· ≠ ' ')) else none

/-- The declaration is of a type or an expression, and no blank stands in its name. -/
def Declaration.Named (d : Declaration) : Prop :=
  (d.type = "Type".toList ∨ d.type = "Expr".toList) ∧ ' ' ∉ d.name

instance (d : Declaration) : Decidable d.Named :=
  inferInstanceAs (Decidable ((d.type = "Type".toList ∨ d.type = "Expr".toList) ∧ ' ' ∉ d.name))

variable {d : Declaration} {group : List Declaration} {t : Tables}

/-! ## Declarations -/

theorem declaredName?_line (hd : d.Named) : declaredName? d.line = some d.name := by
  obtain ⟨htype, hname⟩ := hd
  have hword : ∀ c ∈ d.name, !decide (c = ' ') := by
    intro c hc
    simpa using fun he : c = ' ' => hname (he ▸ hc)
  have htake (x : Text) : (d.name ++ ' ' :: x).takeWhile (fun c => !decide (c = ' ')) = d.name := by
    simp [List.takeWhile_append_of_pos hword]
  have hdrop (x : Text) :
      (d.name ++ ' ' :: x).dropWhile (fun c => !decide (c = ' ')) = ' ' :: x := by
    simp [List.dropWhile_append_of_pos hword]
  have hline : d.line = "const ".toList ++ d.type ++
      ' ' :: (d.name ++ ' ' :: ("= ".toList ++ d.value ++ ";".toList)) := by
    -- Rewriting with the definition itself would take long because of its string literals.
    unfold Declaration.line
    simp only [List.append_assoc]
    rfl
  rw [hline]
  rcases htype with htype | htype <;> simp [declaredName?, htype, List.isPrefixOf?, htake, hdrop]

theorem declared_declarationLines (hgroup : ∀ d ∈ group, d.Named) :
    (declarationLines group).filterMap declaredName? = group.map Declaration.name := by
  have hnames : (group.map Declaration.line).filterMap declaredName? = group.map Declaration.name := by
    rw [List.filterMap_map, ← List.filterMap_eq_map]
    exact List.filterMap_congr fun d hd => declaredName?_line (hgroup d hd)
  unfold declarationLines
  split
  · simp_all
  · rw [List.filterMap_append, hnames]
    exact List.append_nil _

theorem declaredName?_indent (depth : Nat) (line : Text) :
    declaredName? (indent (depth + 1) line) = none := by
  have hblank : indent (depth + 1) line = ' ' :: (List.replicate (4 * depth + 3) ' ' ++ line) := rfl
  rw [hblank]
  rfl

theorem declared_tableFunction (t : Tables) (s : Slot) :
    (tableFunction t s).filterMap declaredName? = [] := by
  have hopening : ∀ s ∈ Slot.all, declaredName? ("const ".toList ++ tableType ++ " &".toList ++
      tableFunctionName s ++ "() \x7b".toList) = none := by decide +kernel
  have hclosing : [indent 1 "return exprs;", "\x7d".toList, []].filterMap declaredName? = [] := by
    decide +kernel
  have hdefinition : (tableDefinition (t.rows s)).filterMap declaredName? = [] := by
    unfold tableDefinition
    split <;> simp [List.filterMap_map, declaredName?_indent]
  simp only [tableFunction, List.filterMap_append, hdefinition, hclosing, List.filterMap_cons,
    hopening s s.mem_all, List.filterMap_nil, List.append_nil]

/-! ## The whole file -/

theorem named_groups (ht : ∀ c ∈ t.constants, ' ' ∉ c.name) :
    ∀ group ∈ Declaration.groups t, ∀ d ∈ group, d.Named := by
  have hvalues : ∀ d ∈ Declaration.ofValues ++ Declaration.ofVariables, d.Named := by decide
  have hshorthands : ∀ group ∈ Shorthand.groups.map Declaration.ofShorthands, ∀ d ∈ group, d.Named := by
    decide
  have hconstants : ∀ d ∈ Declaration.ofConstants t.constants, d.Named := by
    intro d hd
    obtain ⟨c, hc, rfl⟩ := List.mem_map.1 hd
    exact ⟨Or.inr rfl, ht c hc⟩
  rw [List.forall_mem_append] at hvalues
  simpa [Declaration.groups] using ⟨hvalues.1, hvalues.2, hconstants, by simpa using hshorthands⟩

theorem declared_sourceLines (ht : ∀ c ∈ t.constants, ' ' ∉ c.name) :
    (sourceLines t).filterMap declaredName? = (Declaration.groups t).flatten.map Declaration.name := by
  have hopening : (sourceOpening ++ openNamespaces ++ ["namespace \x7b".toList, []]).filterMap
      declaredName? = [] := by decide +kernel
  have hclosing : (["\x7d  // namespace".toList, []] ++ lookup ++ closeNamespaces ++ trial).filterMap
      declaredName? = [] := by decide +kernel
  have hgroups : ((Declaration.groups t).flatMap declarationLines).filterMap declaredName? =
      (Declaration.groups t).flatten.map Declaration.name := by
    rw [List.filterMap_flatMap, List.map_flatten, ← List.flatMap_def]
    exact List.flatMap_congr fun group hgroup => declared_declarationLines (named_groups ht group hgroup)
  have htables : (Slot.all.flatMap (tableFunction t)).filterMap declaredName? = [] := by
    rw [List.filterMap_flatMap]
    exact List.flatMap_eq_nil_iff.2 fun s _ => declared_tableFunction t s
  simp only [List.filterMap_append, List.append_eq_nil_iff] at hopening hclosing
  simp only [sourceLines, hiddenPart, List.filterMap_append, hopening, hclosing, hgroups, htables,
    List.nil_append, List.append_nil]

/-- The names that every source declares. -/
def fixedNames : List Text :=
  Declaration.ofValues.map Declaration.name ++ Variable.all.map Variable.atom ++
    Shorthand.all.map Shorthand.atom

theorem nodup_names_iff (t : Tables) : ((Declaration.groups t).flatten.map Declaration.name).Nodup ↔
    (t.constants.map Constant.name).Nodup ∧ ∀ c ∈ t.constants, c.name ∉ fixedNames := by
  have hfixed : fixedNames.Nodup := by decide
  have hnames : (Declaration.groups t).flatten.map Declaration.name =
      (Declaration.ofValues.map Declaration.name ++ Variable.all.map Variable.atom) ++
        (t.constants.map Constant.name ++ Shorthand.all.map Shorthand.atom) := by
    have hconstants : (Declaration.ofConstants t.constants).map Declaration.name =
        t.constants.map Constant.name := List.map_map
    have hshorthands : (Shorthand.groups.map Declaration.ofShorthands).flatten.map Declaration.name =
        Shorthand.all.map Shorthand.atom := rfl
    simp only [Declaration.groups, List.flatten_append, List.flatten_cons, List.flatten_nil,
      List.map_append, List.append_nil, hconstants, hshorthands, List.append_assoc]
    rfl
  -- The constants stand between fixed names and are moved before them.
  rw [hnames, (List.perm_append_comm_assoc _ _ _).nodup_iff, List.nodup_append', List.disjoint_left,
    List.forall_mem_map]
  exact and_congr_right fun _ => and_iff_right hfixed

end ReductionTables.Code
