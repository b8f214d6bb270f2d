import ReductionTables.Proofs.Row.Atoms
import ReductionTables.Proofs.Term.Passes

/-!
# Atoms keep the expression

The renaming of variables stays inside leaves, and the collapsing of shorthands replaces whole
constructors with their arguments. An expression whose constructors are all operators is therefore
still there when it is written with atoms.
-/

namespace ReductionTables

/-! ## Words of operators and variables -/

theorem Operator.isName_name (o : Operator) : IsName o.name := by
  cases o <;> exact isName_of_all (by decide)

theorem Operator.isName_head (o : Operator) : IsName (o.name ++ constructorMark) :=
  o.isName_name.append isName_constructorMark

theorem Variable.wellFormed_atom (v : Variable) : (Term.leaf v.atom).WellFormed := by
  refine ⟨?_, ?_, ?_⟩
  · cases v <;> decide
  · cases v <;> exact isName_of_all (by decide)
  · cases v <;> decide

/-! ## Renamed terms -/

namespace Variable

/-- The leaf whose word has the names of variables for their atoms. -/
def unrenamedLeaf (word : Text) : Term := .leaf (unrename word)

theorem rules_old_isName : ∀ r ∈ rules, IsName r.old := by
  intro r hr
  obtain ⟨v, -, rfl⟩ := List.mem_map.1 hr
  cases v <;> exact isName_of_all (by decide)

theorem rules_new_characters : ∀ r ∈ rules, ∀ c ∈ r.new, isNameCharacter c ∧ c ≠ ':' := by
  intro r hr c hc
  obtain ⟨v, -, rfl⟩ := List.mem_map.1 hr
  have hatom := v.wellFormed_atom
  refine ⟨hatom.2.1 c hc, ?_⟩
  rintro rfl
  exact hatom.2.2 hc

theorem wellFormed_rename {w : Text} (hw : (Term.leaf w).WellFormed) :
    (Term.leaf (Rule.applyAll rules w)).WellFormed := by
  obtain ⟨hne, hname, hcolon⟩ := hw
  have hword : ∀ c ∈ w, isNameCharacter c ∧ c ≠ ':' := fun c hc =>
    ⟨hname c hc, fun he => hcolon (he ▸ hc)⟩
  have hrenamed := Rule.forall_mem_applyAll rules_new_characters hword
  refine ⟨fun hnil => hne ?_, fun c hc => (hrenamed c hc).1, fun hc => (hrenamed ':' hc).2 rfl⟩
  rw [← unrename_rename w, hnil]
  rfl

theorem head_avoids : ∀ o ∈ Operator.all, ∀ r ∈ rules,
    Text.Avoids (o.name ++ constructorMark) r.old := by decide

theorem retraced : Retraced rules unrenamedLeaf fun _ => True where
  old_begins := by
    intro r hr
    obtain ⟨v, -, rfl⟩ := List.mem_map.1 hr
    cases v <;> (simp [Text.Ends, rule, name]; decide)
  leaf w hw _ := by
    refine ⟨Rule.applyAll rules w, wellFormed_rename hw, by rw [unrenamedLeaf, unrename_rename], ?_⟩
    intro t u ht htu
    exact (Rewrites.applyAll rules_compatible w).append_of_ends rules_old_isName ht htu
  head o ho r hr := by
    have h := head_avoids o ho r hr
    obtain ⟨c, n, hn⟩ : ∃ c n, o.name ++ constructorMark = c :: n :=
      List.exists_cons_of_ne_nil (by simp [constructorMark])
    rw [hn] at h ⊢
    exact h.2.2
  call o ho x t _ := by
    refine Or.inr fun r hr u hbegin => ?_
    have hne : o.name ++ constructorMark ≠ [] := by simp [constructorMark]
    refine (head_avoids o ho r hr).not_begins_both hne ?_ hbegin
    exact ⟨x ++ [')'] ++ u, by simp⟩

end Variable

/-! ## Collapsed terms -/

namespace Shorthand

/-- The term of the expression that the name stands for. -/
def term (s : Shorthand) : Term := .call s.operator.name [.leaf s.left.atom, .leaf s.right.atom]

/-- The term that a word stands for when it is the name of a shorthand, else the leaf. -/
def termOfWord (word : Text) : Term :=
  match all.find? fun s => s.atom = word with
  | some s => s.term
  | none => .leaf word

theorem termOfWord_atom {s : Shorthand} (hs : s ∈ all) : termOfWord s.atom = s.term := by
  have hfind : all.find? (fun q => q.atom = s.atom) = some s := by
    cases h : all.find? fun q => q.atom = s.atom with
    | none =>
      have := List.find?_eq_none.1 h s hs
      simp at this
    | some q =>
      have hq : q.atom = s.atom := by simpa using List.find?_some h
      rw [atom_injective q (List.mem_of_find?_eq_some h) s hs hq]
  rw [termOfWord, hfind]

theorem termOfWord_of_ne {w : Text} (hw : ∀ s ∈ all, w ≠ s.atom) : termOfWord w = .leaf w := by
  have hfind : all.find? (fun q => q.atom = w) = none := by
    refine List.find?_eq_none.2 fun s hs => ?_
    simpa using (hw s hs).symm
  rw [termOfWord, hfind]

theorem pattern_eq_print (s : Shorthand) : s.pattern =
    s.operator.name ++ constructorMark ++
      ([] ++ ['('] ++ (s.left.atom ++ ([] ++ [','] ++ ([' '] ++ s.right.atom ++ []))) ++ []) ++
      [')'] := by
  simp [pattern, constructorMark]

theorem wellFormed_term (s : Shorthand) : s.term.WellFormed :=
  ⟨s.operator.isName_name, by simp, fun _ => rfl, s.left.wellFormed_atom, s.right.wellFormed_atom, trivial⟩

theorem spaced_pattern (s : Shorthand) : Spaced s.term.tokens s.pattern := by
  have hblank : Text.Blanks [' '] := Text.blanks_singleton (by decide)
  have hnil := Text.blanks_nil
  have hleft : Spaced [s.left.atom] s.left.atom :=
    Spaced.singleton_iff.2 ⟨[], [], by simp, hnil, hnil⟩
  have hright : Spaced [s.right.atom] ([' '] ++ s.right.atom ++ []) :=
    Spaced.singleton_iff.2 ⟨[' '], [], rfl, hblank, hnil⟩
  rw [pattern_eq_print]
  exact Term.spaced_call _ hnil (hleft.append (.cons hnil hright)) hnil

theorem ofText_pattern (s : Shorthand) : Term.ofText s.pattern = .ok s.term :=
  Term.ofText_print s.wellFormed_term s.spaced_pattern

theorem wellFormed_shorthand : ∀ s ∈ all, (Term.leaf s.atom).WellFormed := by
  intro s hs
  have hname : ∀ q ∈ all, q.atom.all isNameCharacter := by decide
  have hcolon : ∀ q ∈ all, ':' ∉ q.atom := by decide
  exact ⟨List.ne_nil_of_length_eq_add_one s.length_atom, isName_of_all (hname s hs), hcolon s hs⟩

theorem head_begins_pattern (s : Shorthand) : s.operator.name ++ constructorMark <+: s.pattern := by
  rw [pattern_eq_print, List.append_assoc]
  exact List.prefix_append _ _

theorem head_tail_avoids_operator : ∀ o ∈ Operator.all, ∀ q ∈ Operator.all,
    Text.Avoids (o.name ++ constructorMark).tail q.name := by decide

theorem retraced : Retraced rules termOfWord fun w => ∀ s ∈ all, w ≠ s.atom where
  old_begins := by
    intro r hr
    obtain ⟨s, -, rfl⟩ := List.mem_map.1 hr
    intro hends
    have hbegins : ∀ o : Operator, ∃ c n, o.name = c :: n ∧ isNameCharacter c := by
      intro o
      cases o <;> exact ⟨_, _, rfl, by decide⟩
    obtain ⟨c, n, hn, hc⟩ := hbegins s.operator
    refine hends c ?_ hc
    simp [rule, pattern, hn]
  leaf w hw hp := by
    refine ⟨w, hw, termOfWord_of_ne hp, fun t u ht htu => ?_⟩
    refine Rewrites.keep (fun v hv _ r hr hbegin => ?_) htu
    obtain ⟨s, -, rfl⟩ := List.mem_map.1 hr
    -- A pattern begins with the word of its constructor, and a leaf has no colon.
    have hhead : s.operator.name ++ constructorMark <+: v :=
      ht.name_begins s.operator.isName_head (s.head_begins_pattern.trans hbegin)
    have hcolon : ':' ∈ s.operator.name ++ constructorMark := by simp [constructorMark]
    exact hw.2.2 (hv.subset (hhead.subset hcolon))
  head o ho r hr := by
    obtain ⟨s, -, rfl⟩ := List.mem_map.1 hr
    rw [rule, pattern_eq]
    exact (head_tail_avoids_operator o ho s.operator s.operator.mem_all).append _
  call o _ x t hread := by
    by_cases hfound : ∃ s ∈ all, s.pattern = o.name ++ constructorMark ++ x ++ [')']
    · obtain ⟨s, hs, hpattern⟩ := hfound
      refine Or.inl ⟨s.rule, List.mem_map_of_mem hs, hpattern, wellFormed_shorthand s hs, ?_⟩
      rw [← hpattern, ofText_pattern] at hread
      obtain rfl := Except.ok.inj hread
      exact termOfWord_atom hs
    · refine Or.inr fun r hr u hbegin => ?_
      obtain ⟨s, hs, rfl⟩ := List.mem_map.1 hr
      have hpattern := s.ofText_pattern
      rw [rule] at hbegin
      rw [pattern_eq_print] at hpattern hbegin
      have heq := Term.eq_of_closed hpattern hread hbegin (List.prefix_append _ u)
      exact hfound ⟨s, hs, by rw [pattern_eq_print, heq]⟩

end Shorthand

/-! ## Both -/

theorem Spaced.infix_of_mem {ws : List Text} {t w : Text} (h : Spaced ws t) (hw : w ∈ ws) :
    w <:+: t := by
  induction h with
  | nil => cases hw
  | @cons b v t ws _ _ ih =>
    rcases List.mem_cons.1 hw with rfl | hw
    · exact ⟨b, t, rfl⟩
    · exact (ih hw).trans (List.suffix_append (b ++ v) t).isInfix

/-- Writing an expression over the operators with atoms keeps it: the result is an expression too, and
it is the former one again when the names of shorthands and variables are put back at its leaves. -/
theorem withAtoms_keeps_expression {s : Text} {t : Term} (h : Term.ofText s = .ok t)
    (hheads : ∀ n ∈ t.heads, n ∈ Operator.all.map Operator.name) :
    ∃ u, Term.ofText (withAtoms s) = .ok u ∧
      (u.graft Shorthand.termOfWord).graft Variable.unrenamedLeaf = t := by
  obtain ⟨ht, hs⟩ := Term.ofText_eq_ok_iff.1 h
  obtain ⟨v, hv, hvt, hvs⟩ :=
    Variable.retraced.exists_print Variable.rules_compatible ht hheads (fun _ _ => trivial) hs
  have hvheads : ∀ n ∈ v.heads, n ∈ Operator.all.map Operator.name := fun n hn =>
    hheads n (hvt ▸ Term.heads_subset_graft _ v hn)
  have habsent : ∀ w ∈ v.tokens, ∀ q ∈ Shorthand.all, w ≠ q.atom := by
    rintro w hw q - rfl
    exact (Rewrites.applyAll Variable.rules_compatible s).not_atom q (hvs.infix_of_mem hw)
  obtain ⟨u, hu, huv, hus⟩ :=
    Shorthand.retraced.exists_print Shorthand.rules_compatible hv hvheads habsent hvs
  exact ⟨u, Term.ofText_print hu hus, by rw [huv, hvt]⟩

theorem sum_of_product_is_kept :
    Term.ofText "Add::make(Mul::make(x0, y0), kx0 )" =
        .ok (.call "Add" [.call "Mul" [.leaf "x0", .leaf "y0"], .leaf "kx0"]) ∧
      withAtoms "Add::make(Mul::make(x0, y0), kx0 )" = "Add::make(i32_mul_x0y0, ki32_x0 )".toList ∧
      ∃ u, Term.ofText (withAtoms "Add::make(Mul::make(x0, y0), kx0 )") = .ok u ∧
        (u.graft Shorthand.termOfWord).graft Variable.unrenamedLeaf =
          .call "Add" [.call "Mul" [.leaf "x0", .leaf "y0"], .leaf "kx0"] :=
  ⟨by rfl, by decide, withAtoms_keeps_expression (by rfl) (by decide)⟩

end ReductionTables
