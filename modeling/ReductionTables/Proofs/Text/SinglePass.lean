import ReductionTables.Proofs.Text.Rewriting

/-!
# The single pass

The pass with all rules at once as a function: at each place the first rule that finds something there
is applied, and what it writes is not searched again. Compatible rules applied one after the other do
the same in whatever order they are listed, and where nothing is found a pass keeps the text.
-/

namespace ReductionTables

/-! ## All rules at once -/

namespace Rule

/--
The result of all rules at once on what follows an occurrence of which `skip` characters are still to
be passed over.
-/
def applyAtOnceAfter (rules : List Rule) : Nat → Text → Text
  | _, [] => []
  | skip + 1, _ :: cs => applyAtOnceAfter rules skip cs
  | 0, c :: cs =>
    match rules.find? fun r => r.old.isPrefixOf (c :: cs) with
    | some r => r.new ++ applyAtOnceAfter rules (r.old.length - 1) cs
    | none => c :: applyAtOnceAfter rules 0 cs

/-- Applies all rules at once, in a single pass from left to right. -/
def applyAtOnce (rules : List Rule) (t : Text) : Text := applyAtOnceAfter rules 0 t

end Rule

namespace Rewrites

variable {rules rules' : List Rule} {t u : Text} {r : Rule}

theorem applyAtOnceAfter (hold : ∀ r ∈ rules, r.old ≠ []) (skip : Nat) (t : Text) :
    Rewrites rules (t.drop skip) (Rule.applyAtOnceAfter rules skip t) := by
  induction t generalizing skip with
  | nil =>
    rw [List.drop_nil, Rule.applyAtOnceAfter]
    exact .nil
  | cons c t ih =>
    cases skip with
    | succ skip => exact ih skip
    | zero =>
      rw [List.drop_zero, Rule.applyAtOnceAfter]
      cases hfind : rules.find? fun r => r.old.isPrefixOf (c :: t) with
      | some r =>
        have hr : r ∈ rules := List.mem_of_find?_eq_some hfind
        have hfound : r.old.isPrefixOf (c :: t) = true := by simpa using List.find?_some hfind
        have hbegin : r.old <+: c :: t := List.isPrefixOf_iff_prefix.1 hfound
        have hrest : t.drop (r.old.length - 1) = (c :: t).drop r.old.length := by
          rw [← Nat.sub_add_cancel (List.length_pos_iff.2 (hold r hr)), List.drop_succ_cons,
            Nat.add_sub_cancel]
        have hpass : Rewrites rules (r.old ++ (c :: t).drop r.old.length)
            (r.new ++ Rule.applyAtOnceAfter rules (r.old.length - 1) t) := .hit hr (hrest ▸ ih _)
        rwa [List.prefix_iff_eq_append.1 hbegin] at hpass
      | none =>
        refine .miss (fun r hr hbegin => ?_) (ih 0)
        exact List.find?_eq_none.1 hfind r hr (List.isPrefixOf_iff_prefix.2 hbegin)

theorem applyAtOnce (hold : ∀ r ∈ rules, r.old ≠ []) (t : Text) :
    Rewrites rules t (Rule.applyAtOnce rules t) :=
  applyAtOnceAfter hold 0 t

theorem applyAtOnce_eq (hrules : Rule.Unambiguous rules) (h : Rewrites rules t u) :
    Rule.applyAtOnce rules t = u :=
  unique hrules (applyAtOnce hrules.old_ne_nil t) h

/-! ## The order of rules -/

/-- A pass does not depend on the order in which its rules are listed. -/
theorem of_mem_iff (hmem : ∀ r, r ∈ rules ↔ r ∈ rules') (h : Rewrites rules t u) :
    Rewrites rules' t u := by
  induction h with
  | nil => exact .nil
  | hit hr _ ih => exact .hit ((hmem _).1 hr) ih
  | miss hc _ ih => exact .miss (fun r hr => hc r ((hmem r).2 hr)) ih

/-- A pass whose rules come with their opposites is undone by the same rules. -/
theorem symm (hinverse : ∀ r ∈ rules, r.inverse ∈ rules)
    (hnew : ∀ q ∈ rules, ∀ r ∈ rules, Text.Avoids r.new.tail q.new) (h : Rewrites rules t u) :
    Rewrites rules u t := by
  have hback : Rewrites (rules.map Rule.inverse) u t := by
    refine inverse h fun c t' u' _ hmiss h' r hr hbegin => ?_
    exact hmiss r.inverse (hinverse r hr) (begins_of_new hnew h' hr hbegin)
  refine hback.of_mem_iff fun r => ⟨fun hr => ?_, fun hr => ?_⟩
  · obtain ⟨q, hq, rfl⟩ := List.mem_map.1 hr
    exact hinverse q hq
  · exact List.mem_map.2 ⟨r.inverse, hinverse r hr, rfl⟩

theorem length_le (hle : ∀ r ∈ rules, r.new.length ≤ r.old.length) (h : Rewrites rules t u) :
    u.length ≤ t.length := by
  induction h with
  | nil => exact Nat.le_refl _
  | hit hr _ ih =>
    simp only [List.length_append]
    exact Nat.add_le_add (hle _ hr) ih
  | miss _ _ ih => exact Nat.succ_le_succ ih

/-! ## Texts in which nothing is found -/

theorem self_of_absent {t : Text} (h : ∀ r ∈ rules, ¬ r.old <:+: t) : Rewrites rules t t := by
  induction t with
  | nil => exact .nil
  | cons c t ih =>
    refine .miss (fun r hr hbegin => h r hr hbegin.isInfix) (ih fun r hr hocc => h r hr ?_)
    exact hocc.trans (List.suffix_cons c t).isInfix

/-- A rule that finds nothing can be left out. -/
theorem of_cons_absent (habsent : ¬ r.old <:+: t) (h : Rewrites (r :: rules) t u) :
    Rewrites rules t u := by
  induction h with
  | nil => exact .nil
  | hit hq _ ih =>
    rcases List.mem_cons.1 hq with rfl | hq
    · exact absurd (List.prefix_append _ _).isInfix habsent
    · exact .hit hq (ih fun hocc => habsent (hocc.trans (List.suffix_append _ _).isInfix))
  | miss hc _ ih =>
    refine .miss (fun q hq => hc q (List.mem_cons_of_mem r hq)) (ih fun hocc => habsent ?_)
    exact hocc.trans (List.suffix_cons _ _).isInfix

/-- A pass leaves nothing to be found when what it writes is clear of what it searches for. -/
theorem not_infix_old (hwritten : ∀ q ∈ rules, ∀ r ∈ rules, Text.Avoids q.new r.old)
    (hsearched : ∀ q ∈ rules, ∀ r ∈ rules, Text.Avoids r.old q.new)
    (hold : ∀ r ∈ rules, r.old ≠ []) (h : Rewrites rules t u) (hr : r ∈ rules) :
    ¬ r.old <:+: u := by
  induction h with
  | nil => exact fun hocc => hold r hr (List.infix_nil.1 hocc)
  | hit hq _ ih => exact fun hocc => ih ((hwritten _ hq r hr).of_append hocc)
  | miss hc h ih =>
    intro hocc
    rcases List.infix_cons_iff.1 hocc with hbegin | hocc
    · exact not_begins_old hsearched hold (.miss hc h) hr hbegin
    · exact ih hocc

end Rewrites

/-! ## Compatible rules -/

namespace Rule.Compatible

variable {rules rules' : List Rule}

theorem perm (h : Compatible rules) (hperm : rules.Perm rules') : Compatible rules' where
  old_ne_nil r hr := h.old_ne_nil r (hperm.mem_iff.2 hr)
  apart := (hperm.pairwise_iff fun hqr => ⟨hqr.2, hqr.1⟩).1 h.apart

/-- Compatible rules can be applied in any order. -/
theorem applyAll_perm (h : Compatible rules) (hperm : rules'.Perm rules) (t : Text) :
    applyAll rules' t = applyAll rules t :=
  Rewrites.applyAll_eq (h.perm hperm.symm)
    ((Rewrites.applyAll h t).of_mem_iff fun _ => hperm.symm.mem_iff)

/-- It makes no difference whether they are applied one after the other or at once. -/
theorem applyAtOnce_eq (h : Compatible rules) (t : Text) : applyAtOnce rules t = applyAll rules t :=
  Rewrites.applyAtOnce_eq h.unambiguous (Rewrites.applyAll h t)

theorem applyAll_of_absent (h : Compatible rules) {t : Text} (habsent : ∀ r ∈ rules, ¬ r.old <:+: t) :
    applyAll rules t = t :=
  Rewrites.applyAll_eq h (.self_of_absent habsent)

end Rule.Compatible

end ReductionTables
