import ReductionTables.Proofs.Term.Words
import ReductionTables.Row.Atom
import ReductionTables.Verdict.Basic

/-!
# The exchange of the first two variables

The exchange by way of a placeholder does what a single pass with three rules does: it exchanges the
names of the two variables, inside longer names as well, and besides it takes the underscore from
`_x0`, which the placeholder is mistaken for.
-/

namespace ReductionTables

variable {t u w : Text} {c d : Char}

/-! ## A single pass -/

/-- The first step: the placeholder stands for y0. -/
def setAside : Rule := ⟨"y0", "_y0"⟩

/-- The second step: x0 gets the name that has become free. -/
def moveOver : Rule := ⟨"x0", "y0"⟩

/-- The last step: the placeholder gets the name that x0 had. -/
def putBack : Rule := ⟨"_y0", "x0"⟩

theorem exchange_eq (t : Text) : exchange t = putBack.apply (moveOver.apply (setAside.apply t)) := rfl

theorem setAside_forWords : setAside.ForWords := by decide

theorem moveOver_forWords : moveOver.ForWords := by decide

/-- What the exchange finds, and what it leaves there. -/
def exchangePass : List Rule := [⟨"_x0", "x0"⟩, ⟨"x0", "y0"⟩, ⟨"y0", "x0"⟩]

theorem exchange_hit : ∀ r ∈ exchangePass, ∀ t, exchange (r.old ++ t) = r.new ++ exchange t := by
  have hmarked (t : Text) : exchange ("_x0".toList ++ t) = "x0".toList ++ exchange t := by
    have hmove (s : Text) : moveOver.apply ("_x0".toList ++ s) = "_y0".toList ++ moveOver.apply s :=
      (Rule.apply_avoiding (s := ['_']) (by decide) (moveOver.old ++ s)).trans
        (congrArg (List.cons '_') (Rule.apply_hit (by decide) s))
    rw [exchange_eq, Rule.apply_avoiding (by decide), hmove]
    exact Rule.apply_hit (r := putBack) (by decide) _
  have hfirst (t : Text) : exchange (moveOver.old ++ t) = "y0".toList ++ exchange t := by
    rw [exchange_eq, Rule.apply_avoiding (by decide), Rule.apply_hit (by decide)]
    exact Rule.apply_avoiding (r := putBack) (by decide) _
  have hsecond (t : Text) : exchange (setAside.old ++ t) = "x0".toList ++ exchange t := by
    rw [exchange_eq, Rule.apply_hit (by decide), Rule.apply_avoiding (by decide)]
    exact Rule.apply_hit (r := putBack) (by decide) _
  exact List.forall_mem_cons.2
    ⟨hmarked, List.forall_mem_cons.2 ⟨hfirst, List.forall_mem_singleton.2 hsecond⟩⟩

/-- Setting y0 aside makes no x0. -/
theorem moveOver_old_prefix (h : moveOver.old <+: setAside.apply t) : moveOver.old <+: t := by
  obtain ⟨u, hu⟩ := h
  have hpass := hu ▸ setAside_forWords.rewrites t
  obtain ⟨t', rfl, -⟩ := hpass.of_prefix_right (by decide)
  exact List.prefix_append _ t'

/-- After the first two steps y0 only begins what x0 began before them. -/
theorem prefix_of_moveOver (h : moveOver.new <+: moveOver.apply (setAside.apply t)) :
    moveOver.old <+: t := by
  obtain ⟨u, hu⟩ := h
  have hpass := hu ▸ moveOver_forWords.rewrites (setAside.apply t)
  rcases hpass.cons_right with ⟨r, hr, s, u', hs, -, -⟩ | ⟨s, hs, -, hrest⟩
  · obtain rfl := List.mem_singleton.1 hr
    exact moveOver_old_prefix (hs ▸ List.prefix_append _ s)
  · obtain ⟨s', rfl, -⟩ := Rewrites.of_prefix_right (s := ['0']) (by decide) hrest
    -- No y0 is left where the placeholder was put.
    have habsent := (setAside_forWords.rewrites t).not_begins_old (by decide) (by decide)
      (r := setAside) List.mem_cons_self
    exact absurd (hs ▸ List.prefix_append _ s') habsent

theorem exchange_miss (h : ∀ r ∈ exchangePass, ¬ r.old <+: c :: t) :
    exchange (c :: t) = c :: exchange t := by
  have hsetAside : setAside.apply (c :: t) = c :: setAside.apply t :=
    Rule.apply_miss (h ⟨"y0", "x0"⟩ (by decide))
  have hmoveOver : moveOver.apply (c :: setAside.apply t) = c :: moveOver.apply (setAside.apply t) := by
    refine Rule.apply_miss fun hbegin => h ⟨"x0", "y0"⟩ (by decide) ?_
    exact moveOver_old_prefix (hsetAside ▸ hbegin)
  rw [exchange_eq, hsetAside, hmoveOver]
  refine Rule.apply_miss fun hbegin => h ⟨"_x0", "x0"⟩ (by decide) ?_
  obtain ⟨rfl, hrest⟩ := List.cons_prefix_cons.1 hbegin
  exact List.cons_prefix_cons.2 ⟨rfl, prefix_of_moveOver hrest⟩

theorem rewrites_exchange (t : Text) : Rewrites exchangePass t (exchange t) := by
  -- An occurrence is passed over as a whole, so the induction is on the length.
  induction hn : t.length using Nat.strongRecOn generalizing t with
  | ind n ih =>
    by_cases hhit : ∃ r ∈ exchangePass, r.old <+: t
    · obtain ⟨r, hr, s, rfl⟩ := hhit
      have hold : ∀ r ∈ exchangePass, r.old ≠ [] := by decide
      have hlen : s.length < n := by
        have := List.length_pos_iff.2 (hold r hr)
        simp only [List.length_append] at hn
        omega
      rw [exchange_hit r hr]
      exact .hit hr (ih _ hlen s rfl)
    · cases t with
      | nil => exact .nil
      | cons c t =>
        have hmiss : ∀ r ∈ exchangePass, ¬ r.old <+: c :: t := fun r hr hbegin => hhit ⟨r, hr, hbegin⟩
        rw [exchange_miss hmiss]
        exact .miss hmiss (ih _ (by rw [← hn, List.length_cons]; omega) t rfl)

/-! ## What is kept -/

/-- The exchange keeps a text exactly when neither variable is named in it. -/
theorem exchange_eq_self_iff :
    exchange t = t ↔ ¬ "x0".toList <:+: t ∧ ¬ "y0".toList <:+: t := by
  have hnew : ∀ r ∈ exchangePass, ∀ s s', r.new ++ s ≠ r.old ++ s' := by
    simp [exchangePass]
  have hmarked (h : ¬ "x0".toList <:+: t) : ¬ "_x0".toList <:+: t := fun hocc =>
    h ((List.suffix_cons '_' "x0".toList).isInfix.trans hocc)
  rw [Rewrites.eq_self_iff hnew (rewrites_exchange t), exchangePass]
  simp only [List.forall_mem_cons, List.not_mem_nil, false_implies, implies_true, and_true]
  exact ⟨fun h => h.2, fun h => ⟨hmarked h.1, h⟩⟩

theorem exchange_eq_of_untouched (hx : 'x' ∉ exchange t) (hy : 'y' ∉ exchange t) : exchange t = t :=
  (rewrites_exchange t).eq_of_untouched <| List.forall_mem_cons.2
    ⟨⟨'x', by decide, hx⟩, List.forall_mem_cons.2 ⟨⟨'y', by decide, hy⟩,
      List.forall_mem_singleton.2 ⟨'x', by decide, hx⟩⟩⟩

/-! ## Words -/

theorem exchangeRules_forWords : ∀ r ∈ exchangeRules, r.ForWords := by decide

theorem wordwise_exchange : Wordwise exchange := .applyAll exchangeRules_forWords

theorem colon_not_mem_exchange (hw : ':' ∉ w) : ':' ∉ exchange w := by
  have hnew : ∀ r ∈ exchangeRules, ':' ∉ r.new := by decide
  exact Rule.not_mem_applyAll hnew hw

theorem Operator.exchange_name : ∀ o ∈ all, exchange o.name = o.name := by decide

/-- The word with the names of the first two variables exchanged, if it is one of them. -/
def exchangeName (w : Text) : Text :=
  if w = Variable.x0.name then Variable.y0.name else
    if w = Variable.y0.name then Variable.x0.name else w

/-- A name of two characters was kept or written by one of the rules. -/
theorem exchange_eq_pair (hd : ∀ r ∈ exchangePass, Text.Avoids [d] r.new) (h : exchange w = [c, d]) :
    w = [c, d] ∨ ∃ r ∈ exchangePass, r.new = [c, d] ∧ r.old = w := by
  have hlength : ∀ r ∈ exchangePass, r.new.length = 2 := by decide
  have hnew : ∀ r ∈ exchangePass, r.new ≠ [] := by decide
  rcases (h ▸ rewrites_exchange w).cons_right with ⟨r, hr, t, u, rfl, hu, hrest⟩ | ⟨t, rfl, -, hrest⟩
  · have hnil : u = [] := by
      have hlen := congrArg List.length hu
      rw [List.length_append, hlength r hr] at hlen
      exact List.length_eq_zero_iff.1 (Nat.add_left_cancel hlen).symm
    subst hnil
    rw [hrest.eq_nil hnew, List.append_nil]
    exact Or.inr ⟨r, hr, by rw [hu, List.append_nil], rfl⟩
  · obtain ⟨s, rfl, hs⟩ := hrest.of_prefix_right (s := [d]) hd
    exact Or.inl (by rw [hs.eq_nil hnew]; rfl)

/-- The variables stay variables, and `_x0` becomes one. -/
theorem exchange_mem_variables_iff :
    exchange w ∈ Variable.all.map Variable.name ↔ w ∈ Variable.all.map Variable.name ∨ w = "_x0" := by
  constructor
  · intro h
    obtain ⟨v, hmem, hv⟩ := List.mem_map.1 h
    have hpair : ∃ c d, v.name = [c, d] ∧ ∀ r ∈ exchangePass, Text.Avoids [d] r.new := by
      cases v
      exacts [⟨'x', '0', rfl, by decide⟩, ⟨'y', '0', rfl, by decide⟩, ⟨'x', '1', rfl, by decide⟩,
        ⟨'y', '1', rfl, by decide⟩]
    obtain ⟨c, d, hname, hd⟩ := hpair
    rcases exchange_eq_pair hd (hv.symm.trans hname) with rfl | ⟨r, hr, -, rfl⟩
    · exact Or.inl (hname ▸ List.mem_map_of_mem hmem)
    · have hold : ∀ r ∈ exchangePass, r.old ∈ Variable.all.map Variable.name ∨ r.old = "_x0" := by
        decide
      exact hold r hr
  · have hvariables : ∀ w ∈ Variable.all.map Variable.name,
        exchange w ∈ Variable.all.map Variable.name := by decide
    rintro (h | rfl)
    · exact hvariables w h
    · decide

end ReductionTables
