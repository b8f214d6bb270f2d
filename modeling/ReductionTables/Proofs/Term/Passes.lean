import ReductionTables.Proofs.Term.Closed
import ReductionTables.Proofs.Text.Rewriting

/-!
# Passes over printed terms

A pass with rules sees text only. When what it replaces in a print is always a whole constructor with
its arguments, or lies inside one leaf, the result is a print again, and the printed term comes back
when terms are put for the leaves.
-/

namespace ReductionTables

variable {s t u w w' p : Text}

theorem Text.Gap.avoids (hs : Gap s) (hp : ¬ Ends p) : Avoids s p := by
  cases p with
  | nil => exact absurd ends_nil hp
  | cons d q =>
    have hd : isNameCharacter d := by simpa [Ends] using hp
    induction s with
    | nil => trivial
    | cons c s ih =>
      have hcd : c ≠ d := by
        rintro rfl
        exact hs c (by simp) hd
      refine ⟨fun h => ?_, fun h => ?_, ih fun e he => hs e (List.mem_cons_of_mem c he)⟩
      · exact hcd (List.cons_prefix_cons.1 h).1.symm
      · exact hcd (List.cons_prefix_cons.1 h).1

namespace Rewrites

variable {rules : List Rule} {s t u w w' : Text}

/-- Rules that search for names do not see beyond the end of a word. -/
theorem append_of_ends (hold : ∀ r ∈ rules, IsName r.old) (hw : Rewrites rules w w')
    (ht : Text.Ends t) (h : Rewrites rules t u) : Rewrites rules (w ++ t) (w' ++ u) := by
  induction hw with
  | nil => exact h
  | hit hr _ ih =>
    rw [List.append_assoc, List.append_assoc]
    exact .hit hr ih
  | miss hc _ ih => exact .miss (fun r hr hbegin => hc r hr (ht.name_begins (hold r hr) hbegin)) ih

/-- A text in which no rule finds anything, whatever follows, stays as it is. -/
theorem keep (hw : ∀ s, s <:+ w → s ≠ [] → ∀ r ∈ rules, ¬ r.old <+: s ++ t)
    (h : Rewrites rules t u) : Rewrites rules (w ++ t) (w ++ u) := by
  induction w with
  | nil => exact h
  | cons c w ih =>
    refine .miss (hw (c :: w) (List.suffix_refl _) (by simp)) (ih fun s hs => ?_)
    exact hw s (hs.trans (List.suffix_cons c w))

end Rewrites

/-! ## Terms for leaves -/

namespace Term

mutual

/-- The term with terms for the words at its leaves. -/
def graft (g : Text → Term) : Term → Term
  | leaf word => g word
  | call name args => call name (graftList g args)

def graftList (g : Text → Term) : List Term → List Term
  | [] => []
  | t :: ts => t.graft g :: graftList g ts

end

theorem length_graftList (g : Text → Term) (ts : List Term) :
    (graftList g ts).length = ts.length := by
  induction ts with
  | nil => rfl
  | cons t ts ih => simp only [graftList, List.length_cons, ih]

mutual

theorem heads_subset_graft (g : Text → Term) : (t : Term) → t.heads ⊆ (t.graft g).heads
  | leaf _ => by simp only [heads, List.nil_subset]
  | call _ args => by
    simp only [graft, heads]
    exact List.cons_subset_cons _ (headsOfList_subset_graft g args)

theorem headsOfList_subset_graft (g : Text → Term) :
    (ts : List Term) → headsOfList ts ⊆ headsOfList (graftList g ts)
  | [] => by simp only [headsOfList, List.nil_subset]
  | t :: ts => by
    simp only [graftList, headsOfList]
    refine List.append_subset.2 ⟨fun n hn => ?_, fun n hn => ?_⟩
    · exact List.mem_append_left _ (heads_subset_graft g t hn)
    · exact List.mem_append_right _ (headsOfList_subset_graft g ts hn)

end

end Term

/-! ## Passes that can be retraced -/

/-- In front of whatever no word goes on into, the rules turn the first text into the second. -/
def Carries (rules : List Rule) (x y : Text) : Prop :=
  ∀ t u, Text.Ends t → Rewrites rules t u → Rewrites rules (x ++ t) (y ++ u)

/-- In prints of terms with leaves of the kind `p` the rules replace whole constructors or parts of
single leaves, and putting `g` for the leaves gives back what was replaced. -/
structure Retraced (rules : List Rule) (g : Text → Term) (p : Text → Prop) : Prop where
  old_begins : ∀ r ∈ rules, ¬ Text.Ends r.old
  leaf : ∀ w, (Term.leaf w).WellFormed → p w →
    ∃ w', (Term.leaf w').WellFormed ∧ g w' = .leaf w ∧ Carries rules w w'
  head : ∀ o ∈ Operator.all, ∀ r ∈ rules, Text.Avoids (o.name ++ constructorMark).tail r.old
  call : ∀ o ∈ Operator.all, ∀ x t, Term.ofText (o.name ++ constructorMark ++ x ++ [')']) = .ok t →
    (∃ r ∈ rules, r.old = o.name ++ constructorMark ++ x ++ [')'] ∧ (Term.leaf r.new).WellFormed ∧
      g r.new = t) ∨
    ∀ r ∈ rules, ∀ u, ¬ r.old <+: o.name ++ constructorMark ++ x ++ [')'] ++ u

namespace Retraced

variable {rules : List Rule} {g : Text → Term} {p : Text → Prop}

theorem gap (h : Retraced rules g p) {s t u : Text} (hs : Text.Gap s) (ht : Rewrites rules t u) :
    Rewrites rules (s ++ t) (s ++ u) :=
  ht.prepend fun r hr => hs.avoids (h.old_begins r hr)

theorem carries_blanks (h : Retraced rules g p) {b x y b' : Text} (hb : Text.Blanks b)
    (hxy : Carries rules x y) (hb' : Text.Blanks b') :
    Carries rules (b ++ x ++ b') (b ++ y ++ b') := by
  intro t u ht htu
  have hrest := hxy (b' ++ t) (b' ++ u) (hb'.gap.append_ends ht) (h.gap hb'.gap htu)
  simpa only [List.append_assoc] using h.gap hb.gap hrest

theorem carries_hit {r : Rule} (hr : r ∈ rules) : Carries rules r.old r.new :=
  fun _ _ _ htu => .hit hr htu

/-- The constructor stays when nothing is found at its beginning. -/
theorem carries_call (h : Retraced rules g p) {o : Operator} (ho : o ∈ Operator.all)
    {b x y b' : Text} (hb : Text.Blanks b) (hxy : Carries rules x y) (hb' : Text.Blanks b')
    (hmiss : ∀ r ∈ rules, ∀ u,
      ¬ r.old <+: o.name ++ constructorMark ++ (b ++ ['('] ++ x ++ b') ++ [')'] ++ u) :
    Carries rules (o.name ++ constructorMark ++ (b ++ ['('] ++ x ++ b') ++ [')'])
      (o.name ++ constructorMark ++ (b ++ ['('] ++ y ++ b') ++ [')']) := by
  intro t u _ htu
  have hopen : Text.Gap (b ++ ['(']) := hb.gap.append (Text.gap_singleton (by decide))
  have hclose : Text.Gap (b' ++ [')']) := hb'.gap.append (Text.gap_singleton (by decide))
  have hargs : Rewrites rules (x ++ (b' ++ [')'] ++ t)) (y ++ (b' ++ [')'] ++ u)) :=
    hxy _ _ (hclose.ends_append (by simp) t) (h.gap hclose htu)
  have hrest := h.gap hopen hargs
  have htail := hrest.prepend (h.head o ho)
  obtain ⟨c, n, hn⟩ : ∃ c n, o.name ++ constructorMark = c :: n :=
    List.exists_cons_of_ne_nil (by simp [constructorMark])
  rw [hn] at htail hmiss ⊢
  have hall : Rewrites rules (c :: (n ++ (b ++ ['('] ++ (x ++ (b' ++ [')'] ++ t)))))
      (c :: (n ++ (b ++ ['('] ++ (y ++ (b' ++ [')'] ++ u))))) := by
    refine .miss (fun r hr => ?_) htail
    simpa using hmiss r hr t
  simpa using hall

mutual

theorem print (h : Retraced rules g p) : (t : Term) → t.WellFormed →
    (∀ n ∈ t.heads, n ∈ Operator.all.map Operator.name) → (∀ w ∈ t.tokens, p w) →
    ∀ {x : Text}, Spaced t.tokens x →
    ∃ (u : Term) (y : Text), u.WellFormed ∧ u.graft g = t ∧ Spaced u.tokens y ∧ Carries rules x y
  | .leaf w, ht, _, hp, x, hx => by
    obtain ⟨b, b', rfl, hb, hb'⟩ := Spaced.singleton_iff.1 hx
    obtain ⟨w', hw', hg, hcarries⟩ := h.leaf w ht (hp w (by simp [Term.tokens]))
    refine ⟨.leaf w', b ++ w' ++ b', hw', hg, ?_, h.carries_blanks hb hcarries hb'⟩
    exact Spaced.singleton_iff.2 ⟨b, b', rfl, hb, hb'⟩
  | .call name args, ht, hheads, hp, x, hx => by
    obtain ⟨b, b₁, z, b₂, b₃, hb, hb₁, hz, hb₂, hb₃, rfl⟩ := Term.spaced_call_iff.1 hx
    obtain ⟨o, ho, rfl⟩ := List.mem_map.1 (hheads name (by simp [Term.heads]))
    have hread := Term.ofText_print ht (Term.spaced_call o.name hb₁ hz hb₂)
    rcases h.call o ho _ _ hread with ⟨r, hr, hold, hword, hg⟩ | hmiss
    · refine ⟨.leaf r.new, b ++ r.new ++ b₃, hword, hg, ?_, ?_⟩
      · exact Spaced.singleton_iff.2 ⟨b, b₃, rfl, hb, hb₃⟩
      · rw [← hold]
        exact h.carries_blanks hb (carries_hit hr) hb₃
    · obtain ⟨hname, hargs, harity, hwell⟩ := ht
      obtain ⟨us, y, hus, hgraft, hy, hcarries⟩ := h.printList args hwell
        (fun n hn => hheads n (by simp [Term.heads, hn]))
        (fun w hw => hp w (by simp [Term.tokens, hw])) hz
      have hlen : us.length = args.length := by rw [← hgraft, Term.length_graftList]
      have hne : us ≠ [] := by
        rintro rfl
        exact hargs (List.length_eq_zero_iff.1 hlen.symm)
      refine ⟨.call o.name us, _, ⟨hname, hne, fun hop => hlen.trans (harity hop), hus⟩, ?_,
        Term.spaced_call_iff.2 ⟨b, b₁, y, b₂, b₃, hb, hb₁, hy, hb₂, hb₃, rfl⟩, ?_⟩
      · rw [Term.graft, hgraft]
      · exact h.carries_blanks hb (h.carries_call ho hb₁ hcarries hb₂ hmiss) hb₃

theorem printList (h : Retraced rules g p) : (ts : List Term) → Term.WellFormedList ts →
    (∀ n ∈ Term.headsOfList ts, n ∈ Operator.all.map Operator.name) →
    (∀ w ∈ Term.tokensOfList ts, p w) → ∀ {x : Text}, Spaced (Term.tokensOfList ts) x →
    ∃ (us : List Term) (y : Text), Term.WellFormedList us ∧ Term.graftList g us = ts ∧
      Spaced (Term.tokensOfList us) y ∧ Carries rules x y
  | [], _, _, _, x, hx => by
    have hblanks : Text.Blanks x := Spaced.nil_iff.1 hx
    exact ⟨[], x, trivial, rfl, hx, fun t u _ htu => h.gap hblanks.gap htu⟩
  | [s], ht, hheads, hp, x, hx => by
    rw [Term.tokensOfList] at hp hx
    obtain ⟨u, y, hu, hgraft, hy, hcarries⟩ :=
      h.print s ht.1 (fun n hn => hheads n (by simpa [Term.headsOfList] using hn)) hp hx
    exact ⟨[u], y, ⟨hu, trivial⟩, by rw [Term.graftList, Term.graftList, hgraft],
      by rwa [Term.tokensOfList], hcarries⟩
  | s :: s' :: ts, ht, hheads, hp, x, hx => by
    rw [Term.tokensOfList] at hp hx
    obtain ⟨x₁, x₂, rfl, hx₁, hx₂⟩ := hx.split
    obtain ⟨b, x₃, rfl, hb, hx₃⟩ := Spaced.cons_iff.1 hx₂
    obtain ⟨u, y, hu, hgraft, hy, hcarries⟩ := h.print s ht.1
      (fun n hn => hheads n (by simp [Term.headsOfList, hn]))
      (fun w hw => hp w (by simp [hw])) hx₁
    obtain ⟨us, ys, hus, hgrafts, hys, hcarriess⟩ := h.printList (s' :: ts) ht.2
      (fun n hn => hheads n (by rw [Term.headsOfList]; simp [hn]))
      (fun w hw => hp w (by simp [hw])) hx₃
    have hne : us ≠ [] := by
      rintro rfl
      cases hgrafts
    refine ⟨u :: us, y ++ (b ++ [','] ++ ys), ⟨hu, hus⟩, ?_, ?_, ?_⟩
    · rw [Term.graftList, hgraft, hgrafts]
    · rw [Term.tokensOfList_cons hne]
      exact hy.append (.cons hb hys)
    · intro t v ht htv
      have hcomma : Text.Gap (b ++ [',']) := hb.gap.append (Text.gap_singleton (by decide))
      have hrest := h.gap hcomma (hcarriess t v ht htv)
      have hends : Text.Ends (b ++ [','] ++ (x₃ ++ t)) := hcomma.ends_append (by simp) _
      simpa using hcarries _ _ hends hrest

end

/-- The result of a pass over a print is a print of the term with something else at its leaves. -/
theorem exists_print (h : Retraced rules g p) (hrules : Rule.Compatible rules) {t : Term} {x : Text}
    (ht : t.WellFormed) (hheads : ∀ n ∈ t.heads, n ∈ Operator.all.map Operator.name)
    (hp : ∀ w ∈ t.tokens, p w) (hx : Spaced t.tokens x) :
    ∃ u : Term, u.WellFormed ∧ u.graft g = t ∧ Spaced u.tokens (Rule.applyAll rules x) := by
  obtain ⟨u, y, hu, hgraft, hy, hcarries⟩ := h.print t ht hheads hp hx
  have hpass := hcarries [] [] Text.ends_nil .nil
  rw [List.append_nil, List.append_nil] at hpass
  exact ⟨u, hu, hgraft, (Rewrites.applyAll_eq hrules hpass).symm ▸ hy⟩

end Retraced

end ReductionTables
