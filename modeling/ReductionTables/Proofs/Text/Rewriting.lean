import Mathlib.Data.List.Pairwise
import ReductionTables.Text.Substitution

/-!
# Simultaneous substitution

Rules are applied one after the other, so each searches what the ones before it wrote. When no rule
finds anything that overlaps what another one finds or writes, the result is that of a single pass
with all rules at once, which `Rewrites` describes. A single pass can be undone when nothing that it
leaves alone looks like something that it wrote.
-/

namespace ReductionTables

/-! ## Occurrences across a border -/

namespace Text

/-- No occurrence of `p` begins inside `t`, whatever follows `t`. -/
def Avoids : Text → Text → Prop
  | [], _ => True
  | c :: cs, p => ¬ p <+: c :: cs ∧ ¬ c :: cs <+: p ∧ Avoids cs p

instance decidableAvoids : (t p : Text) → Decidable (Avoids t p)
  | [], _ => isTrue trivial
  | c :: cs, p =>
    have := decidableAvoids cs p
    inferInstanceAs (Decidable (¬ p <+: c :: cs ∧ ¬ c :: cs <+: p ∧ Avoids cs p))

theorem Avoids.not_begins {c : Char} {s p : Text} (h : Avoids (c :: s) p) (t : Text) :
    ¬ p <+: c :: (s ++ t) := by
  intro hp
  rcases List.prefix_or_prefix_of_prefix hp (List.prefix_append (c :: s) t) with h' | h'
  · exact h.1 h'
  · exact h.2.1 h'

theorem Avoids.not_begins_both {s p t : Text} (h : Avoids s p) (hs : s ≠ []) (hst : s <+: t) :
    ¬ p <+: t := by
  obtain ⟨t, rfl⟩ := hst
  cases s with
  | nil => exact absurd rfl hs
  | cons c s => exact h.not_begins t

theorem Avoids.append {s p : Text} (h : Avoids s p) (q : Text) : Avoids s (p ++ q) := by
  induction s with
  | nil => trivial
  | cons c s ih =>
    refine ⟨fun hp => h.1 ((List.prefix_append p q).trans hp), fun hp => ?_, ih h.2.2⟩
    rcases List.prefix_or_prefix_of_prefix hp (List.prefix_append p q) with h' | h'
    · exact h.2.1 h'
    · exact h.1 h'

theorem Avoids.of_tail {s p : Text} (h : Avoids s.tail p) (hlen : s.length = p.length)
    (hne : s ≠ p) : Avoids s p := by
  cases s with
  | nil => trivial
  | cons c s =>
    refine ⟨fun hp => ?_, fun hp => hne (hp.eq_of_length hlen), h⟩
    exact hne (hp.eq_of_length hlen.symm).symm

theorem Avoids.of_append {s p u : Text} (h : Avoids s p) (hocc : p <:+: s ++ u) :
    p <:+: u := by
  induction s with
  | nil => exact hocc
  | cons c s ih =>
    rw [List.cons_append, List.infix_cons_iff] at hocc
    rcases hocc with hbegin | hocc
    · exact absurd hbegin (h.not_begins u)
    · exact ih h.2.2 hocc

end Text

/-! ## One rule -/

namespace Rule

variable {r : Rule}

theorem applyAfter_append (r : Rule) (s t : Text) : r.applyAfter s.length (s ++ t) = r.apply t := by
  induction s with
  | nil => rfl
  | cons c s ih => simpa [applyAfter] using ih

theorem apply_hit (hr : r.old ≠ []) (t : Text) : r.apply (r.old ++ t) = r.new ++ r.apply t := by
  obtain ⟨c, s, hs⟩ := List.exists_cons_of_ne_nil hr
  have hp : r.old.isPrefixOf (c :: (s ++ t)) = true := by
    rw [List.isPrefixOf_iff_prefix, hs]
    exact List.prefix_append (c :: s) t
  rw [hs, List.cons_append, apply, applyAfter, if_pos hp, hs, List.length_cons, Nat.add_sub_cancel,
    applyAfter_append]

theorem apply_miss {c : Char} {t : Text} (h : ¬ r.old <+: c :: t) :
    r.apply (c :: t) = c :: r.apply t := by
  have hp : ¬ r.old.isPrefixOf (c :: t) = true := by rwa [List.isPrefixOf_iff_prefix]
  rw [apply, applyAfter, if_neg hp, apply]

theorem apply_avoiding {s : Text} (h : Text.Avoids s r.old) (t : Text) :
    r.apply (s ++ t) = s ++ r.apply t := by
  induction s with
  | nil => rfl
  | cons c s ih => rw [List.cons_append, apply_miss (h.not_begins t), ih h.2.2, List.cons_append]

theorem forall_mem_applyAfter {p : Char → Prop} (hnew : ∀ c ∈ r.new, p c) {t : Text}
    (ht : ∀ c ∈ t, p c) (skip : Nat) : ∀ c ∈ r.applyAfter skip t, p c := by
  induction t generalizing skip with
  | nil => simp [applyAfter]
  | cons d t ih =>
    obtain ⟨hd, ht⟩ := List.forall_mem_cons.1 ht
    cases skip with
    | zero =>
      rw [applyAfter]
      split
      · exact List.forall_mem_append.2 ⟨hnew, ih ht _⟩
      · exact List.forall_mem_cons.2 ⟨hd, ih ht 0⟩
    | succ skip => exact ih ht skip

/-- Rules write only characters of the text and their own. -/
theorem forall_mem_applyAll {p : Char → Prop} {rules : List Rule}
    (hnew : ∀ r ∈ rules, ∀ c ∈ r.new, p c) {t : Text} (ht : ∀ c ∈ t, p c) :
    ∀ c ∈ applyAll rules t, p c := by
  induction rules generalizing t with
  | nil => exact ht
  | cons r rules ih =>
    obtain ⟨hr, hrules⟩ := List.forall_mem_cons.1 hnew
    exact ih hrules (forall_mem_applyAfter hr ht 0)

theorem not_mem_applyAll {c : Char} {rules : List Rule} (hnew : ∀ r ∈ rules, c ∉ r.new) {t : Text}
    (ht : c ∉ t) : c ∉ applyAll rules t := by
  have hchars : ∀ d ∈ applyAll rules t, d ≠ c :=
    forall_mem_applyAll (p := (· ≠ c)) (fun r hr d hd he => hnew r hr (he ▸ hd))
      fun d hd he => ht (he ▸ hd)
  exact fun hc => hchars c hc rfl

end Rule

/-! ## A single pass with several rules -/

/--
The second text is the first with every occurrence replaced that a pass from left to right meets.
-/
inductive Rewrites (rules : List Rule) : Text → Text → Prop where
  | nil : Rewrites rules [] []
  | hit {r : Rule} {t u : Text} (hr : r ∈ rules) (h : Rewrites rules t u) :
    Rewrites rules (r.old ++ t) (r.new ++ u)
  | miss {c : Char} {t u : Text} (hc : ∀ r ∈ rules, ¬ r.old <+: c :: t) (h : Rewrites rules t u) :
    Rewrites rules (c :: t) (c :: u)

namespace Rewrites

variable {rules : List Rule} {s t u : Text}

theorem cons_left {c : Char} (h : Rewrites rules (c :: t) u) :
    (∃ r ∈ rules, ∃ t' u', c :: t = r.old ++ t' ∧ u = r.new ++ u' ∧ Rewrites rules t' u') ∨
      ((∀ r ∈ rules, ¬ r.old <+: c :: t) ∧ ∃ u', u = c :: u' ∧ Rewrites rules t u') := by
  generalize hs : c :: t = s at h
  cases h with
  | nil => cases hs
  | hit hr h => exact Or.inl ⟨_, hr, _, _, rfl, rfl, h⟩
  | miss hc h => cases hs; exact Or.inr ⟨hc, _, rfl, h⟩

theorem cons_right {c : Char} (h : Rewrites rules t (c :: u)) :
    (∃ r ∈ rules, ∃ t' u', t = r.old ++ t' ∧ c :: u = r.new ++ u' ∧ Rewrites rules t' u') ∨
      ∃ t', t = c :: t' ∧ (∀ r ∈ rules, ¬ r.old <+: t) ∧ Rewrites rules t' u := by
  generalize hs : c :: u = s at h
  cases h with
  | nil => cases hs
  | hit hr h => exact Or.inl ⟨_, hr, _, _, rfl, rfl, h⟩
  | miss hc h => cases hs; exact Or.inr ⟨_, rfl, hc, h⟩

theorem refl : (t : Text) → Rewrites [] t t
  | [] => .nil
  | _ :: t => .miss (by simp) (refl t)

theorem prepend (hs : ∀ r ∈ rules, Text.Avoids s r.old) (h : Rewrites rules t u) :
    Rewrites rules (s ++ t) (s ++ u) := by
  induction s with
  | nil => exact h
  | cons c s ih =>
    exact .miss (fun r hr => (hs r hr).not_begins t) (ih fun r hr => (hs r hr).2.2)

/-- A beginning of the result that no rule can have written a part of was there before the pass. -/
theorem of_prefix_right (hs : ∀ r ∈ rules, Text.Avoids s r.new) (h : Rewrites rules t (s ++ u)) :
    ∃ t', t = s ++ t' ∧ Rewrites rules t' u := by
  induction s generalizing t with
  | nil => exact ⟨t, rfl, h⟩
  | cons c s ih =>
    rcases cons_right h with ⟨r, hr, t', u', -, hu, -⟩ | ⟨t', rfl, -, h'⟩
    · exact absurd (hu ▸ List.prefix_append r.new u') ((hs r hr).not_begins u)
    · obtain ⟨t₁, rfl, h₁⟩ := ih (fun r hr => (hs r hr).2.2) h'
      exact ⟨t₁, rfl, h₁⟩

theorem of_prefix_left (hs : ∀ r ∈ rules, Text.Avoids s r.old) (h : Rewrites rules (s ++ t) u) :
    ∃ u', u = s ++ u' ∧ Rewrites rules t u' := by
  induction s generalizing u with
  | nil => exact ⟨u, rfl, h⟩
  | cons c s ih =>
    rcases cons_left h with ⟨r, hr, t', u', ht, -, -⟩ | ⟨-, u', rfl, h'⟩
    · exact absurd (ht ▸ List.prefix_append r.old t') ((hs r hr).not_begins t)
    · obtain ⟨u₁, rfl, h₁⟩ := ih (fun r hr => (hs r hr).2.2) h'
      exact ⟨u₁, rfl, h₁⟩

end Rewrites

/-! ## Texts that are kept -/

namespace Rewrites

variable {rules : List Rule} {t u : Text}

/-- When what is written is never taken for what was found, a pass keeps a text only by finding
nothing in it. -/
theorem eq_self_iff (hnew : ∀ r ∈ rules, ∀ s s', r.new ++ s ≠ r.old ++ s') (h : Rewrites rules t u) :
    u = t ↔ ∀ r ∈ rules, ¬ r.old <:+: t := by
  induction h with
  | nil =>
    refine iff_of_true rfl fun r hr hocc => ?_
    exact hnew r hr [] r.new (by rw [List.infix_nil.1 hocc, List.append_nil, List.nil_append])
  | hit hr _ =>
    refine iff_of_false (hnew _ hr _ _) fun habsent => ?_
    exact habsent _ hr (List.prefix_append _ _).isInfix
  | miss hc _ ih =>
    simp only [List.cons.injEq, true_and, ih, List.infix_cons_iff, not_or]
    exact forall₂_congr fun r hr => (and_iff_right (hc r hr)).symm

/-- A pass that every rule would leave a trace of has found nothing when there is none. -/
theorem eq_of_untouched (h : Rewrites rules t u) (hnew : ∀ r ∈ rules, ∃ c ∈ r.new, c ∉ u) : u = t := by
  induction h with
  | nil => rfl
  | hit hr _ =>
    obtain ⟨c, hc, hnot⟩ := hnew _ hr
    exact absurd (List.mem_append_left _ hc) hnot
  | miss _ _ ih =>
    rw [ih fun r hr => ?_]
    obtain ⟨c, hc, hnot⟩ := hnew r hr
    exact ⟨c, hc, fun hmem => hnot (List.mem_cons_of_mem _ hmem)⟩

end Rewrites

/-! ## Rules that do not disturb each other -/

namespace Rule

/-- What the first rule finds and writes is clear of what the second one finds. -/
def Clear (q r : Rule) : Prop :=
  Text.Avoids q.new r.old ∧ Text.Avoids r.old q.new ∧ Text.Avoids r.old q.old

instance (q r : Rule) : Decidable (Clear q r) :=
  inferInstanceAs (Decidable (Text.Avoids q.new r.old ∧ Text.Avoids r.old q.new ∧
    Text.Avoids r.old q.old))

/-- Two rules can be applied in either order with the same result. -/
def Apart (q r : Rule) : Prop := Clear q r ∧ Clear r q

instance (q r : Rule) : Decidable (Apart q r) := inferInstanceAs (Decidable (Clear q r ∧ Clear r q))

instance : Std.Symm Apart := ⟨fun _ _ h => ⟨h.2, h.1⟩⟩

/-- Rules of which any two can be applied in either order. -/
structure Compatible (rules : List Rule) : Prop where
  old_ne_nil : ∀ r ∈ rules, r.old ≠ []
  apart : rules.Pairwise Apart

/-- No rule finds something at a place where another one does. -/
structure Unambiguous (rules : List Rule) : Prop where
  old_ne_nil : ∀ r ∈ rules, r.old ≠ []
  eq_of_prefix : ∀ q ∈ rules, ∀ r ∈ rules, q.old <+: r.old → q = r

theorem Unambiguous.eq_of_begins {rules : List Rule} (h : Unambiguous rules) {q r : Rule}
    (hq : q ∈ rules) (hr : r ∈ rules) {t : Text} (hqt : q.old <+: t) (hrt : r.old <+: t) :
    q = r := by
  rcases List.prefix_or_prefix_of_prefix hqt hrt with hqr | hrq
  · exact h.eq_of_prefix q hq r hr hqr
  · exact (h.eq_of_prefix r hr q hq hrq).symm

theorem Compatible.unambiguous {rules : List Rule} (h : Compatible rules) : Unambiguous rules where
  old_ne_nil := h.old_ne_nil
  eq_of_prefix := by
    intro q hq r hr hqr
    by_contra hne
    have hapart : Apart q r := h.apart.forall hq hr hne
    exact hapart.1.2.2.not_begins_both (h.old_ne_nil r hr) (List.prefix_refl _) hqr

end Rule

namespace Rewrites

variable {rules : List Rule} {t u : Text} {r : Rule}

/-- A pass replaces what a rule finds at the beginning. -/
theorem of_hit (hrules : Rule.Unambiguous rules) (hr : r ∈ rules) (h : Rewrites rules (r.old ++ t) u) :
    ∃ u', u = r.new ++ u' ∧ Rewrites rules t u' := by
  obtain ⟨c, s, hs⟩ := List.exists_cons_of_ne_nil (hrules.old_ne_nil r hr)
  have hrt : r.old <+: c :: (s ++ t) := by rw [hs]; exact List.prefix_append (c :: s) t
  have h' : Rewrites rules (c :: (s ++ t)) u := by simpa [hs] using h
  rcases cons_left h' with ⟨q, hq, t', u', ht, rfl, hrest⟩ | ⟨hmiss, -⟩
  · have hqt : q.old <+: c :: (s ++ t) := ht ▸ List.prefix_append q.old t'
    obtain rfl := hrules.eq_of_begins hq hr hqt hrt
    rw [← List.cons_append, ← hs] at ht
    obtain rfl := List.append_cancel_left ht
    exact ⟨u', rfl, hrest⟩
  · exact absurd hrt (hmiss r hr)

theorem unique (hrules : Rule.Unambiguous rules) {u' : Text} (h : Rewrites rules t u)
    (h' : Rewrites rules t u') : u = u' := by
  induction h generalizing u' with
  | nil =>
    generalize hs : ([] : Text) = s at h'
    cases h' with
    | nil => rfl
    | hit hr _ =>
      have hold := (List.append_eq_nil_iff.1 hs.symm).1
      exact absurd hold (hrules.old_ne_nil _ hr)
    | miss => cases hs
  | hit hq _ ih =>
    obtain ⟨v, rfl, hv⟩ := of_hit hrules hq h'
    rw [ih hv]
  | miss hc h ih =>
    rcases cons_left h' with ⟨r, hr, t', u', ht, -, -⟩ | ⟨-, u', rfl, h''⟩
    · exact absurd (ht ▸ List.prefix_append r.old t') (hc r hr)
    · rw [ih h'']

/-- One more rule, applied to the result of a pass, might as well have taken part in it. -/
theorem snoc (hold : ∀ q ∈ rules, q.old ≠ []) (hr : r.old ≠ [])
    (hapart : ∀ q ∈ rules, Rule.Apart q r) (h : Rewrites rules t u) :
    Rewrites (rules ++ [r]) t (r.apply u) := by
  -- After an occurrence of `r` the pass goes on behind it, so the induction is on the length.
  induction hn : t.length using Nat.strongRecOn generalizing t u with
  | ind n ih =>
    cases h with
    | nil => exact .nil
    | @hit q t u hq h =>
      have hlen : t.length < n := by
        have := List.length_pos_iff.2 (hold q hq)
        simp only [List.length_append] at hn
        omega
      rw [Rule.apply_avoiding (hapart q hq).1.1]
      exact .hit (List.mem_append_left _ hq) (ih _ hlen h rfl)
    | @miss c t u hc h =>
      by_cases hru : r.old <+: c :: u
      · obtain ⟨p, hp⟩ : ∃ p, r.old = c :: p := by
          obtain ⟨d, p, hp⟩ := List.exists_cons_of_ne_nil hr
          rw [hp, List.cons_prefix_cons] at hru
          exact ⟨p, by rw [hp, hru.1]⟩
        rw [hp, List.cons_prefix_cons] at hru
        obtain ⟨u, rfl⟩ := hru.2
        have havoid : ∀ q ∈ rules, Text.Avoids p q.new := fun q hq => by
          have := (hapart q hq).1.2.1
          rw [hp] at this
          exact this.2.2
        obtain ⟨t, rfl, h₁⟩ := of_prefix_right havoid h
        have hlen : t.length < n := by
          simp only [List.length_cons, List.length_append] at hn
          omega
        rw [← List.cons_append, ← List.cons_append, ← hp, Rule.apply_hit hr]
        exact .hit (by simp) (ih _ hlen h₁ rfl)
      · have hrt : ¬ r.old <+: c :: t := by
          intro hrt
          obtain ⟨s, hs⟩ := hrt
          have havoid : ∀ q ∈ rules, Text.Avoids r.old q.old := fun q hq => (hapart q hq).1.2.2
          obtain ⟨u', hu', -⟩ := of_prefix_left havoid (hs ▸ Rewrites.miss hc h)
          exact hru (hu' ▸ List.prefix_append r.old u')
        have hlen : t.length < n := by
          simp only [List.length_cons] at hn
          omega
        rw [Rule.apply_miss hru]
        refine .miss (fun q hq => ?_) (ih _ hlen h rfl)
        rcases List.mem_append.1 hq with hq | hq
        · exact hc q hq
        · rw [List.mem_singleton.1 hq]
          exact hrt

/-- Compatible rules applied one after the other do what a single pass does. -/
theorem applyAll (hrules : Rule.Compatible rules) (t : Text) :
    Rewrites rules t (Rule.applyAll rules t) := by
  suffices h : ∀ (todo done : List Rule) (u : Text), Rule.Compatible (done ++ todo) →
      Rewrites done t u → Rewrites (done ++ todo) t (Rule.applyAll todo u) from
    h rules [] t hrules (refl t)
  intro todo
  induction todo with
  | nil => intro done u _ h; simpa [Rule.applyAll] using h
  | cons r todo ih =>
    intro done u hrules h
    have hstep : Rewrites (done ++ [r]) t (r.apply u) := by
      refine snoc (fun q hq => hrules.old_ne_nil q (by simp [hq])) (hrules.old_ne_nil r (by simp))
        (fun q hq => ?_) h
      exact (List.pairwise_append.1 hrules.apart).2.2 q hq r (by simp)
    have := ih (done ++ [r]) (r.apply u) (by simpa using hrules) hstep
    simpa [Rule.applyAll] using this

theorem applyAll_eq (hrules : Rule.Compatible rules) (h : Rewrites rules t u) :
    Rule.applyAll rules t = u :=
  unique hrules.unambiguous (applyAll hrules t) h

end Rewrites

/-! ## Undoing a pass -/

def Rule.inverse (r : Rule) : Rule := ⟨r.new, r.old⟩

namespace Rewrites

variable {rules : List Rule} {t u : Text}

theorem not_begins_old (hclear : ∀ q ∈ rules, ∀ r ∈ rules, Text.Avoids r.old q.new)
    (hold : ∀ r ∈ rules, r.old ≠ []) (h : Rewrites rules t u) {r : Rule} (hr : r ∈ rules) :
    ¬ r.old <+: u := by
  rintro ⟨u', rfl⟩
  obtain ⟨t', rfl, -⟩ := of_prefix_right (fun q hq => hclear q hq r hr) h
  obtain ⟨c, s, hs⟩ := List.exists_cons_of_ne_nil (hold r hr)
  rw [hs, List.cons_append, List.cons_append] at h
  rcases cons_right h with ⟨q, hq, t₁, u₁, -, hu, -⟩ | ⟨-, -, hmiss, -⟩
  · have havoid := hclear q hq r hr
    rw [hs] at havoid
    exact havoid.not_begins u' (hu ▸ List.prefix_append q.new u₁)
  · exact hmiss r hr (hs ▸ List.prefix_append (c :: s) t')

/-- A pass is undone by the opposite rules when nothing begins with a text that they search for at a
character that the pass left alone. -/
theorem inverse (h : Rewrites rules t u)
    (hleft : ∀ c t' u', c :: t' <:+ t → (∀ r ∈ rules, ¬ r.old <+: c :: t') →
      Rewrites rules t' u' → ∀ r ∈ rules, ¬ r.new <+: c :: u') :
    Rewrites (rules.map Rule.inverse) u t := by
  induction h with
  | nil => exact .nil
  | @hit r t u hr h ih =>
    refine hit (r := r.inverse) (List.mem_map_of_mem hr) (ih fun c t' u' ht' => ?_)
    exact hleft c t' u' (ht'.trans (List.suffix_append r.old t))
  | @miss c t u hc h ih =>
    refine .miss (fun q hq => ?_) (ih fun d t' u' ht' => ?_)
    · obtain ⟨r, hr, rfl⟩ := List.mem_map.1 hq
      exact hleft c t u (List.suffix_refl _) hc h r hr
    · exact hleft d t' u' (ht'.trans (List.suffix_cons c t))

/-- What a rule could have written begins at a character that was left alone only if it began there
before the pass. -/
theorem begins_of_new (hnew : ∀ q ∈ rules, ∀ r ∈ rules, Text.Avoids r.new.tail q.new)
    (h : Rewrites rules t u) {c : Char} {r : Rule} (hr : r ∈ rules) (hbegin : r.new <+: c :: u) :
    r.new <+: c :: t := by
  cases hrn : r.new with
  | nil => exact List.nil_prefix
  | cons d p =>
    rw [hrn, List.cons_prefix_cons] at hbegin
    obtain ⟨rfl, u₁, rfl⟩ := hbegin
    have havoid : ∀ q ∈ rules, Text.Avoids p q.new := fun q hq => by
      have := hnew q hq r hr
      rwa [hrn] at this
    obtain ⟨t₁, rfl, -⟩ := of_prefix_right havoid h
    exact List.prefix_append (d :: p) t₁

/-- A pass over a text that holds nothing of what the rules write is undone by the opposite rules. -/
theorem inverse_of_absent (hnew : ∀ q ∈ rules, ∀ r ∈ rules, Text.Avoids r.new.tail q.new)
    (h : Rewrites rules t u) (ht : ∀ r ∈ rules, ¬ r.new <:+: t) :
    Rewrites (rules.map Rule.inverse) u t := by
  refine inverse h fun c t' u' htail _ h' r hr hbegin => ?_
  exact ht r hr ((begins_of_new hnew h' hr hbegin).isInfix.trans htail.isInfix)

/-- A pass that only puts the same mark before every occurrence is undone by the opposite rules. -/
theorem inverse_of_mark (c : Char) (mark : Text) (hrules : Rule.Compatible rules)
    (hnew : ∀ r ∈ rules, r.new = c :: mark ++ r.old)
    (hmark : ∀ r ∈ rules, Text.Avoids mark r.new)
    (hclear : ∀ q ∈ rules, ∀ r ∈ rules, Text.Avoids r.old q.new) (h : Rewrites rules t u) :
    Rewrites (rules.map Rule.inverse) u t := by
  refine inverse h fun d t' u' _ _ h' r hr hbegin => ?_
  rw [hnew r hr, List.cons_append, List.cons_prefix_cons] at hbegin
  obtain ⟨-, u₁, rfl⟩ := hbegin
  rw [List.append_assoc] at h'
  -- Behind the mark the pass would have met the occurrence that it is said to have left.
  obtain ⟨t₁, rfl, h₁⟩ := of_prefix_right hmark h'
  exact not_begins_old hclear hrules.old_ne_nil h₁ hr (List.prefix_append r.old u₁)

end Rewrites

end ReductionTables
