import ReductionTables.Proofs.Term.Passes

/-!
# Texts rewritten word by word

Rules that search for names change the words of a text and keep what stands between them. A text that
such rules turn into a print was a print before, of a term of the same shape.
-/

namespace ReductionTables

/-! ## First words -/

namespace Text

variable {s t u v w : Text}

/-- A text can be cut behind its first word in one way only. -/
theorem Ends.append_inj (ht : Ends t) (hu : Ends u) (hv : IsName v) (hw : IsName w)
    (h : v ++ t = w ++ u) : v = w ∧ t = u := by
  have hvw : v <+: w := hu.name_begins hv (h ▸ List.prefix_append v t)
  have hwv : w <+: v := ht.name_begins hw (h ▸ List.prefix_append w u)
  obtain rfl := hvw.eq_of_length_le hwv.length_le
  exact ⟨rfl, List.append_cancel_left h⟩

theorem exists_first_word (s : Text) : ∃ w t, s = w ++ t ∧ IsName w ∧ Ends t := by
  induction s with
  | nil => exact ⟨[], [], rfl, by simp [IsName], ends_nil⟩
  | cons c s ih =>
    by_cases hc : isNameCharacter c
    · obtain ⟨w, t, rfl, hw, ht⟩ := ih
      exact ⟨c :: w, t, rfl, List.forall_mem_cons.2 ⟨hc, hw⟩, ht⟩
    · refine ⟨[], c :: s, rfl, by simp [IsName], fun d hd => ?_⟩
      obtain rfl := Option.some.inj hd
      exact hc

end Text

/-! ## Functions on words -/

/-- The function changes every word by itself and keeps what stands between words. It makes names of
names, and it neither removes a colon nor makes a constructor of another word. -/
structure Wordwise (f : Text → Text) : Prop where
  nil : f [] = []
  gap : ∀ c t, ¬ isNameCharacter c → f (c :: t) = c :: f t
  append : ∀ w t, Text.Ends t → f (w ++ t) = f w ++ f t
  eq_nil : ∀ w, f w = [] → w = []
  isName : ∀ w, IsName w → IsName (f w)
  colon : ∀ w, ':' ∈ w → ':' ∈ f w
  mark : ∀ w n, f w = n ++ constructorMark → ∃ m, w = m ++ constructorMark ∧ f m = n

namespace Wordwise

variable {f g : Text → Text} {b s t w : Text}

theorem ends (hf : Wordwise f) (ht : Text.Ends t) : Text.Ends (f t) := by
  cases t with
  | nil =>
    rw [hf.nil]
    exact Text.ends_nil
  | cons c t =>
    have hc : ¬ isNameCharacter c := ht c (by simp)
    rw [hf.gap c t hc]
    exact (Text.gap_singleton hc).ends_append (by simp) (f t)

theorem refl : Wordwise id where
  nil := rfl
  gap _ _ _ := rfl
  append _ _ _ := rfl
  eq_nil _ hw := hw
  isName _ hw := hw
  colon _ hw := hw
  mark _ n hw := ⟨n, hw, rfl⟩

theorem comp (hf : Wordwise f) (hg : Wordwise g) : Wordwise (f ∘ g) where
  nil := by rw [Function.comp, hg.nil, hf.nil]
  gap c t hc := by rw [Function.comp, hg.gap c t hc, hf.gap c (g t) hc]; rfl
  append w t ht := by rw [Function.comp, hg.append w t ht, hf.append (g w) (g t) (hg.ends ht)]; rfl
  eq_nil w hw := hg.eq_nil w (hf.eq_nil (g w) hw)
  isName w hw := hf.isName (g w) (hg.isName w hw)
  colon w hw := hf.colon (g w) (hg.colon w hw)
  mark w n h := by
    obtain ⟨m, hm, rfl⟩ := hf.mark (g w) n h
    obtain ⟨k, rfl, rfl⟩ := hg.mark w m hm
    exact ⟨k, rfl, rfl⟩

/-- What stands before the first word of the result stood there before. -/
theorem exists_of_gap (hf : Wordwise f) (hb : Text.Gap b) (h : f s = b ++ t) :
    ∃ r, s = b ++ r ∧ f r = t := by
  induction b generalizing s with
  | nil => exact ⟨s, rfl, h⟩
  | cons c b ih =>
    obtain ⟨hc, hb⟩ := List.forall_mem_cons.1 hb
    obtain ⟨w, r, rfl, hw, hr⟩ := Text.exists_first_word s
    rw [hf.append w r hr] at h
    cases r with
    | nil =>
      rw [hf.nil, List.append_nil] at h
      exact absurd (hf.isName w hw c (by simp [h])) hc
    | cons d r =>
      have hd : ¬ isNameCharacter d := hr d (by simp)
      have hcut := Text.Ends.append_inj (v := []) ((Text.gap_singleton hc).ends_append (by simp) (b ++ t))
        (hf.ends hr) (by simp [IsName]) (hf.isName w hw) h.symm
      obtain rfl := hf.eq_nil w hcut.1.symm
      rw [hf.gap d r hd] at hcut
      obtain ⟨rfl, hrest⟩ := List.cons.inj hcut.2
      obtain ⟨r, rfl, hr'⟩ := ih hb hrest.symm
      exact ⟨r, rfl, hr'⟩

/-- The first word of the result was the first word before. -/
theorem exists_of_word (hf : Wordwise f) (hw : IsName w) (ht : Text.Ends t) (h : f s = w ++ t) :
    ∃ v r, s = v ++ r ∧ IsName v ∧ f v = w ∧ f r = t := by
  obtain ⟨v, r, rfl, hv, hr⟩ := Text.exists_first_word s
  rw [hf.append v r hr] at h
  obtain ⟨hword, hrest⟩ := (hf.ends hr).append_inj ht (hf.isName v hv) hw h
  exact ⟨v, r, rfl, hv, hword, hrest⟩

end Wordwise

/-! ## Rules for words -/

namespace Rewrites

variable {rules : List Rule} {s t u : Text} {c : Char}

theorem eq_nil (hnew : ∀ r ∈ rules, r.new ≠ []) (h : Rewrites rules t []) : t = [] := by
  generalize hu : ([] : Text) = u at h
  cases h with
  | nil => rfl
  | hit hr _ => exact absurd (List.append_eq_nil_iff.1 hu.symm).1 (hnew _ hr)
  | miss => cases hu

theorem mem_right (hold : ∀ r ∈ rules, c ∉ r.old) (h : Rewrites rules t u) (hc : c ∈ t) : c ∈ u := by
  induction h with
  | nil => exact hc
  | hit hr _ ih =>
    rcases List.mem_append.1 hc with hc | hc
    · exact absurd hc (hold _ hr)
    · exact List.mem_append_right _ (ih hc)
  | miss _ _ ih =>
    rcases List.mem_cons.1 hc with rfl | hc
    · simp
    · exact List.mem_cons_of_mem _ (ih hc)

/-- An ending of the result was there before the pass when no rule writes any of its characters. -/
theorem of_suffix_right (hnew : ∀ r ∈ rules, r.new ≠ []) (hs : ∀ r ∈ rules, ∀ c ∈ s, c ∉ r.new)
    (h : Rewrites rules t (u ++ s)) : ∃ t', t = t' ++ s ∧ Rewrites rules t' u := by
  generalize hx : u ++ s = x at h
  induction h generalizing u s with
  | nil =>
    obtain ⟨rfl, rfl⟩ := List.append_eq_nil_iff.1 hx
    exact ⟨[], rfl, .nil⟩
  | @hit r t x hr h ih =>
    rcases List.append_eq_append_iff.1 hx with ⟨p, hp, rfl⟩ | ⟨p, rfl, rfl⟩
    · -- No rule has written across the beginning of the ending, so the occurrence stands before it.
      have hnil : p = [] := List.eq_nil_iff_forall_not_mem.2 fun c hc =>
        hs r hr c (List.mem_append_left _ hc) (hp ▸ List.mem_append_right _ hc)
      subst hnil
      obtain ⟨t', rfl, h'⟩ := ih (u := []) (s := x) hs rfl
      refine ⟨r.old ++ t', (List.append_assoc _ _ _).symm, ?_⟩
      rw [List.append_nil] at hp
      simpa [hp] using hit hr h'
    · obtain ⟨t', rfl, h'⟩ := ih hs rfl
      exact ⟨r.old ++ t', (List.append_assoc _ _ _).symm, .hit hr h'⟩
  | @miss c t x hc h ih =>
    cases u with
    | nil =>
      obtain rfl : s = c :: x := hx
      obtain ⟨t', rfl, h'⟩ := ih (u := []) (s := x)
        (fun r hr d hd => hs r hr d (List.mem_cons_of_mem c hd)) rfl
      rw [eq_nil hnew h']
      exact ⟨[], rfl, .nil⟩
    | cons d u =>
      obtain ⟨rfl, rfl⟩ := List.cons.inj hx
      obtain ⟨t', rfl, h'⟩ := ih hs rfl
      exact ⟨d :: t', rfl, .miss (fun r hr hbegin => hc r hr (hbegin.trans (List.prefix_append _ s))) h'⟩

end Rewrites

/-- The rule replaces names by names and leaves constructors what they are. -/
structure Rule.ForWords (r : Rule) : Prop where
  old_ne_nil : r.old ≠ []
  old_isName : IsName r.old
  old_colon : ':' ∉ r.old
  new_ne_nil : r.new ≠ []
  new_isName : IsName r.new
  new_mark : ∀ c ∈ constructorMark, c ∉ r.new

instance (r : Rule) : Decidable r.ForWords :=
  decidable_of_iff
    ((r.old ≠ [] ∧ r.old.all isNameCharacter ∧ ':' ∉ r.old) ∧
      r.new ≠ [] ∧ r.new.all isNameCharacter ∧ constructorMark.all (· ∉ r.new))
    ⟨fun ⟨⟨hold, hname, hcolon⟩, hnew, hname', hmark⟩ =>
        ⟨hold, isName_of_all hname, hcolon, hnew, isName_of_all hname', by simpa using hmark⟩,
      fun h => ⟨⟨h.old_ne_nil, List.all_eq_true.2 h.old_isName, h.old_colon⟩, h.new_ne_nil,
        List.all_eq_true.2 h.new_isName, by simpa using h.new_mark⟩⟩

theorem Rule.ForWords.rewrites {r : Rule} (hr : r.ForWords) (t : Text) : Rewrites [r] t (r.apply t) :=
  Rewrites.applyAll ⟨by simpa using hr.old_ne_nil, by simp⟩ t

theorem Rule.ForWords.apply_eq {r : Rule} (hr : r.ForWords) {t u : Text} (h : Rewrites [r] t u) :
    r.apply t = u :=
  Rewrites.applyAll_eq ⟨by simpa using hr.old_ne_nil, by simp⟩ h

theorem Wordwise.apply {r : Rule} (hr : r.ForWords) : Wordwise r.apply where
  nil := rfl
  gap c t hc := by
    refine Rule.apply_miss fun hbegin => ?_
    obtain ⟨d, p, hp⟩ := List.exists_cons_of_ne_nil hr.old_ne_nil
    rw [hp, List.cons_prefix_cons] at hbegin
    exact hc (hbegin.1 ▸ hr.old_isName d (by simp [hp]))
  append w t ht := hr.apply_eq <|
    (hr.rewrites w).append_of_ends (by simpa using hr.old_isName) ht (hr.rewrites t)
  eq_nil w hw := (hw ▸ hr.rewrites w).eq_nil (by simpa using hr.new_ne_nil)
  isName w hw := Rule.forall_mem_applyAfter hr.new_isName hw 0
  colon w := (hr.rewrites w).mem_right (by simpa using hr.old_colon)
  mark w n hn := by
    obtain ⟨m, rfl, hm⟩ := (hn ▸ hr.rewrites w).of_suffix_right (by simpa using hr.new_ne_nil)
      (by simpa using hr.new_mark)
    exact ⟨m, rfl, hr.apply_eq hm⟩

/-- So do several such rules, whether or not one finds what another one wrote. -/
theorem Wordwise.applyAll {rules : List Rule} (h : ∀ r ∈ rules, r.ForWords) :
    Wordwise (Rule.applyAll rules) := by
  induction rules with
  | nil => exact .refl
  | cons r rules ih =>
    obtain ⟨hr, hrules⟩ := List.forall_mem_cons.1 h
    exact (ih hrules).comp (.apply hr)

/-! ## Terms word by word -/

namespace Term

mutual

/-- The term with its words changed, those of the leaves and the names of the constructors. -/
def mapWords (f : Text → Text) : Term → Term
  | leaf word => leaf (f word)
  | call name args => call (f name) (mapWordsOfList f args)

def mapWordsOfList (f : Text → Text) : List Term → List Term
  | [] => []
  | t :: ts => t.mapWords f :: mapWordsOfList f ts

end

theorem length_mapWordsOfList (f : Text → Text) (ts : List Term) :
    (mapWordsOfList f ts).length = ts.length := by
  induction ts with
  | nil => rfl
  | cons t ts ih => simp only [mapWordsOfList, List.length_cons, ih]

mutual

theorem heads_mapWords (f : Text → Text) : (t : Term) → (t.mapWords f).heads = t.heads.map f
  | leaf _ => rfl
  | call _ args => by simp only [mapWords, heads, List.map_cons, headsOfList_mapWords f args]

theorem headsOfList_mapWords (f : Text → Text) :
    (ts : List Term) → headsOfList (mapWordsOfList f ts) = (headsOfList ts).map f
  | [] => rfl
  | t :: ts => by
    simp only [mapWordsOfList, headsOfList, List.map_append, heads_mapWords f t,
      headsOfList_mapWords f ts]

end

mutual

theorem leaves_mapWords (f : Text → Text) : (t : Term) → (t.mapWords f).leaves = t.leaves.map f
  | leaf _ => rfl
  | call _ args => by simp only [mapWords, leaves, leavesOfList_mapWords f args]

theorem leavesOfList_mapWords (f : Text → Text) :
    (ts : List Term) → leavesOfList (mapWordsOfList f ts) = (leavesOfList ts).map f
  | [] => rfl
  | t :: ts => by
    simp only [mapWordsOfList, leavesOfList, List.map_append, leaves_mapWords f t,
      leavesOfList_mapWords f ts]

end

end Term

/-! ## What was printed before -/

namespace Wordwise

variable {f : Text → Text}

mutual

/-- When the result begins with a print, so did the text before. -/
theorem exists_of_print (hf : Wordwise f) : (u : Term) → u.WellFormed →
    (∀ n ∈ u.heads, (Operator.ofName? n).isSome) → ∀ {y s z : Text}, Spaced u.tokens y →
    Text.Ends z → f s = y ++ z → ∃ (t : Term) (x r : Text), s = x ++ r ∧ f r = z ∧
      t.WellFormed ∧ t.mapWords f = u ∧ Spaced t.tokens x
  | .leaf w, hu, _, y, s, z, hy, hz, h => by
    obtain ⟨b, b', rfl, hb, hb'⟩ := Spaced.singleton_iff.1 hy
    simp only [List.append_assoc] at h
    obtain ⟨s₁, rfl, h₁⟩ := hf.exists_of_gap hb.gap h
    obtain ⟨v, s₂, rfl, hv, rfl, h₂⟩ := hf.exists_of_word hu.2.1 (hb'.gap.append_ends hz) h₁
    obtain ⟨r, rfl, hr⟩ := hf.exists_of_gap hb'.gap h₂
    refine ⟨.leaf v, b ++ v ++ b', r, by simp, hr, ⟨?_, hv, fun hc => hu.2.2 (hf.colon v hc)⟩, rfl,
      Spaced.singleton_iff.2 ⟨b, b', rfl, hb, hb'⟩⟩
    rintro rfl
    exact hu.1 hf.nil
  | .call name args, hu, hheads, y, s, z, hy, hz, h => by
    obtain ⟨hname, hargs, harity, hwell⟩ := hu
    obtain ⟨b, b₁, y', b₂, b₃, hb, hb₁, hy', hb₂, hb₃, rfl⟩ := Term.spaced_call_iff.1 hy
    have hopen : Text.Gap (b₁ ++ ['(']) := hb₁.gap.append (Text.gap_singleton (by decide))
    have hclose : Text.Gap (b₂ ++ [')']) := hb₂.gap.append (Text.gap_singleton (by decide))
    have h' : f s = b ++ ((name ++ constructorMark) ++ ((b₁ ++ ['(']) ++
        (y' ++ ((b₂ ++ [')']) ++ (b₃ ++ z))))) := by simpa using h
    obtain ⟨s₁, rfl, h₁⟩ := hf.exists_of_gap hb.gap h'
    obtain ⟨v, s₂, rfl, hv, hword, h₂⟩ := hf.exists_of_word (hname.append isName_constructorMark)
      (hopen.ends_append (by simp) _) h₁
    obtain ⟨m, rfl, rfl⟩ := hf.mark v name hword
    obtain ⟨s₃, rfl, h₃⟩ := hf.exists_of_gap hopen h₂
    obtain ⟨ts, x, s₄, rfl, h₄, hts, rfl, hx⟩ := hf.exists_of_prints args hwell
      (fun n hn => hheads n (by simp [Term.heads, hn])) hy' (hclose.ends_append (by simp) _) h₃
    obtain ⟨s₅, rfl, h₅⟩ := hf.exists_of_gap hclose h₄
    obtain ⟨r, rfl, hr⟩ := hf.exists_of_gap hb₃.gap h₅
    rw [Term.length_mapWordsOfList] at harity
    have hm : IsName m := fun c hc => hv c (List.mem_append_left _ hc)
    have hlen : ts.length = 2 := harity (hheads (f m) (by simp [Term.heads]))
    have hne : ts ≠ [] := List.ne_nil_of_length_eq_add_one hlen
    exact ⟨.call m ts, _, r, by simp, hr, ⟨hm, hne, fun _ => hlen, hts⟩, rfl,
      Term.spaced_call_iff.2 ⟨b, b₁, x, b₂, b₃, hb, hb₁, hx, hb₂, hb₃, rfl⟩⟩

theorem exists_of_prints (hf : Wordwise f) : (us : List Term) → Term.WellFormedList us →
    (∀ n ∈ Term.headsOfList us, (Operator.ofName? n).isSome) → ∀ {y s z : Text},
    Spaced (Term.tokensOfList us) y → Text.Ends z → f s = y ++ z →
    ∃ (ts : List Term) (x r : Text), s = x ++ r ∧ f r = z ∧ Term.WellFormedList ts ∧
      Term.mapWordsOfList f ts = us ∧ Spaced (Term.tokensOfList ts) x
  | [], _, _, y, s, z, hy, _, h => by
    have hblanks : Text.Blanks y := Spaced.nil_iff.1 hy
    obtain ⟨r, rfl, hr⟩ := hf.exists_of_gap hblanks.gap h
    exact ⟨[], y, r, rfl, hr, trivial, rfl, hy⟩
  | [u], hu, hheads, y, s, z, hy, hz, h => by
    rw [Term.tokensOfList] at hy
    obtain ⟨t, x, r, rfl, hr, ht, rfl, hx⟩ := hf.exists_of_print u hu.1
      (fun n hn => hheads n (by simpa [Term.headsOfList] using hn)) hy hz h
    exact ⟨[t], x, r, rfl, hr, ⟨ht, trivial⟩, rfl, by rwa [Term.tokensOfList]⟩
  | u :: u' :: us, hu, hheads, y, s, z, hy, hz, h => by
    rw [Term.tokensOfList] at hy
    obtain ⟨y₁, y₂, rfl, hy₁, hy₂⟩ := hy.split
    obtain ⟨b, y₃, rfl, hb, hy₃⟩ := Spaced.cons_iff.1 hy₂
    have hcomma : Text.Gap (b ++ [',']) := hb.gap.append (Text.gap_singleton (by decide))
    have h' : f s = y₁ ++ ((b ++ [',']) ++ (y₃ ++ z)) := by simpa using h
    obtain ⟨t, x, s₁, rfl, h₁, ht, rfl, hx⟩ := hf.exists_of_print u hu.1
      (fun n hn => hheads n (by simp [Term.headsOfList, hn])) hy₁
      (hcomma.ends_append (by simp) _) h'
    obtain ⟨s₂, rfl, h₂⟩ := hf.exists_of_gap hcomma h₁
    obtain ⟨ts, xs, r, rfl, hr, hts, hmap, hxs⟩ := hf.exists_of_prints (u' :: us) hu.2
      (fun n hn => hheads n (by rw [Term.headsOfList]; simp [hn])) hy₃ hz h₂
    have hne : ts ≠ [] := by
      rintro rfl
      cases hmap
    refine ⟨t :: ts, x ++ (b ++ [','] ++ xs), r, by simp, hr, ⟨ht, hts⟩, ?_, ?_⟩
    · rw [Term.mapWordsOfList, hmap]
    · rw [Term.tokensOfList_cons hne]
      exact hx.append (.cons hb hxs)

end

/-- A text that is read as a term over operators after its words were changed could be read before. -/
theorem exists_of_ofText (hf : Wordwise f) {s : Text} {u : Term} (h : Term.ofText (f s) = .ok u)
    (hheads : ∀ n ∈ u.heads, (Operator.ofName? n).isSome) :
    ∃ t, Term.ofText s = .ok t ∧ t.mapWords f = u := by
  obtain ⟨hu, hs⟩ := Term.ofText_eq_ok_iff.1 h
  obtain ⟨t, x, r, rfl, hr, ht, hmap, hx⟩ :=
    hf.exists_of_print u hu hheads hs Text.ends_nil (List.append_nil _).symm
  obtain rfl := hf.eq_nil r hr
  exact ⟨t, Term.ofText_print ht (by rwa [List.append_nil]), hmap⟩

end Wordwise

end ReductionTables
