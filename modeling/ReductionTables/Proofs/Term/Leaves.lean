import ReductionTables.Proofs.Term.Words

/-!
# Leaves changed word by word

A change of words that keeps the constructors of an expression changes its leaves and nothing else:
the result is read as a term of the same shape, with the same constructors.
-/

namespace ReductionTables

namespace Term

variable {f g : Text → Text}

mutual

/-- The term with its leaves changed. -/
def mapLeaves (f : Text → Text) : Term → Term
  | leaf word => leaf (f word)
  | call name args => call name (mapLeavesOfList f args)

def mapLeavesOfList (f : Text → Text) : List Term → List Term
  | [] => []
  | t :: ts => t.mapLeaves f :: mapLeavesOfList f ts

end

theorem length_mapLeavesOfList (f : Text → Text) (ts : List Term) :
    (mapLeavesOfList f ts).length = ts.length := by
  induction ts with
  | nil => rfl
  | cons t ts ih => simp only [mapLeavesOfList, List.length_cons, ih]

mutual

theorem heads_mapLeaves (f : Text → Text) : (t : Term) → (t.mapLeaves f).heads = t.heads
  | leaf _ => rfl
  | call _ args => by simp only [mapLeaves, heads, headsOfList_mapLeaves f args]

theorem headsOfList_mapLeaves (f : Text → Text) :
    (ts : List Term) → headsOfList (mapLeavesOfList f ts) = headsOfList ts
  | [] => rfl
  | t :: ts => by
    simp only [mapLeavesOfList, headsOfList, heads_mapLeaves f t, headsOfList_mapLeaves f ts]

end

mutual

theorem leaves_mapLeaves (f : Text → Text) : (t : Term) → (t.mapLeaves f).leaves = t.leaves.map f
  | leaf _ => rfl
  | call _ args => by simp only [mapLeaves, leaves, leavesOfList_mapLeaves f args]

theorem leavesOfList_mapLeaves (f : Text → Text) :
    (ts : List Term) → leavesOfList (mapLeavesOfList f ts) = (leavesOfList ts).map f
  | [] => rfl
  | t :: ts => by
    simp only [mapLeavesOfList, leavesOfList, List.map_append, leaves_mapLeaves f t,
      leavesOfList_mapLeaves f ts]

end

mutual

/-- A term tells what was done to each of its leaves. -/
theorem mapLeaves_eq_iff : (t : Term) → (t.mapLeaves f = t.mapLeaves g ↔ ∀ w ∈ t.leaves, f w = g w)
  | leaf w => by simp only [mapLeaves, leaf.injEq, leaves, List.forall_mem_singleton]
  | call _ args => by
    simp only [mapLeaves, call.injEq, true_and, leaves, mapLeavesOfList_eq_iff args]

theorem mapLeavesOfList_eq_iff : (ts : List Term) →
    (mapLeavesOfList f ts = mapLeavesOfList g ts ↔ ∀ w ∈ leavesOfList ts, f w = g w)
  | [] => by simp [mapLeavesOfList, leavesOfList]
  | t :: ts => by
    simp only [mapLeavesOfList, List.cons.injEq, leavesOfList, List.forall_mem_append,
      mapLeaves_eq_iff t, mapLeavesOfList_eq_iff ts]

end

end Term

/-! ## Prints of changed leaves -/

namespace Wordwise

variable {f : Text → Text} {b s : Text} {t : Term}

theorem gap_append (hf : Wordwise f) (hb : Text.Gap b) (t : Text) : f (b ++ t) = b ++ f t := by
  induction b with
  | nil => rfl
  | cons c b ih =>
    obtain ⟨hc, hb⟩ := List.forall_mem_cons.1 hb
    rw [List.cons_append, hf.gap c (b ++ t) hc, ih hb, List.cons_append]

mutual

theorem wellFormed_mapLeaves (hf : Wordwise f) (hcolon : ∀ w, ':' ∉ w → ':' ∉ f w) :
    (t : Term) → t.WellFormed → (t.mapLeaves f).WellFormed
  | .leaf w, ht => ⟨fun he => ht.1 (hf.eq_nil w he), hf.isName w ht.2.1, hcolon w ht.2.2⟩
  | .call name args, ht => by
    obtain ⟨hname, hargs, harity, hwell⟩ := ht
    have hlen := Term.length_mapLeavesOfList f args
    refine ⟨hname, fun he => ?_, fun h => hlen.trans (harity h),
      hf.wellFormedList_mapLeaves hcolon args hwell⟩
    rw [he] at hlen
    exact hargs (List.length_eq_zero_iff.1 hlen.symm)

theorem wellFormedList_mapLeaves (hf : Wordwise f) (hcolon : ∀ w, ':' ∉ w → ':' ∉ f w) :
    (ts : List Term) → Term.WellFormedList ts → Term.WellFormedList (Term.mapLeavesOfList f ts)
  | [], _ => trivial
  | t :: ts, h => ⟨hf.wellFormed_mapLeaves hcolon t h.1, hf.wellFormedList_mapLeaves hcolon ts h.2⟩

end

mutual

/-- A print is changed into a print, whatever follows it. -/
theorem exists_print_mapLeaves (hf : Wordwise f) : (t : Term) →
    (∀ n ∈ t.heads, f (n ++ constructorMark) = n ++ constructorMark) → ∀ {x z : Text},
    Spaced t.tokens x → Text.Ends z → ∃ y, f (x ++ z) = y ++ f z ∧ Spaced (t.mapLeaves f).tokens y
  | .leaf w, _, x, z, hx, hz => by
    obtain ⟨b, b', rfl, hb, hb'⟩ := Spaced.singleton_iff.1 hx
    refine ⟨b ++ f w ++ b', ?_, Spaced.singleton_iff.2 ⟨b, b', rfl, hb, hb'⟩⟩
    calc f (b ++ w ++ b' ++ z) = f (b ++ (w ++ (b' ++ z))) := by simp only [List.append_assoc]
      _ = b ++ (f w ++ (b' ++ f z)) := by
        rw [hf.gap_append hb.gap, hf.append w _ (hb'.gap.append_ends hz), hf.gap_append hb'.gap]
      _ = b ++ f w ++ b' ++ f z := by simp only [List.append_assoc]
  | .call name args, hheads, x, z, hx, hz => by
    obtain ⟨b, b₁, u, b₂, b₃, hb, hb₁, hu, hb₂, hb₃, rfl⟩ := Term.spaced_call_iff.1 hx
    have hopen : Text.Gap (b₁ ++ ['(']) := hb₁.gap.append (Text.gap_singleton (by decide))
    have hclose : Text.Gap (b₂ ++ [')']) := hb₂.gap.append (Text.gap_singleton (by decide))
    obtain ⟨y, hy, hspaced⟩ := hf.exists_prints_mapLeaves args
      (fun n hn => hheads n (by simp [Term.heads, hn])) hu (hclose.ends_append (by simp) (b₃ ++ z))
    refine ⟨_, ?_, Term.spaced_call_iff.2 ⟨b, b₁, y, b₂, b₃, hb, hb₁, hspaced, hb₂, hb₃, rfl⟩⟩
    calc f (b ++ (name ++ constructorMark ++ (b₁ ++ ['('] ++ u ++ b₂) ++ [')']) ++ b₃ ++ z)
        = f (b ++ ((name ++ constructorMark) ++ ((b₁ ++ ['(']) ++
            (u ++ ((b₂ ++ [')']) ++ (b₃ ++ z)))))) := by simp only [List.append_assoc]
      _ = b ++ ((name ++ constructorMark) ++ ((b₁ ++ ['(']) ++
            (y ++ ((b₂ ++ [')']) ++ (b₃ ++ f z))))) := by
        rw [hf.gap_append hb.gap, hf.append _ _ (hopen.ends_append (by simp) _),
          hheads name (by simp [Term.heads]), hf.gap_append hopen, hy, hf.gap_append hclose,
          hf.gap_append hb₃.gap]
      _ = b ++ (name ++ constructorMark ++ (b₁ ++ ['('] ++ y ++ b₂) ++ [')']) ++ b₃ ++ f z := by
        simp only [List.append_assoc]

theorem exists_prints_mapLeaves (hf : Wordwise f) : (ts : List Term) →
    (∀ n ∈ Term.headsOfList ts, f (n ++ constructorMark) = n ++ constructorMark) → ∀ {x z : Text},
    Spaced (Term.tokensOfList ts) x → Text.Ends z →
    ∃ y, f (x ++ z) = y ++ f z ∧ Spaced (Term.tokensOfList (Term.mapLeavesOfList f ts)) y
  | [], _, x, z, hx, _ => ⟨x, hf.gap_append (Spaced.nil_iff.1 hx).gap z, hx⟩
  | [t], hheads, x, z, hx, hz => by
    rw [Term.tokensOfList] at hx
    exact hf.exists_print_mapLeaves t
      (fun n hn => hheads n (by simpa [Term.headsOfList] using hn)) hx hz
  | t :: t' :: ts, hheads, x, z, hx, hz => by
    rw [Term.tokensOfList] at hx
    obtain ⟨x₁, x₂, rfl, hx₁, hx₂⟩ := hx.split
    obtain ⟨b, x₃, rfl, hb, hx₃⟩ := Spaced.cons_iff.1 hx₂
    have hcomma : Text.Gap (b ++ [',']) := hb.gap.append (Text.gap_singleton (by decide))
    obtain ⟨y, hy, hspaced⟩ := hf.exists_print_mapLeaves t
      (fun n hn => hheads n (by simp [Term.headsOfList, hn])) hx₁
      (hcomma.ends_append (by simp) (x₃ ++ z))
    obtain ⟨ys, hys, hrest⟩ := hf.exists_prints_mapLeaves (t' :: ts)
      (fun n hn => hheads n (by rw [Term.headsOfList]; simp [hn])) hx₃ hz
    refine ⟨y ++ (b ++ [','] ++ ys), ?_, hspaced.append (.cons hb hrest)⟩
    calc f (x₁ ++ (b ++ [','] ++ x₃) ++ z) = f (x₁ ++ ((b ++ [',']) ++ (x₃ ++ z))) := by
          simp only [List.append_assoc]
      _ = y ++ ((b ++ [',']) ++ (ys ++ f z)) := by rw [hy, hf.gap_append hcomma, hys]
      _ = y ++ (b ++ [','] ++ ys) ++ f z := by simp only [List.append_assoc]

end

/-- A text that is read as a term is read, once its words are changed, as the term with its leaves
changed. -/
theorem ofText_mapLeaves (hf : Wordwise f) (hcolon : ∀ w, ':' ∉ w → ':' ∉ f w)
    (h : Term.ofText s = .ok t)
    (hheads : ∀ n ∈ t.heads, f (n ++ constructorMark) = n ++ constructorMark) :
    Term.ofText (f s) = .ok (t.mapLeaves f) := by
  obtain ⟨ht, hs⟩ := Term.ofText_eq_ok_iff.1 h
  obtain ⟨y, hy, hspaced⟩ := hf.exists_print_mapLeaves t hheads hs Text.ends_nil
  rw [List.append_nil, hf.nil, List.append_nil] at hy
  rw [hy]
  exact Term.ofText_print (hf.wellFormed_mapLeaves hcolon t ht) hspaced

end Wordwise

end ReductionTables
