import Mathlib.Data.Set.Subsingleton
import ReductionTables.Proofs.Term.Layout
import ReductionTables.Proofs.Term.Reading

/-!
# What was read is printed

At every moment the text that a reader has passed is a print of what its state holds: the open
constructors with their arguments so far, and then a word or a term. Every character that is not
refused keeps this, so a text that is read as a term is a print of it.
-/

namespace ReductionTables

/-! ## Open constructors -/

namespace Frame

/-- The tokens of an open constructor up to the place where its next argument is to follow. -/
def tokens (f : Frame) : List Text :=
  (f.name ++ constructorMark) :: ['('] :: f.args.flatMap fun t => t.tokens ++ [[',']]

/-- The name is a name and the arguments are well formed. -/
def WellFormed (f : Frame) : Prop := IsName f.name ∧ ∀ t ∈ f.args, t.WellFormed

theorem tokens_push (f : Frame) (t : Term) : (f.push t).tokens = f.tokens ++ t.tokens ++ [[',']] := by
  simp [tokens, push]

theorem WellFormed.push {f : Frame} {t : Term} (hf : f.WellFormed) (ht : t.WellFormed) :
    (f.push t).WellFormed := by
  refine ⟨hf.1, fun u hu => ?_⟩
  rcases List.mem_append.1 hu with hu | hu
  · exact hf.2 u hu
  · rw [List.mem_singleton.1 hu]
    exact ht

/-- The tokens of open constructors, the outermost first. -/
def tokensOfList : List Frame → List Text
  | [] => []
  | f :: fs => tokensOfList fs ++ f.tokens

theorem ofWord_eq_ok {w : Text} {f : Frame} (h : ofWord w = .ok f) :
    f.args = [] ∧ w = f.name ++ constructorMark := by
  rw [ofWord] at h
  split at h
  · rename_i name hname
    obtain rfl := Except.ok.inj h
    exact ⟨rfl, (List.isSuffixOf?_eq_some_iff_append_eq.1 hname).symm⟩
  · cases h

theorem close_push_eq_ok {f : Frame} {t u : Term} (hf : f.WellFormed) (ht : t.WellFormed)
    (h : (f.push t).close = .ok u) :
    u.WellFormed ∧ u.tokens = f.tokens ++ t.tokens ++ [[')']] := by
  rw [close] at h
  split at h
  · cases h
  · rename_i harity
    obtain rfl := Except.ok.inj h
    refine ⟨⟨hf.1, by simp [push], ?_, Term.wellFormedList_iff.2 (hf.push ht).2⟩, ?_⟩
    · intro hname
      simpa [hname] using harity
    · simp [Term.tokens, push, Term.tokensOfList_append, tokens]

end Frame

theorem Term.ofWord_eq_ok {w : Text} {t : Term} (h : Term.ofWord w = .ok t) :
    ':' ∉ w ∧ t = .leaf w := by
  rw [ofWord] at h
  split at h
  · cases h
  · exact ⟨‹_›, (Except.ok.inj h).symm⟩

/-! ## The invariant of readers -/

namespace Reader

/-- What a reader that has passed the text `t` has read last. -/
def PhaseReads (open_ : List Text) (t : Text) : Phase → Prop
  | .start => Spaced open_ t
  | .word w => w ≠ [] ∧ IsName w ∧ ∃ t₀, t = t₀ ++ w ∧ Spaced open_ t₀
  | .named w => w ≠ [] ∧ IsName w ∧ Spaced (open_ ++ [w]) t
  | .complete s => s.WellFormed ∧ Spaced (open_ ++ s.tokens) t

/-- The reader has passed the text `t`. -/
def Reads (r : Reader) (t : Text) : Prop :=
  (∀ f ∈ r.frames, f.WellFormed) ∧ PhaseReads (Frame.tokensOfList r.frames) t r.phase

variable {r r' : Reader} {t : Text} {c : Char}

theorem reads_initial : initial.Reads [] := ⟨by simp [initial], .nil Text.blanks_nil⟩

theorem afterTerm_reads {s : Term} (hframes : ∀ f ∈ r.frames, f.WellFormed) (hs : s.WellFormed)
    (ht : Spaced (Frame.tokensOfList r.frames ++ s.tokens) t) (h : r.afterTerm s c = .ok r') :
    r'.Reads (t ++ [c]) := by
  rw [afterTerm] at h
  split at h
  · obtain rfl := Except.ok.inj h
    exact ⟨hframes, hs, ht.append_blank ‹_›⟩
  · split at h
    · cases h
    · rename_i f fs hfs
      rw [hfs] at ht hframes
      have hf : f.WellFormed := hframes f (by simp)
      have hopen : ∀ g ∈ fs, g.WellFormed := fun g hg => hframes g (List.mem_cons_of_mem f hg)
      split at h
      · rename_i hc
        obtain rfl := Except.ok.inj h
        refine ⟨?_, ?_⟩
        · intro g hg
          rcases List.mem_cons.1 hg with rfl | hg
          · exact hf.push hs
          · exact hopen g hg
        · have := ht.append_token [',']
          simpa [PhaseReads, move, Frame.tokensOfList, Frame.tokens_push, hc] using this
      · split at h
        · rename_i hc
          obtain ⟨u, hclose, rfl⟩ := map_eq_ok.1 h
          obtain ⟨hu, htokens⟩ := Frame.close_push_eq_ok hf hs hclose
          refine ⟨hopen, hu, ?_⟩
          have := ht.append_token [')']
          simpa [move, Frame.tokensOfList, htokens, hc] using this
        · cases h

theorem afterWord_reads {w : Text} (hframes : ∀ f ∈ r.frames, f.WellFormed) (hw : w ≠ [])
    (hname : IsName w) (ht : Spaced (Frame.tokensOfList r.frames ++ [w]) t)
    (h : r.afterWord w c = .ok r') : r'.Reads (t ++ [c]) := by
  rw [afterWord] at h
  split at h
  · obtain rfl := Except.ok.inj h
    exact ⟨hframes, hw, hname, ht.append_blank ‹_›⟩
  · split at h
    · rename_i hc
      obtain ⟨f, hf, rfl⟩ := map_eq_ok.1 h
      obtain ⟨hargs, rfl⟩ := Frame.ofWord_eq_ok hf
      refine ⟨?_, ?_⟩
      · intro g hg
        rcases List.mem_cons.1 hg with rfl | hg
        · exact ⟨fun d hd => hname d (List.mem_append_left _ hd), by simp [hargs]⟩
        · exact hframes g hg
      · have := ht.append_token ['(']
        simpa [PhaseReads, move, Frame.tokensOfList, Frame.tokens, hargs, hc] using this
    · obtain ⟨s, hs, h⟩ := bind_eq_ok.1 h
      obtain ⟨hcolon, rfl⟩ := Term.ofWord_eq_ok hs
      have hleaf : (Term.leaf w).WellFormed := ⟨hw, hname, hcolon⟩
      exact afterTerm_reads hframes hleaf ht h

/-- One character keeps the invariant, unless it is refused. -/
theorem feed_reads (hr : r.Reads t) (h : r.feed c = .ok r') : r'.Reads (t ++ [c]) := by
  obtain ⟨hframes, hphase⟩ := hr
  rw [feed] at h
  split at h
  · rename_i hstart
    rw [hstart] at hphase
    split at h
    · obtain rfl := Except.ok.inj h
      exact ⟨hframes, hphase.append_blank ‹_›⟩
    · split at h
      · rename_i hname
        obtain rfl := Except.ok.inj h
        exact ⟨hframes, by simp, by simpa [IsName] using hname, t, rfl, hphase⟩
      · cases h
  · rename_i w hw
    rw [hw] at hphase
    obtain ⟨hne, hname, t₀, rfl, ht₀⟩ := hphase
    split at h
    · rename_i hc
      obtain rfl := Except.ok.inj h
      refine ⟨hframes, by simp, hname.append (by simpa [IsName] using hc), t₀, ?_, ht₀⟩
      exact List.append_assoc t₀ w [c]
    · exact afterWord_reads hframes hne hname (ht₀.append_token w) h
  · rename_i w hw
    rw [hw] at hphase
    exact afterWord_reads hframes hphase.1 hphase.2.1 hphase.2.2 h
  · rename_i s hs
    rw [hs] at hphase
    exact afterTerm_reads hframes hphase.1 hphase.2 h

/-- So does a whole text. -/
theorem run_reads {u : Text} (hr : r.Reads t) (h : r.run u = .ok r') : r'.Reads (t ++ u) := by
  induction u generalizing r t with
  | nil =>
    obtain rfl := Except.ok.inj h
    simpa using hr
  | cons c u ih =>
    rw [run_cons] at h
    obtain ⟨r₁, hc, h⟩ := bind_eq_ok.1 h
    simpa using ih (feed_reads hr hc) h

theorem endAfter_reads {s s' : Term} (hs : s.WellFormed)
    (ht : Spaced (Frame.tokensOfList r.frames ++ s.tokens) t) (h : r.endAfter s = .ok s') :
    s'.WellFormed ∧ Spaced s'.tokens t := by
  rw [endAfter] at h
  split at h
  · rename_i hframes
    obtain rfl := Except.ok.inj h
    rw [List.isEmpty_iff.1 hframes] at ht
    exact ⟨hs, ht⟩
  · cases h

theorem finish_reads {s : Term} (hr : r.Reads t) (h : r.finish = .ok s) :
    s.WellFormed ∧ Spaced s.tokens t := by
  obtain ⟨-, hphase⟩ := hr
  have hword : ∀ w, w ≠ [] → IsName w → Spaced (Frame.tokensOfList r.frames ++ [w]) t →
      (Term.ofWord w).bind r.endAfter = .ok s → s.WellFormed ∧ Spaced s.tokens t := by
    intro w hne hname ht hw
    obtain ⟨u, hu, hw⟩ := bind_eq_ok.1 hw
    obtain ⟨hcolon, rfl⟩ := Term.ofWord_eq_ok hu
    have hleaf : (Term.leaf w).WellFormed := ⟨hne, hname, hcolon⟩
    exact endAfter_reads hleaf ht hw
  rw [finish] at h
  split at h
  · cases h
  · rename_i w hw
    rw [hw] at hphase
    obtain ⟨hne, hname, t₀, rfl, ht₀⟩ := hphase
    exact hword w hne hname (ht₀.append_token w) h
  · rename_i w hw
    rw [hw] at hphase
    exact hword w hphase.1 hphase.2.1 hphase.2.2 h
  · rename_i u hu
    rw [hu] at hphase
    exact endAfter_reads hphase.1 hphase.2 h

end Reader

/-- A text is read as a term exactly when it is a print of that term. -/
theorem Term.ofText_eq_ok_iff {s : Term} {t : Text} :
    Term.ofText t = .ok s ↔ s.WellFormed ∧ Spaced s.tokens t := by
  constructor
  · intro h
    obtain ⟨r, hr, hfinish⟩ := ofText_eq_ok.1 h
    exact Reader.finish_reads (Reader.run_reads Reader.reads_initial hr) hfinish
  · rintro ⟨hs, ht⟩
    exact Term.ofText_print hs ht

/-- Reading accepts exactly the prints of well-formed terms and is unambiguous: a text prints at most
one of them, the listed nodes are those of that term, and blanks between its tokens do not matter. -/
theorem Term.reading_is_unambiguous :
    (∀ s t, Term.ofText t = .ok s ↔ s.WellFormed ∧ Spaced s.tokens t) ∧
      (∀ t, {s : Term | s.WellFormed ∧ Spaced s.tokens t}.Subsingleton) ∧
      (∀ s : Term, s.nodes.length = s.size ∧ s.StandsAt s.nodes (s.size - 1)) ∧
      ∀ s t t', Spaced s.tokens t → Spaced s.tokens t' →
        (Term.ofText t = .ok s ↔ Term.ofText t' = .ok s) := by
  refine ⟨fun s t => ofText_eq_ok_iff, fun t s hs s' hs' => ?_,
    fun s => ⟨s.length_nodes, s.standsAt_nodes⟩, fun s t t' ht ht' => ?_⟩
  · have h : Term.ofText t = .ok s := ofText_eq_ok_iff.2 hs
    rw [ofText_eq_ok_iff.2 hs'] at h
    exact (Except.ok.inj h).symm
  · rw [ofText_eq_ok_iff, ofText_eq_ok_iff]
    exact ⟨fun h => ⟨h.1, ht'⟩, fun h => ⟨h.1, ht⟩⟩

theorem Term.maximum_is_read_past_blanks :
    Spaced (Term.call "Max" [.leaf "x0", .call "" [.leaf "-1"]]).tokens "Max::make(x0,::make(-1))" ∧
      Spaced (Term.call "Max" [.leaf "x0", .call "" [.leaf "-1"]]).tokens
        " Max::make\t( x0 , ::make (-1)\n) " ∧
      Term.ofText " Max::make\t( x0 , ::make (-1)\n) " =
        .ok (.call "Max" [.leaf "x0", .call "" [.leaf "-1"]]) := by
  have hclose : Term.ofText "Max::make(x0,::make(-1))" =
      .ok (.call "Max" [.leaf "x0", .call "" [.leaf "-1"]]) := by rfl
  have hopen : Spaced (Term.call "Max" [.leaf "x0", .call "" [.leaf "-1"]]).tokens
      " Max::make\t( x0 , ::make (-1)\n) " :=
    ((reading_is_unambiguous.1 _ _).1 (by rfl)).2
  have hprint := ((reading_is_unambiguous.1 _ _).1 hclose).2
  exact ⟨hprint, hopen, (reading_is_unambiguous.2.2.2 _ _ _ hprint hopen).1 hclose⟩

end ReductionTables
