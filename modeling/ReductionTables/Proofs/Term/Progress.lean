import ReductionTables.Proofs.Term.Numbering
import ReductionTables.Proofs.Term.Scanning

/-!
# Nodes while a text is read

A leaf is listed when it is clear that its word is not called, and a constructor when its arguments are
closed. Nodes are only added, so those of a text that was read in part are the first ones of the whole
list: one for each plain word that was passed, unless the word may still be called, and one for each
closing parenthesis.
-/

namespace ReductionTables

namespace Term

theorem nodesOfList_append (ts us : List Term) (first : Nat) : nodesOfList first (ts ++ us) =
    nodesOfList first ts ++ nodesOfList (first + sizeOfList ts) us := by
  induction ts generalizing first with
  | nil => simp [nodesOfList, sizeOfList]
  | cons t ts ih => simp [nodesOfList, sizeOfList, ih, Nat.add_assoc]

/-- The nodes of a constructor are those of its arguments and one more. -/
theorem nodesOfList_prefix_call (ts args : List Term) (name : Text) :
    nodesOfList 0 (ts ++ args) <+: nodesOfList 0 (ts ++ [call name args]) := by
  refine ⟨[⟨.ofName name, rootNumbers (sizeOfList ts) args⟩], ?_⟩
  simp [nodesOfList_append, nodesOfList, nodesFrom]

theorem leavesOfList_append (ts us : List Term) :
    leavesOfList (ts ++ us) = leavesOfList ts ++ leavesOfList us := by
  induction ts with
  | nil => rfl
  | cons t ts ih => simp [leavesOfList, ih]

theorem headsOfList_append (ts us : List Term) :
    headsOfList (ts ++ us) = headsOfList ts ++ headsOfList us := by
  induction ts with
  | nil => rfl
  | cons t ts ih => simp [headsOfList, ih]

end Term

/-! ## The list so far -/

/-- The arguments that open constructors have so far, those of the outermost first. -/
def Frame.argsOfList : List Frame → List Term
  | [] => []
  | f :: fs => argsOfList fs ++ f.args

namespace Reader

variable {r r' : Reader} {c : Char} {s : Term} {w t : Text} {ns : List Node}

/-- The terms that were read and are no arguments of a closed constructor. -/
def terms (r : Reader) : List Term :=
  match r.phase with
  | .complete s => Frame.argsOfList r.frames ++ [s]
  | .start | .word _ | .named _ => Frame.argsOfList r.frames

/-- The nodes of what was read. -/
def nodes (r : Reader) : List Node := Term.nodesOfList 0 r.terms

theorem listed_nodes (r : Reader) : Listed r.nodes (Term.rootNumbers 0 r.terms) := by
  simpa [nodes] using Term.listed_nodesOfList r.terms .nil

theorem afterTerm_nodes (hns : ns <+: Term.nodesOfList 0 (Frame.argsOfList r.frames ++ [s]))
    (h : r.afterTerm s c = .ok r') : ns <+: r'.nodes := by
  rw [afterTerm] at h
  split at h
  · obtain rfl := Except.ok.inj h
    exact hns
  · split at h
    · cases h
    · rename_i f fs hframes
      rw [hframes, Frame.argsOfList, List.append_assoc] at hns
      split at h
      · obtain rfl := Except.ok.inj h
        exact hns
      · split at h
        · obtain ⟨u, hclose, rfl⟩ := map_eq_ok.1 h
          rw [Frame.close] at hclose
          split at hclose
          · cases hclose
          · obtain rfl := Except.ok.inj hclose
            exact hns.trans (Term.nodesOfList_prefix_call _ _ _)
        · cases h

/-- A leaf may be listed on the way. -/
theorem afterWord_nodes (hns : ns = Term.nodesOfList 0 (Frame.argsOfList r.frames))
    (h : r.afterWord w c = .ok r') : ns <+: r'.nodes := by
  rw [afterWord] at h
  split at h
  · obtain rfl := Except.ok.inj h
    exact hns ▸ List.prefix_rfl
  · split at h
    · obtain ⟨f, hf, rfl⟩ := map_eq_ok.1 h
      obtain ⟨hargs, -⟩ := Frame.ofWord_eq_ok hf
      have hopened : Frame.argsOfList (f :: r.frames) = Frame.argsOfList r.frames := by
        rw [Frame.argsOfList, hargs, List.append_nil]
      exact ⟨[], by rw [List.append_nil, hns, nodes, terms, move, hopened]⟩
    · obtain ⟨u, -, h⟩ := bind_eq_ok.1 h
      refine afterTerm_nodes ?_ h
      rw [hns, Term.nodesOfList_append]
      exact List.prefix_append _ _

theorem feed_nodes (h : r.feed c = .ok r') : r.nodes <+: r'.nodes := by
  rw [feed] at h
  split at h
  · rename_i hphase
    have hnodes : r.nodes = Term.nodesOfList 0 (Frame.argsOfList r.frames) := by rw [nodes, terms, hphase]
    split at h
    · obtain rfl := Except.ok.inj h
      exact hnodes ▸ List.prefix_rfl
    · split at h
      · obtain rfl := Except.ok.inj h
        exact hnodes ▸ List.prefix_rfl
      · cases h
  · rename_i w hphase
    have hnodes : r.nodes = Term.nodesOfList 0 (Frame.argsOfList r.frames) := by rw [nodes, terms, hphase]
    split at h
    · obtain rfl := Except.ok.inj h
      exact hnodes ▸ List.prefix_rfl
    · exact afterWord_nodes hnodes h
  · rename_i w hphase
    exact afterWord_nodes (by rw [nodes, terms, hphase]) h
  · rename_i s hphase
    have hnodes : r.nodes = Term.nodesOfList 0 (Frame.argsOfList r.frames ++ [s]) := by
      rw [nodes, terms, hphase]
    exact afterTerm_nodes (hnodes ▸ List.prefix_rfl) h

/-- Nodes are only added while a text is read. -/
theorem run_nodes (h : r.run t = .ok r') : r.nodes <+: r'.nodes := by
  induction t generalizing r with
  | nil =>
    obtain rfl := Except.ok.inj h
    exact List.prefix_rfl
  | cons c t ih =>
    rw [run_cons] at h
    obtain ⟨r₁, hc, h⟩ := bind_eq_ok.1 h
    exact (feed_nodes hc).trans (ih h)

theorem finish_nodes (h : r.finish = .ok s) : r.nodes <+: s.nodes := by
  have hend : ∀ u, r.endAfter u = .ok s → r.frames = [] ∧ u = s := by
    intro u hu
    rw [endAfter] at hu
    split at hu
    · exact ⟨List.isEmpty_iff.1 ‹_›, Except.ok.inj hu⟩
    · cases hu
  have hword : ∀ w, (Term.ofWord w).bind r.endAfter = .ok s → r.frames = [] := by
    intro w hw
    obtain ⟨u, -, hu⟩ := bind_eq_ok.1 hw
    exact (hend u hu).1
  rw [finish] at h
  split at h
  · cases h
  · rename_i w hphase
    simp [nodes, terms, hphase, hword w h, Frame.argsOfList, Term.nodesOfList]
  · rename_i w hphase
    simp [nodes, terms, hphase, hword w h, Frame.argsOfList, Term.nodesOfList]
  · rename_i u hphase
    obtain ⟨hframes, rfl⟩ := hend u h
    simp [nodes, terms, hphase, hframes, Frame.argsOfList, Term.nodesOfList, Term.nodes]

end Reader

/-! ## The text so far -/

theorem IsName.not_mem_of_not {w : Text} {d : Char} (hw : IsName w) (hd : ¬ isNameCharacter d) : d ∉ w :=
  fun h => hd (hw d h)

theorem Spaced.count_closing {ws : List Text} {t : Text} (h : Spaced ws t) :
    t.count ')' = ws.flatten.count ')' := by
  have hblanks : ∀ {b : Text}, Text.Blanks b → b.count ')' = 0 :=
    fun hb => List.count_eq_zero.2 fun hmem => absurd (hb ')' hmem) (by decide)
  induction h with
  | nil hb => simp [hblanks hb]
  | cons hb _ ih => simp [hblanks hb, ih]

namespace Term

mutual

/-- A term is printed with one closing parenthesis for each constructor. -/
theorem count_closing_tokens : (t : Term) → t.WellFormed → t.tokens.flatten.count ')' = t.heads.length
  | leaf word, ht => by
    have hword : ')' ∉ word := ht.2.1.not_mem_of_not (by decide)
    simp [tokens, heads, List.count_eq_zero.2 hword]
  | call name args, ht => by
    have hname : ')' ∉ name ++ constructorMark :=
      (ht.1.append isName_constructorMark).not_mem_of_not (by decide)
    have hargs := count_closing_tokensOfList args ht.2.2.2
    have hcount := List.count_eq_zero.2 hname
    rw [List.count_append] at hcount
    simp [tokens, heads, hargs, Nat.add_eq_zero_iff.1 hcount]

theorem count_closing_tokensOfList : (ts : List Term) → WellFormedList ts →
    (tokensOfList ts).flatten.count ')' = (headsOfList ts).length
  | [], _ => rfl
  | [t], ht => by simp [tokensOfList, headsOfList, count_closing_tokens t ht.1]
  | t :: u :: ts, ht => by
    have hcomma : [','].count ')' = 0 := rfl
    rw [tokensOfList, headsOfList, List.flatten_append, List.flatten_cons, List.count_append,
      List.count_append, count_closing_tokens t ht.1, hcomma, Nat.zero_add,
      count_closing_tokensOfList (u :: ts) ht.2, List.length_append]

end

theorem count_closing_args {ts : List Term} (h : ∀ t ∈ ts, t.WellFormed) :
    (ts.flatMap fun t => t.tokens ++ [[',']]).flatten.count ')' = (headsOfList ts).length := by
  induction ts with
  | nil => rfl
  | cons t ts ih =>
    obtain ⟨ht, h⟩ := List.forall_mem_cons.1 h
    simp [headsOfList, count_closing_tokens t ht, ih h]

/-- Arguments that a comma follows are scanned as they are printed, whatever comes then. -/
theorem words_args {ts : List Term} (h : ∀ t ∈ ts, t.WellFormed) (z : Text) {x : Text}
    (hx : Spaced (ts.flatMap fun t => t.tokens ++ [[',']]) x) :
    Text.words (x ++ z) = wordsOfList ts ++ Text.words z := by
  induction ts generalizing x with
  | nil =>
    have hblanks : Text.Blanks x := Spaced.nil_iff.1 hx
    exact hblanks.gap.words_append z
  | cons t ts ih =>
    obtain ⟨ht, h⟩ := List.forall_mem_cons.1 h
    obtain ⟨x₁, x₂, rfl, hx₁, hx₂⟩ := hx.split
    obtain ⟨y, y', rfl, hy, hy'⟩ := hx₁.split
    obtain ⟨b, b', rfl, hb, hb'⟩ := Spaced.singleton_iff.1 hy'
    have hcomma : Text.Gap (b ++ [','] ++ b') :=
      (hb.gap.append (Text.gap_singleton (by decide))).append hb'.gap
    have hcloses : Text.Closes (b ++ [','] ++ b' ++ (x₂ ++ z)) := by
      have hafter := Text.closes_cons (by decide : ¬ isNameCharacter ',') (by decide) (by decide)
      simpa using (hafter (b' ++ (x₂ ++ z))).blanks_append hb
    calc Text.words (y ++ (b ++ [','] ++ b') ++ x₂ ++ z)
        = Text.words (y ++ (b ++ [','] ++ b' ++ (x₂ ++ z))) := by simp only [List.append_assoc]
      _ = t.words ++ (wordsOfList ts ++ Text.words z) := by
        rw [words_print t ht hy hcloses, hcomma.words_append, ih h hx₂]
      _ = wordsOfList (t :: ts) ++ Text.words z := by rw [wordsOfList, List.append_assoc]

end Term

namespace Frame

variable {f : Frame} {fs : List Frame} {x : Text}

theorem count_closing_tokensOfList (h : ∀ f ∈ fs, f.WellFormed) :
    (tokensOfList fs).flatten.count ')' = (Term.headsOfList (argsOfList fs)).length := by
  induction fs with
  | nil => rfl
  | cons f fs ih =>
    obtain ⟨hf, h⟩ := List.forall_mem_cons.1 h
    have hname : (f.name ++ constructorMark).count ')' = 0 :=
      List.count_eq_zero.2 ((hf.1.append isName_constructorMark).not_mem_of_not (by decide))
    have hopen : ['('].count ')' = 0 := rfl
    rw [tokensOfList, argsOfList, Term.headsOfList_append, List.flatten_append, List.count_append, ih h,
      tokens, List.flatten_cons, List.count_append, hname, Nat.zero_add, List.flatten_cons,
      List.count_append, hopen, Nat.zero_add, Term.count_closing_args hf.2, List.length_append]

/-- The plain words of open constructors are the leaves of their arguments so far. -/
theorem plainWords_tokens (hf : f.WellFormed) (z : Text) (hx : Spaced f.tokens x) :
    Text.plainWords (x ++ z) = Term.leavesOfList f.args ++ Text.plainWords z := by
  obtain ⟨b, x₁, rfl, hb, hx₁⟩ := Spaced.cons_iff.1 hx
  obtain ⟨b₁, u, rfl, hb₁, hu⟩ := Spaced.cons_iff.1 hx₁
  have hopen : Text.Gap (b₁ ++ ['(']) := hb₁.gap.append (Text.gap_singleton (by decide))
  have hcalled : Text.opens (b₁ ++ ['('] ++ (u ++ z)) = true := by
    rw [List.append_assoc, hb₁.opens_append]
    exact Text.opens_cons (by decide) _
  have hwords : Text.words (b ++ (f.name ++ constructorMark) ++ (b₁ ++ ['('] ++ u) ++ z) =
      (f.name ++ constructorMark, true) :: (Term.wordsOfList f.args ++ Text.words z) :=
    calc Text.words (b ++ (f.name ++ constructorMark) ++ (b₁ ++ ['('] ++ u) ++ z)
        = Text.words (b ++ ((f.name ++ constructorMark) ++ (b₁ ++ ['('] ++ (u ++ z)))) := by
          simp only [List.append_assoc]
      _ = _ := by
        rw [hb.gap.words_append, Text.words_append (by simp [constructorMark])
          (hf.1.append isName_constructorMark) (hopen.ends_append (by simp) _), hcalled,
          hopen.words_append, Term.words_args hf.2 z hu]
  rw [Text.plainWords, hwords, ← Term.plain_wordsOfList]
  simp [Text.plainWords]

theorem plainWords_tokensOfList (h : ∀ f ∈ fs, f.WellFormed) (z : Text)
    (hx : Spaced (tokensOfList fs) x) :
    Text.plainWords (x ++ z) = Term.leavesOfList (argsOfList fs) ++ Text.plainWords z := by
  induction fs generalizing x z with
  | nil =>
    have hblanks : Text.Blanks x := Spaced.nil_iff.1 hx
    exact hblanks.gap.plainWords_append z
  | cons f fs ih =>
    obtain ⟨hf, h⟩ := List.forall_mem_cons.1 h
    obtain ⟨x₁, x₂, rfl, hx₁, hx₂⟩ := hx.split
    rw [List.append_assoc, ih h (x₂ ++ z) hx₁, plainWords_tokens hf z hx₂, argsOfList,
      Term.leavesOfList_append, List.append_assoc]

end Frame

namespace Reader

variable {r : Reader} {t : Text}

/-- The word that was passed last, if it may still be called. -/
def openWord? (r : Reader) : Option Text :=
  match r.phase with
  | .word w | .named w => some w
  | .start | .complete _ => none

/-- The plain words that were passed are the leaves of the list so far, and after them the word that may
still be called. -/
theorem plainWords_of_reads (h : r.Reads t) :
    Text.plainWords t = Node.leafWords r.nodes ++ r.openWord?.toList := by
  obtain ⟨byte, frames, phase⟩ := r
  obtain ⟨hframes, hphase⟩ := h
  rw [nodes, Term.leafWords_nodesOfList, terms, openWord?]
  cases phase with
  | start =>
    simpa [Text.plainWords_nil] using Frame.plainWords_tokensOfList hframes [] hphase
  | word w =>
    obtain ⟨hne, hname, t₀, rfl, ht₀⟩ := hphase
    have hlast := Text.plainWords_word hne hname Text.blanks_nil
    rw [List.append_nil] at hlast
    simp [Frame.plainWords_tokensOfList hframes w ht₀, hlast]
  | named w =>
    obtain ⟨hne, hname, ht⟩ := hphase
    obtain ⟨x, y, rfl, hx, hy⟩ := ht.split
    obtain ⟨b, b', rfl, hb, hb'⟩ := Spaced.singleton_iff.1 hy
    simp [Frame.plainWords_tokensOfList hframes _ hx, hb.gap.plainWords_append,
      Text.plainWords_word hne hname hb']
  | complete s =>
    obtain ⟨hs, ht⟩ := hphase
    obtain ⟨x, y, rfl, hx, hy⟩ := ht.split
    have hlast : Text.plainWords y = s.leaves := Term.plainWords_eq (Term.ofText_eq_ok_iff.2 ⟨hs, hy⟩)
    simp [Frame.plainWords_tokensOfList hframes y hx, hlast, Term.leavesOfList_append, Term.leavesOfList]

/-- The closing parentheses that were passed are the constructors of the list so far. -/
theorem count_closing_of_reads (h : r.Reads t) : t.count ')' = Node.constructorCount r.nodes := by
  obtain ⟨byte, frames, phase⟩ := r
  obtain ⟨hframes, hphase⟩ := h
  rw [nodes, Term.constructorCount_nodesOfList, terms]
  have hopen := Frame.count_closing_tokensOfList hframes
  have hword : ∀ {w : Text}, IsName w → w.count ')' = 0 :=
    fun hw => List.count_eq_zero.2 (hw.not_mem_of_not (by decide))
  cases phase with
  | start =>
    exact (Spaced.count_closing hphase).trans hopen
  | word w =>
    obtain ⟨-, hname, t₀, rfl, ht₀⟩ := hphase
    simp [hword hname, ht₀.count_closing, hopen]
  | named w =>
    obtain ⟨-, hname, ht⟩ := hphase
    simp [ht.count_closing, hopen, hword hname]
  | complete s =>
    obtain ⟨hs, ht⟩ := hphase
    simp [ht.count_closing, hopen, Term.count_closing_tokens s hs, Term.headsOfList_append,
      Term.headsOfList]

end Reader

/-- At each moment of reading, the nodes so far are those that the list begins with in the end, and none
refers to the roots of the terms that are not yet arguments. Their leaves are the plain words that were
passed, up to one that may still be called, and there is a constructor for each closing parenthesis. -/
theorem Term.nodes_while_reading {s t : Text} {x : Term} (h : ofText (s ++ t) = .ok x) :
    ∃ r, Reader.initial.run s = .ok r ∧ Listed r.nodes (rootNumbers 0 r.terms) ∧ r.nodes <+: x.nodes ∧
      Text.plainWords s = Node.leafWords r.nodes ++ r.openWord?.toList ∧
      s.count ')' = Node.constructorCount r.nodes := by
  obtain ⟨r', hrun, hfinish⟩ := ofText_eq_ok.1 h
  rw [Reader.run_append] at hrun
  obtain ⟨r, hr, hr'⟩ := bind_eq_ok.1 hrun
  have hreads : r.Reads s := Reader.run_reads Reader.reads_initial hr
  exact ⟨r, hr, r.listed_nodes, (Reader.run_nodes hr').trans (Reader.finish_nodes hfinish),
    Reader.plainWords_of_reads hreads, Reader.count_closing_of_reads hreads⟩

/-- The last word is still read, so the list ends with the maximum. -/
example : (Reader.initial.run "Sub::make(Max::make(x0, k), y").map Reader.nodes =
    .ok [⟨.leaf "x0", []⟩, ⟨.leaf "k", []⟩, ⟨.operator .max, [0, 1]⟩] := by decide +kernel

end ReductionTables
