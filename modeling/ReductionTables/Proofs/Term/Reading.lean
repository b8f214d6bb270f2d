import Mathlib.Data.List.Basic
import ReductionTables.Proofs.Outcome
import ReductionTables.Proofs.Term.Grammar

/-!
# Reading what was printed

A reader that awaits a term reads through any print of it and then holds that term, whatever
constructors are open around it.
-/

namespace ReductionTables

theorem Frame.ofWord_append (name : Text) :
    Frame.ofWord (name ++ constructorMark) = .ok ⟨name, []⟩ := by
  have h : constructorMark.isSuffixOf? (name ++ constructorMark) = some name :=
    List.isSuffixOf?_eq_some_iff_append_eq.2 rfl
  rw [ofWord, h]

theorem Frame.close_eq_ok {f : Frame} {args : List Term} (hargs : f.args = args)
    (harity : (Operator.ofName? f.name).isSome → args.length = 2) :
    f.close = .ok (.call f.name args) := by
  subst hargs
  rw [close, if_neg]
  rintro ⟨hname, hlen⟩
  exact hlen (harity hname)

namespace Reader

/-! ## Steps -/

/-- Reads all characters of a text. -/
def run (r : Reader) (t : Text) : Except Reason Reader := t.foldlM feed r

theorem run_append (r : Reader) (s t : Text) : r.run (s ++ t) = (r.run s).bind fun r => r.run t :=
  List.foldlM_append

theorem run_cons (r : Reader) (c : Char) (t : Text) :
    r.run (c :: t) = (r.feed c).bind fun r => r.run t :=
  List.foldlM_cons

theorem run_trans {r r₁ : Reader} {x : Except Reason Reader} {s t : Text} (hs : r.run s = .ok r₁)
    (ht : r₁.run t = x) : r.run (s ++ t) = x := by
  rw [run_append, hs]
  exact ht

theorem run_step {r r₁ : Reader} {x : Except Reason Reader} {c : Char} {t : Text}
    (hc : r.feed c = .ok r₁) (ht : r₁.run t = x) : r.run (c :: t) = x := by
  rw [run_cons, hc]
  exact ht

variable {r : Reader} {fs : List Frame} {f : Frame} {w b : Text} {s : Term}

/-! ## What a reader stands at -/

/-- A term has to follow. -/
def Awaits (r : Reader) (fs : List Frame) : Prop := r.frames = fs ∧ r.phase = .start

/-- A word was read, and perhaps blanks after it. -/
def HasRead (r : Reader) (fs : List Frame) (w : Text) : Prop :=
  r.frames = fs ∧ (r.phase = .word w ∨ r.phase = .named w)

/-- A whole term was read. A leaf may still be taken for the name of a constructor. -/
def Holds (r : Reader) (fs : List Frame) (s : Term) : Prop :=
  (r.frames = fs ∧ r.phase = .complete s) ∨ ∃ w, s = .leaf w ∧ ':' ∉ w ∧ r.HasRead fs w

theorem Awaits.blanks (h : r.Awaits fs) (hb : Text.Blanks b) :
    ∃ r', r.run b = .ok r' ∧ r'.Awaits fs := by
  induction b generalizing r with
  | nil => exact ⟨r, rfl, h⟩
  | cons c b ih =>
    have hc : r.feed c = .ok (r.move c r.frames .start) := by
      rw [feed, h.2]
      exact if_pos (hb c (by simp))
    obtain ⟨r', hr', h'⟩ := ih (r := r.move c r.frames .start) ⟨h.1, rfl⟩ fun d hd =>
      hb d (List.mem_cons_of_mem c hd)
    exact ⟨r', run_step hc hr', h'⟩

theorem run_word (hr : r.frames = fs) (hw : r.phase = .word w) {v : Text} (hv : IsName v) :
    ∃ r', r.run v = .ok r' ∧ r'.frames = fs ∧ r'.phase = .word (w ++ v) := by
  induction v generalizing r w with
  | nil => exact ⟨r, rfl, hr, by simpa using hw⟩
  | cons c v ih =>
    have hc : r.feed c = .ok (r.move c r.frames (.word (w ++ [c]))) := by
      rw [feed, hw]
      exact if_pos (hv c (by simp))
    obtain ⟨r', hr', hfs, hphase⟩ := ih (r := r.move c r.frames (.word (w ++ [c]))) hr rfl
      fun d hd => hv d (List.mem_cons_of_mem c hd)
    exact ⟨r', run_step hc hr', hfs, by simpa using hphase⟩

theorem Awaits.word (h : r.Awaits fs) (hw : w ≠ []) (hname : IsName w) :
    ∃ r', r.run w = .ok r' ∧ r'.HasRead fs w := by
  obtain ⟨c, v, rfl⟩ := List.exists_cons_of_ne_nil hw
  have hcname : isNameCharacter c := hname c (by simp)
  have hblank : ¬ Text.isBlank c := fun hb => not_isNameCharacter_of_isBlank hb hcname
  have hc : r.feed c = .ok (r.move c r.frames (.word [c])) := by
    rw [feed, h.2]
    exact (if_neg hblank).trans (if_pos hcname)
  obtain ⟨r', hr', hfs, hphase⟩ := run_word (r := r.move c r.frames (.word [c])) h.1 rfl
    fun d hd => hname d (List.mem_cons_of_mem c hd)
  exact ⟨r', run_step hc hr', hfs, Or.inl hphase⟩

theorem HasRead.feed_eq (h : r.HasRead fs w) {c : Char} (hc : ¬ isNameCharacter c) :
    r.feed c = r.afterWord w c := by
  rcases h.2 with hphase | hphase
  · rw [feed, hphase]
    exact if_neg hc
  · rw [feed, hphase]

theorem HasRead.blanks (h : r.HasRead fs w) (hb : Text.Blanks b) :
    ∃ r', r.run b = .ok r' ∧ r'.HasRead fs w := by
  induction b generalizing r with
  | nil => exact ⟨r, rfl, h⟩
  | cons c b ih =>
    have hblank : Text.isBlank c := hb c (by simp)
    have hc : r.feed c = .ok (r.move c r.frames (.named w)) := by
      rw [h.feed_eq (not_isNameCharacter_of_isBlank hblank), afterWord, if_pos hblank]
    obtain ⟨r', hr', h'⟩ := ih (r := r.move c r.frames (.named w)) ⟨h.1, Or.inr rfl⟩ fun d hd =>
      hb d (List.mem_cons_of_mem c hd)
    exact ⟨r', run_step hc hr', h'⟩

theorem HasRead.opening {name : Text} (h : r.HasRead fs (name ++ constructorMark)) :
    ∃ r', r.run ['('] = .ok r' ∧ r'.Awaits (⟨name, []⟩ :: fs) := by
  refine ⟨r.move '(' (⟨name, []⟩ :: r.frames) .start, ?_, by rw [Awaits, ← h.1]; exact ⟨rfl, rfl⟩⟩
  refine run_step ?_ rfl
  rw [h.feed_eq (by decide), afterWord, if_neg (by decide), if_pos rfl, Frame.ofWord_append]
  rfl

theorem Holds.feed_eq (h : r.Holds fs s) {c : Char} (hname : ¬ isNameCharacter c)
    (hblank : ¬ Text.isBlank c) (hopen : c ≠ '(') : r.feed c = r.afterTerm s c := by
  rcases h with ⟨-, hphase⟩ | ⟨w, rfl, hcolon, hw⟩
  · rw [feed, hphase]
  · rw [hw.feed_eq hname, afterWord, if_neg hblank, if_neg hopen, Term.ofWord, if_neg hcolon]
    rfl

theorem Holds.frames_eq (h : r.Holds fs s) : r.frames = fs := by
  rcases h with ⟨hfs, -⟩ | ⟨w, -, -, hw⟩
  · exact hfs
  · exact hw.1

theorem Holds.blanks (h : r.Holds fs s) (hb : Text.Blanks b) :
    ∃ r', r.run b = .ok r' ∧ r'.Holds fs s := by
  rcases h with ⟨hfs, hphase⟩ | ⟨w, rfl, hcolon, hw⟩
  · induction b generalizing r with
    | nil => exact ⟨r, rfl, Or.inl ⟨hfs, hphase⟩⟩
    | cons c b ih =>
      have hc : r.feed c = .ok (r.move c r.frames (.complete s)) := by
        rw [feed, hphase]
        exact if_pos (hb c (by simp))
      obtain ⟨r', hr', h'⟩ := ih (r := r.move c r.frames (.complete s))
        (fun d hd => hb d (List.mem_cons_of_mem c hd)) hfs rfl
      exact ⟨r', run_step hc hr', h'⟩
  · obtain ⟨r', hr', hw'⟩ := hw.blanks hb
    exact ⟨r', hr', Or.inr ⟨w, rfl, hcolon, hw'⟩⟩

theorem Holds.comma (h : r.Holds (f :: fs) s) :
    ∃ r', r.run [','] = .ok r' ∧ r'.Awaits (f.push s :: fs) := by
  refine ⟨r.move ',' (f.push s :: fs) .start, ?_, rfl, rfl⟩
  refine run_step ?_ rfl
  rw [h.feed_eq (by decide) (by decide) (by decide), afterTerm, if_neg (by decide), h.frames_eq]
  rfl

theorem Holds.closing {u : Term} (h : r.Holds (f :: fs) s) (hclose : (f.push s).close = .ok u) :
    ∃ r', r.run [')'] = .ok r' ∧ r'.Holds fs u := by
  refine ⟨r.move ')' fs (.complete u), ?_, Or.inl ⟨rfl, rfl⟩⟩
  refine run_step ?_ rfl
  rw [h.feed_eq (by decide) (by decide) (by decide), afterTerm, if_neg (by decide), h.frames_eq]
  simp only [Char.reduceEq, ↓reduceIte, hclose]
  rfl

theorem Holds.finish_eq (h : r.Holds [] s) : r.finish = .ok s := by
  rcases h with ⟨hfs, hphase⟩ | ⟨w, rfl, hcolon, hfs, hphase⟩
  · rw [finish, hphase]
    simp [endAfter, hfs]
  · have hleaf : Term.ofWord w = .ok (.leaf w) := if_neg hcolon
    rcases hphase with hphase | hphase <;>
    · rw [finish, hphase]
      simp [hleaf, Except.bind, endAfter, hfs]

/-! ## Whole terms -/

mutual

theorem run_print {fs : List Frame} : (s : Term) → s.WellFormed → ∀ {t : Text} {r : Reader},
    Spaced s.tokens t → r.Awaits fs → ∃ r', r.run t = .ok r' ∧ r'.Holds fs s
  | .leaf w, hs, t, r, ht, hr => by
    obtain ⟨b, b', rfl, hb, hb'⟩ := Spaced.singleton_iff.1 ht
    obtain ⟨r₁, hr₁, h₁⟩ := hr.blanks hb
    obtain ⟨r₂, hr₂, h₂⟩ := h₁.word hs.1 hs.2.1
    obtain ⟨r₃, hr₃, h₃⟩ := h₂.blanks hb'
    exact ⟨r₃, run_trans (run_trans hr₁ hr₂) hr₃, Or.inr ⟨w, rfl, hs.2.2, h₃⟩⟩
  | .call name args, hs, t, r, ht, hr => by
    obtain ⟨hname, hargs, harity, hsargs⟩ := hs
    obtain ⟨b, b₁, u, b₂, b₃, hb, hb₁, hu, hb₂, hb₃, rfl⟩ := Term.spaced_call_iff.1 ht
    have hword : name ++ constructorMark ≠ [] := by simp [constructorMark]
    obtain ⟨r₁, hr₁, h₁⟩ := hr.blanks hb
    obtain ⟨r₂, hr₂, h₂⟩ := h₁.word hword (hname.append isName_constructorMark)
    obtain ⟨r₃, hr₃, h₃⟩ := h₂.blanks hb₁
    obtain ⟨r₄, hr₄, h₄⟩ := h₃.opening
    obtain ⟨init, last, r₅, hlast, hr₅, h₅⟩ := run_printList args hsargs hargs hu h₄
    obtain ⟨r₆, hr₆, h₆⟩ := h₅.blanks hb₂
    have hclose : (Frame.push ⟨name, init⟩ last).close = .ok (.call name args) :=
      Frame.close_eq_ok hlast.symm harity
    obtain ⟨r₇, hr₇, h₇⟩ := h₆.closing hclose
    obtain ⟨r₈, hr₈, h₈⟩ := h₇.blanks hb₃
    have hopened : r.run (b ++ (name ++ constructorMark) ++ (b₁ ++ ['('] ++ u)) = .ok r₅ :=
      run_trans (run_trans hr₁ hr₂) (run_trans (run_trans hr₃ hr₄) hr₅)
    have hclosed : r₅.run (b₂ ++ [')'] ++ b₃) = .ok r₈ := run_trans (run_trans hr₆ hr₇) hr₈
    exact ⟨r₈, by simpa using run_trans hopened hclosed, h₈⟩

theorem run_printList {name : Text} {done : List Term} {fs : List Frame} : (args : List Term) →
    Term.WellFormedList args → args ≠ [] → ∀ {t : Text} {r : Reader},
    Spaced (Term.tokensOfList args) t → r.Awaits (⟨name, done⟩ :: fs) →
    ∃ init last r', args = init ++ [last] ∧ r.run t = .ok r' ∧
      r'.Holds (⟨name, done ++ init⟩ :: fs) last
  | [], _, h, _, _, _, _ => absurd rfl h
  | [s], hs, _, t, r, ht, hr => by
    rw [Term.tokensOfList] at ht
    obtain ⟨r', hr', h'⟩ := run_print s hs.1 ht hr
    exact ⟨[], s, r', rfl, hr', by simpa using h'⟩
  | s :: u :: args, hs, _, t, r, ht, hr => by
    rw [Term.tokensOfList] at ht
    obtain ⟨t₁, t₂, rfl, ht₁, ht₂⟩ := ht.split
    obtain ⟨b, t₃, rfl, hb, ht₃⟩ := Spaced.cons_iff.1 ht₂
    obtain ⟨r₁, hr₁, h₁⟩ := run_print s hs.1 ht₁ hr
    obtain ⟨r₂, hr₂, h₂⟩ := h₁.blanks hb
    obtain ⟨r₃, hr₃, h₃⟩ := h₂.comma
    have hdone : r₃.Awaits (⟨name, done ++ [s]⟩ :: fs) := h₃
    obtain ⟨init, last, r₄, hargs, hr₄, h₄⟩ := run_printList (u :: args) hs.2 (by simp) ht₃ hdone
    have hrun : r.run (t₁ ++ (b ++ [','] ++ t₃)) = .ok r₄ :=
      run_trans hr₁ (run_trans (run_trans hr₂ hr₃) hr₄)
    exact ⟨s :: init, last, r₄, by rw [hargs, List.cons_append], hrun, by simpa using h₄⟩

end

end Reader

theorem Term.ofText_eq_ok {s : Term} {t : Text} :
    Term.ofText t = .ok s ↔ ∃ r, Reader.initial.run t = .ok r ∧ r.finish = .ok s := by
  have hrun : Term.ofText t = (Reader.initial.run t).bind Reader.finish := rfl
  rw [hrun, bind_eq_ok]

/-- Every print of a well-formed term is read as that term. -/
theorem Term.ofText_print {s : Term} {t : Text} (hs : s.WellFormed) (ht : Spaced s.tokens t) :
    Term.ofText t = .ok s := by
  have hinitial : Reader.initial.Awaits [] := ⟨rfl, rfl⟩
  obtain ⟨r, hr, h⟩ := Reader.run_print s hs ht hinitial
  exact ofText_eq_ok.2 ⟨r, hr, h.finish_eq⟩

end ReductionTables
