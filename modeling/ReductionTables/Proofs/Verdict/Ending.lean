import Mathlib.Data.List.Induction
import ReductionTables.Proofs.Verdict.Line

/-!
# What stands behind a result

A result ends with a closing brace, so text without one can neither add a result to a line nor take
one away, and no expression reaches into it.
-/

namespace ReductionTables

variable {line rest : Text} {w : Wording}

namespace Cut

variable {c : Cut}

/-- The cut of a line that goes on. -/
def extend (c : Cut) (rest : Text) : Cut := { c with after := c.after ++ rest }

theorem text_extend (c : Cut) (w : Wording) (rest : Text) : (c.extend rest).text w = c.text w ++ rest := by
  simp [text, extend]

/-- What a cut must satisfy says nothing of the text behind the result. -/
theorem Fits.with_after (h : c.Fits) (after : Text) : { c with after := after }.Fits :=
  ⟨h.leaves, h.number, h.expression, h.word, h.identity⟩

theorem Cuts.extend (h : c.Cuts w line) (rest : Text) : (c.extend rest).Cuts w (line ++ rest) := by
  obtain ⟨hfits, rfl⟩ := h
  exact ⟨hfits.with_after _, text_extend c w rest⟩

/-- A line that goes on without a brace has no other cuts. -/
theorem Cuts.exists_extend (hrest : '\x7d' ∉ rest) (h : c.Cuts w (line ++ rest)) :
    ∃ c' : Cut, c'.Cuts w line ∧ c'.extend rest = c := by
  obtain ⟨hfits, hline⟩ := h
  rw [text] at hline
  -- Either the rest stands behind the brace of the result, or the brace would stand in it.
  rcases List.append_eq_append_iff.1 hline with ⟨s, hline, hafter⟩ | ⟨s, hbefore, hs⟩
  · exact ⟨{ c with after := s }, ⟨hfits.with_after s, hline.symm⟩, by rw [Cut.extend, ← hafter]⟩
  · cases s using List.reverseRecOn with
    | nil =>
      refine ⟨{ c with after := [] }, ⟨hfits.with_after [], ?_⟩, ?_⟩
      · simpa [text] using hbefore
      · simp [Cut.extend, hs]
    | append_singleton s d =>
      have hbrace : " \x7d".toList = [' '] ++ ['\x7d'] := rfl
      rw [hbrace, ← List.append_assoc, ← List.append_assoc] at hbefore
      obtain rfl := List.singleton_inj.1 (List.append_inj_right' hbefore rfl)
      exact absurd (by simp [hs]) hrest

theorem Chosen.extend (hrest : '\x7d' ∉ rest) (h : c.Chosen w line) :
    (c.extend rest).Chosen w (line ++ rest) where
  cuts := h.cuts.extend rest
  leftmost c' hc' := by
    obtain ⟨c₀, hc₀, rfl⟩ := hc'.exists_extend hrest
    exact h.leftmost c₀ hc₀
  longest c' hc' hlen := by
    obtain ⟨c₀, hc₀, rfl⟩ := hc'.exists_extend hrest
    exact h.longest c₀ hc₀ hlen

end Cut

theorem Wording.verdict?_append (hw : w.EndsWord) (hrest : '\x7d' ∉ rest) (line : Text) :
    w.verdict? (line ++ rest) = w.verdict? line := by
  cases hread : w.verdict? line with
  | none =>
    refine Cut.verdict?_eq_none hw fun c hc => ?_
    obtain ⟨c', hc', -⟩ := hc.exists_extend hrest
    exact Cut.not_cuts_of_verdict? hw hread c' hc'
  | some v =>
    obtain ⟨c, hc, rfl⟩ := Cut.exists_chosen_of_verdict? hw hread
    rw [(hc.extend hrest).verdict?_eq hw]
    rfl

/-- The verdict of a line does not depend on text without a brace behind it. -/
theorem Verdict.ofLine?_append (hrest : '\x7d' ∉ rest) (line : Text) :
    ofLine? (line ++ rest) = ofLine? line := by
  rw [ofLine?, ofLine?, Wording.verdict?_append Wording.proven_endsWord hrest,
    Wording.verdict?_append Wording.unknown_endsWord hrest]

end ReductionTables
