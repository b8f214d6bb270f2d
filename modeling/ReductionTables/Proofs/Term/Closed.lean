import ReductionTables.Proofs.Term.Recognition

/-!
# Prints that end with a parenthesis

After the parenthesis that closes the outermost constructor a reader takes nothing but blanks, so of
two such prints none begins the other.
-/

namespace ReductionTables

namespace Reader

variable {r r' : Reader} {s t : Text} {c : Char}

theorem run_append_eq_ok :
    r.run (s ++ t) = .ok r' ↔ ∃ r₁, r.run s = .ok r₁ ∧ r₁.run t = .ok r' := by
  rw [run_append, bind_eq_ok]

theorem afterTerm_closing {u : Term} (h : r.afterTerm u ')' = .ok r') :
    ∃ v, r'.phase = .complete v := by
  rw [afterTerm, if_neg (by decide)] at h
  split at h
  · cases h
  · rename_i f fs hfs
    rw [if_neg (by decide), if_pos rfl] at h
    obtain ⟨v, -, rfl⟩ := map_eq_ok.1 h
    exact ⟨v, rfl⟩

theorem afterWord_closing {w : Text} (h : r.afterWord w ')' = .ok r') :
    ∃ v, r'.phase = .complete v := by
  rw [afterWord, if_neg (by decide), if_neg (by decide)] at h
  obtain ⟨u, -, h⟩ := bind_eq_ok.1 h
  exact afterTerm_closing h

theorem feed_closing (h : r.feed ')' = .ok r') : ∃ v, r'.phase = .complete v := by
  rw [feed] at h
  split at h
  · rw [if_neg (by decide), if_neg (by decide)] at h
    cases h
  · rw [if_neg (by decide)] at h
    exact afterWord_closing h
  · exact afterWord_closing h
  · exact afterTerm_closing h

/-- Behind a whole term that no constructor surrounds nothing but blanks are read. -/
theorem blanks_of_run {v : Term} (hframes : r.frames = []) (hphase : r.phase = .complete v)
    (h : r.run t = .ok r') : Text.Blanks t := by
  induction t generalizing r with
  | nil => exact Text.blanks_nil
  | cons c t ih =>
    have hfeed : r.feed c = r.afterTerm v c := by rw [feed, hphase]
    rw [run_cons, hfeed, afterTerm] at h
    split at h
    · intro d hd
      rcases List.mem_cons.1 hd with rfl | hd
      · assumption
      · exact ih (r := r.move c r.frames (.complete v)) hframes rfl h d hd
    · rw [hframes] at h
      cases h

end Reader

namespace Term

variable {s s' : Term} {x y t : Text}

theorem blanks_of_closed (hx : ofText (x ++ [')']) = .ok s)
    (h : ofText (x ++ [')'] ++ t) = .ok s') : Text.Blanks t := by
  obtain ⟨r, hr, hfinish⟩ := ofText_eq_ok.1 hx
  obtain ⟨r', hr', -⟩ := ofText_eq_ok.1 h
  obtain ⟨r₁, -, hr₁⟩ := Reader.run_append_eq_ok.1 hr
  obtain ⟨r₂, hr₂, hrun⟩ := Reader.run_append_eq_ok.1 hr'
  obtain rfl := Except.ok.inj (hr.symm.trans hr₂)
  have hfeed : r₁.feed ')' = .ok r := by
    rw [Reader.run_cons] at hr₁
    obtain ⟨r₃, hr₃, h₃⟩ := bind_eq_ok.1 hr₁
    obtain rfl := Except.ok.inj h₃
    exact hr₃
  obtain ⟨v, hphase⟩ := Reader.feed_closing hfeed
  have hframes : r.frames = [] := by
    have hend : r.finish = r.endAfter v := by rw [Reader.finish, hphase]
    rw [hend, Reader.endAfter] at hfinish
    split at hfinish
    · exact List.isEmpty_iff.1 ‹_›
    · cases hfinish
  exact Reader.blanks_of_run hframes hphase hrun

theorem eq_of_closed_of_begins (hx : ofText (x ++ [')']) = .ok s)
    (hy : ofText (y ++ [')']) = .ok s') (h : x ++ [')'] <+: y ++ [')']) :
    x ++ [')'] = y ++ [')'] := by
  obtain ⟨t, ht⟩ := h
  have hblanks : Text.Blanks t := blanks_of_closed hx (ht ▸ hy)
  rcases List.eq_nil_or_concat' t with rfl | ⟨t', c, rfl⟩
  · simpa using ht
  · rw [← List.append_assoc] at ht
    obtain ⟨-, hc⟩ := List.append_inj' ht rfl
    obtain rfl := List.singleton_inj.1 hc
    exact absurd (hblanks ')' (by simp)) (by decide)

/-- At most one beginning of a text ends with a parenthesis and is a whole term. -/
theorem eq_of_closed (hx : ofText (x ++ [')']) = .ok s) (hy : ofText (y ++ [')']) = .ok s')
    (hxt : x ++ [')'] <+: t) (hyt : y ++ [')'] <+: t) : x ++ [')'] = y ++ [')'] := by
  rcases List.prefix_or_prefix_of_prefix hxt hyt with h | h
  · exact eq_of_closed_of_begins hx hy h
  · exact (eq_of_closed_of_begins hy hx h).symm

end Term

end ReductionTables
