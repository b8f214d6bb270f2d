import Mathlib.Data.List.Forall2
import ReductionTables.Text.Basic

/-!
# Text that can be read back

A separator marks its place in a text when it does not stand before it, or does not stand behind it.
So joined lines can be taken apart, and a list of printed things ends where another line follows.
-/

namespace ReductionTables.Text

variable {s s' t t' : Text} {c : Char}

/-! ## Separators -/

theorem append_cons_inj_of_left (hs : c ∉ s) (hs' : c ∉ s') (h : s ++ c :: t = s' ++ c :: t') :
    s = s' ∧ t = t' := by
  induction s generalizing s' with
  | nil =>
    cases s' with
    | nil => exact ⟨rfl, (List.cons.inj h).2⟩
    | cons d s' => exact absurd ((List.cons.inj h).1 ▸ List.mem_cons_self) hs'
  | cons d s ih =>
    cases s' with
    | nil => exact absurd ((List.cons.inj h).1 ▸ List.mem_cons_self) hs
    | cons d' s' =>
      obtain ⟨rfl, hrest⟩ := List.cons.inj h
      obtain ⟨rfl, ht⟩ := ih (fun hc => hs (List.mem_cons_of_mem d hc))
        (fun hc => hs' (List.mem_cons_of_mem d hc)) hrest
      exact ⟨rfl, ht⟩

theorem append_cons_inj_of_right (ht : c ∉ t) (ht' : c ∉ t') (h : s ++ c :: t = s' ++ c :: t') :
    s = s' ∧ t = t' := by
  have hreverse : t.reverse ++ c :: s.reverse = t'.reverse ++ c :: s'.reverse := by
    simpa using congrArg List.reverse h
  have h' := append_cons_inj_of_left (by simpa using ht) (by simpa using ht') hreverse
  simpa [and_comm] using h'

/-! ## Lines -/

/-- The text is a line, and its end cannot be taken for a part of the line ending. -/
def IsLine (l : Text) : Prop := '\n' ∉ l ∧ l.getLast? ≠ some '\r'

instance (l : Text) : Decidable l.IsLine :=
  inferInstanceAs (Decidable ('\n' ∉ l ∧ l.getLast? ≠ some '\r'))

theorem IsLine.append (hs : '\n' ∉ s) (ht : t.IsLine) (hne : t ≠ []) : IsLine (s ++ t) := by
  refine ⟨by simp [hs, ht.1], ?_⟩
  rw [List.getLast?_append_of_ne_nil _ hne]
  exact ht.2

theorem unlines_cons (l : Text) (ls : List Text) : unlines (l :: ls) = l ++ '\n' :: unlines ls := by
  simp [unlines]

theorem endedLine_reverse (hs : s.getLast? ≠ some '\r') : endedLine s.reverse = s := by
  rw [← List.head?_reverse] at hs
  unfold endedLine
  split
  · simp_all
  · simp

theorem lines_go_append (hs : '\n' ∉ s) (done : List Text) (current t : Text) :
    lines.go done current (s ++ '\n' :: t) =
      lines.go (endedLine (s.reverse ++ current) :: done) [] t := by
  induction s generalizing current with
  | nil => simp [lines.go]
  | cons c s ih =>
    obtain ⟨hc, hs⟩ := not_or.1 (mt List.mem_cons.2 hs)
    simp [lines.go, Ne.symm hc, ih hs]

theorem lines_go_eq (done : List Text) (current t : Text) :
    lines.go done current t = done.reverse ++ lines.go [] current t := by
  induction t generalizing done current with
  | nil => by_cases hcurrent : current = [] <;> simp [lines.go, hcurrent]
  | cons c t ih =>
    by_cases hc : c = '\n'
    · simp [lines.go, hc, ih (endedLine current :: done), ih [endedLine current]]
    · simp [lines.go, hc, ih done]

/-- A line that is ended comes before those of the rest. -/
theorem lines_append_newline (hs : '\n' ∉ s) (t : Text) :
    lines (s ++ '\n' :: t) = endedLine s.reverse :: lines t := by
  rw [lines, lines_go_append hs, lines_go_eq, List.append_nil]
  rfl

/-- A line that is not ended is kept as it is, unless it is empty. -/
theorem lines_eq_of_not_mem (hs : '\n' ∉ s) : lines s = if s = [] then [] else [s] := by
  have hgo : ∀ current, lines.go [] current s =
      if s.reverse ++ current = [] then [] else [(s.reverse ++ current).reverse] := by
    induction s with
    | nil => intro current; by_cases hcurrent : current = [] <;> simp [lines.go, hcurrent]
    | cons c s ih =>
      obtain ⟨hc, hs⟩ := not_or.1 (mt List.mem_cons.2 hs)
      intro current
      simp [lines.go, Ne.symm hc, ih hs]
  rw [lines, hgo]
  simp

/-- Joined lines are cut where they were joined. -/
theorem lines_unlines {ls : List Text} (h : ∀ l ∈ ls, l.IsLine) : lines (unlines ls) = ls := by
  induction ls with
  | nil => rfl
  | cons l ls ih =>
    obtain ⟨⟨hnewline, hreturn⟩, h⟩ := List.forall_mem_cons.1 h
    rw [unlines_cons, lines_append_newline hnewline, endedLine_reverse hreturn, ih h]

/-- Printed things in a list that is followed by a line of another kind. -/
theorem forall₂_of_map_append {α : Type} {f : α → Text} {R : α → α → Prop} {as bs : List α}
    {x y : List Text} (h : as.map f ++ x = bs.map f ++ y)
    (hR : ∀ a ∈ as, ∀ b ∈ bs, f a = f b → R a b) (hx : ∀ b ∈ bs, x.head? ≠ some (f b))
    (hy : ∀ a ∈ as, y.head? ≠ some (f a)) : List.Forall₂ R as bs ∧ x = y := by
  induction as generalizing bs with
  | nil =>
    cases bs with
    | nil => exact ⟨.nil, h⟩
    | cons b bs => exact absurd (congrArg List.head? h) (hx b List.mem_cons_self)
  | cons a as ih =>
    cases bs with
    | nil => exact absurd (congrArg List.head? h).symm (hy a List.mem_cons_self)
    | cons b bs =>
      obtain ⟨hab, h⟩ := List.cons.inj h
      obtain ⟨hrest, hxy⟩ := ih h
        (fun a' ha' b' hb' => hR a' (List.mem_cons_of_mem a ha') b' (List.mem_cons_of_mem b hb'))
        (fun b' hb' => hx b' (List.mem_cons_of_mem b hb'))
        (fun a' ha' => hy a' (List.mem_cons_of_mem a ha'))
      exact ⟨.cons (hR a List.mem_cons_self b List.mem_cons_self hab) hrest, hxy⟩

/-! ## Integers -/

theorem ofNat_injective : Function.Injective ofNat := by
  intro m n h
  have hvalue := congrArg (fun ds => Nat.ofDigitChars 10 ds 0) h
  simpa only [ofNat, Nat.ofDigitChars_ten_toDigits] using hvalue

theorem isDigit_of_mem_ofNat {n : Nat} (hc : c ∈ ofNat n) : c.isDigit :=
  Nat.isDigit_of_mem_toDigits (by decide) (by decide) hc

theorem space_not_mem_ofNat (n : Nat) : ' ' ∉ ofNat n :=
  fun h => absurd (isDigit_of_mem_ofNat h) (by decide)

theorem mem_ofInt {i : Int} (hc : c ∈ ofInt i) : c = '-' ∨ c.isDigit := by
  cases i with
  | ofNat n => exact Or.inr (isDigit_of_mem_ofNat hc)
  | negSucc n =>
    rcases List.mem_cons.1 hc with rfl | hc
    · exact Or.inl rfl
    · exact Or.inr (isDigit_of_mem_ofNat hc)

theorem ofInt_injective : Function.Injective ofInt := by
  have hsign : ∀ m n : Nat, ofNat m ≠ '-' :: ofNat (n + 1) := by
    intro m n h
    have hdigit : '-'.isDigit := isDigit_of_mem_ofNat (h ▸ List.mem_cons_self : '-' ∈ ofNat m)
    revert hdigit
    decide
  intro i j h
  cases i with
  | ofNat m =>
    cases j with
    | ofNat n => rw [ofNat_injective h]
    | negSucc n => exact absurd h (hsign m n)
  | negSucc m =>
    cases j with
    | ofNat n => exact absurd h.symm (hsign n m)
    | negSucc n => rw [Nat.succ.inj (ofNat_injective (List.cons.inj h).2)]

end ReductionTables.Text
