import Mathlib.Data.List.Basic
import Mathlib.Data.Set.Subsingleton
import ReductionTables.Proofs.Text.Search
import ReductionTables.Proofs.Verdict.Literal
import ReductionTables.Verdict.Line

/-!
# Which result a line reports

A line can often be cut around a result in several ways: it may hold several results, and an
expression may itself read like one. `Cut` is any such way, `Cut.Chosen` the one that counts, and the
verdict of a line is that of its chosen cut.
-/

namespace ReductionTables

/-! ## Cuts -/

/-- The pieces of a line that holds a result. -/
@[ext]
structure Cut where
  before : Text
  leaves : Text
  number : Text
  expression : Text
  word : Text
  identity : Text
  after : Text

namespace Cut

/-- The line of the pieces, in a wording. -/
def text (c : Cut) (w : Wording) : Text :=
  c.before ++ "Leaves: ".toList ++ c.leaves ++ ", i: ".toList ++ c.number ++ ", ".toList ++
    c.expression ++ w.beforeWord ++ c.word ++ w.afterWord ++ c.identity ++ " \x7d".toList ++ c.after

/-- Each piece is of its kind. -/
structure Fits (c : Cut) : Prop where
  leaves : Text.IsDigits c.leaves
  number : Text.IsDigits c.number
  expression : '\n' ∉ c.expression
  word : ∀ x ∈ c.word, Text.isWordCharacter x
  identity : Text.IsLiteral c.identity

/-- A way to cut the line around a result of the wording. -/
def Cuts (c : Cut) (w : Wording) (line : Text) : Prop := c.Fits ∧ c.text w = line

/-- The cut with the shortest text before the result and, among those, the longest expression. -/
structure Chosen (c : Cut) (w : Wording) (line : Text) : Prop where
  cuts : c.Cuts w line
  leftmost : ∀ c' : Cut, c'.Cuts w line → c.before.length ≤ c'.before.length
  longest : ∀ c' : Cut, c'.Cuts w line → c'.before.length = c.before.length →
    c'.expression.length ≤ c.expression.length

def verdict (c : Cut) (w : Wording) : Verdict where
  expression := c.expression
  direction := .ofWord c.word
  status := w.status
  identity := c.identity

/-- What stands behind the expression. -/
def tail (c : Cut) (w : Wording) : Text :=
  w.beforeWord ++ (c.word ++ (w.afterWord ++ (c.identity ++ (" \x7d".toList ++ c.after))))

/-- What stands from the result on. -/
def result (c : Cut) (w : Wording) : Text :=
  "Leaves: ".toList ++ (c.leaves ++ (", i: ".toList ++ (c.number ++ (", ".toList ++
    (c.expression ++ c.tail w)))))

theorem text_eq (c : Cut) (w : Wording) : c.text w = c.before ++ c.result w := by
  unfold text result tail
  simp only [List.append_assoc]

end Cut

/-! ## Reading at one place -/

namespace Wording

/-- No direction word goes on into the text behind it. -/
def EndsWord (w : Wording) : Prop := ∃ t, w.afterWord = '-' :: t

theorem proven_endsWord : proven.EndsWord := ⟨_, rfl⟩

theorem unknown_endsWord : unknown.EndsWord := ⟨_, rfl⟩

variable {w : Wording} {t u word identity : Text}

theorem exists_of_head? (h : head? t = some u) :
    ∃ m n, Text.IsDigits m ∧ Text.IsDigits n ∧ t = "Leaves: ".toList ++ (m ++ (", i: ".toList ++
      (n ++ (", ".toList ++ u)))) := by
  simp only [head?, Option.bind_eq_bind, Option.bind_eq_some_iff,
    List.isPrefixOf?_eq_some_iff_append_eq] at h
  obtain ⟨t₁, rfl, ⟨m, t₂⟩, hm, t₃, rfl, ⟨n, t₄⟩, hn, rfl⟩ := h
  obtain ⟨hm', rfl⟩ := Text.isDigits_of_digits? hm
  obtain ⟨hn', rfl⟩ := Text.isDigits_of_digits? hn
  exact ⟨m, n, hm', hn', rfl⟩

theorem head?_append {m n : Text} (hm : Text.IsDigits m) (hn : Text.IsDigits n) (u : Text) :
    head? ("Leaves: ".toList ++ (m ++ (", i: ".toList ++ (n ++ (", ".toList ++ u))))) = some u := by
  have hm' := Text.digits?_append (c := ',') hm (by decide) (" i: ".toList ++ (n ++ (", ".toList ++ u)))
  have hn' := Text.digits?_append (c := ',') hn (by decide) (" ".toList ++ u)
  simp only [head?, Option.bind_eq_bind, Option.bind_eq_some_iff,
    List.isPrefixOf?_eq_some_iff_append_eq]
  exact ⟨_, rfl, _, hm', _, rfl, _, hn', rfl⟩

theorem exists_of_tail? (h : w.tail? t = some (word, identity)) :
    (∀ x ∈ word, Text.isWordCharacter x) ∧ Text.IsLiteral identity ∧ ∃ u,
      t = w.beforeWord ++ (word ++ (w.afterWord ++ (identity ++ (" \x7d".toList ++ u)))) := by
  simp only [tail?, Option.bind_eq_bind, Option.bind_eq_some_iff, Option.pure_def, Option.some.injEq,
    Prod.mk.injEq, List.isPrefixOf?_eq_some_iff_append_eq] at h
  obtain ⟨t₁, rfl, t₂, hword, ⟨i, t₃⟩, hi, u, rfl, rfl, rfl⟩ := h
  obtain ⟨hi', rfl⟩ := Text.isLiteral_of_literal? hi
  refine ⟨fun x hx => ?_, hi', u, ?_⟩
  · simpa using List.all_eq_true.1 List.all_takeWhile x hx
  · rw [hword, List.takeWhile_append_dropWhile]

theorem tail?_append (hw : w.EndsWord) (hword : ∀ x ∈ word, Text.isWordCharacter x)
    (hi : Text.IsLiteral identity) (u : Text) :
    w.tail? (w.beforeWord ++ (word ++ (w.afterWord ++ (identity ++ (" \x7d".toList ++ u))))) =
      some (word, identity) := by
  obtain ⟨v, hv⟩ := hw
  have hhyphen : Text.isWordCharacter '-' = false := by decide
  have hi' := Text.literal?_append (c := ' ') hi (by decide) ("\x7d".toList ++ u)
  have htake : (word ++ (w.afterWord ++ (identity ++ (" \x7d".toList ++ u)))).takeWhile
      Text.isWordCharacter = word := by
    rw [List.takeWhile_append_of_pos hword, hv]
    simp [hhyphen]
  have hdrop : (word ++ (w.afterWord ++ (identity ++ (" \x7d".toList ++ u)))).dropWhile
      Text.isWordCharacter = w.afterWord ++ (identity ++ (" \x7d".toList ++ u)) := by
    rw [List.dropWhile_append_of_pos hword, hv]
    simp [hhyphen]
  simp only [tail?, Option.bind_eq_bind, Option.bind_eq_some_iff, Option.pure_def, Option.some.injEq,
    Prod.mk.injEq, List.isPrefixOf?_eq_some_iff_append_eq]
  exact ⟨_, rfl, _, hdrop.symm, _, hi', u, rfl, htake, rfl⟩

theorem exists_of_result? {v : Verdict} (h : w.result? t = some v) :
    ∃ c : Cut, c.Fits ∧ c.before = [] ∧ c.result w = t ∧ c.verdict w = v ∧
      ∀ s u, c.expression ++ c.tail w = s ++ u → '\n' ∉ s → w.tail? u ≠ none →
        s.length ≤ c.expression.length := by
  simp only [result?, Option.bind_eq_bind, Option.bind_eq_some_iff, Option.pure_def,
    Option.some.injEq] at h
  obtain ⟨t', hhead, ⟨e, word, i⟩, htail, rfl⟩ := h
  obtain ⟨m, n, hm, hn, rfl⟩ := exists_of_head? hhead
  obtain ⟨u, rfl, he, hu, hlongest⟩ := Text.exists_of_longestBefore? htail
  obtain ⟨hword, hi, after, rfl⟩ := exists_of_tail? hu
  exact ⟨⟨[], m, n, e, word, i, after⟩, ⟨hm, hn, he, hword, hi⟩, rfl, rfl, rfl, hlongest⟩

end Wording

namespace Cut

variable {c c' : Cut} {w : Wording} {line : Text}

theorem tail?_tail (hw : w.EndsWord) (hc : c.Fits) : w.tail? (c.tail w) = some (c.word, c.identity) :=
  Wording.tail?_append hw hc.word hc.identity c.after

theorem head?_result (hc : c.Fits) : Wording.head? (c.result w) = some (c.expression ++ c.tail w) :=
  Wording.head?_append hc.leaves hc.number _

/-- Where a line can be cut a result is read. -/
theorem result?_result (hw : w.EndsWord) (hc : c.Fits) : w.result? (c.result w) ≠ none := by
  intro h
  rw [Wording.result?, head?_result hc] at h
  simp only [Option.bind_eq_bind, Option.bind_some, Option.pure_def, Option.bind_eq_none_iff,
    reduceCtorEq, imp_false] at h
  have hnone := Text.longestBefore?_eq_none (Option.eq_none_iff_forall_ne_some.2 fun a ha => h a ha)
    c.expression (c.tail w) rfl hc.expression
  rw [tail?_tail hw hc] at hnone
  cases hnone

/-! ## The chosen cut -/

theorem before_eq (hc : c.Cuts w line) (hc' : c'.Cuts w line)
    (hlen : c.before.length = c'.before.length) :
    c.before = c'.before ∧ c.result w = c'.result w := by
  refine List.append_inj ?_ hlen
  rw [← text_eq, ← text_eq, hc.2, hc'.2]

theorem rest_eq (hc : c.Cuts w line) (hc' : c'.Cuts w line)
    (hlen : c.before.length = c'.before.length) :
    c.expression ++ c.tail w = c'.expression ++ c'.tail w := by
  have hread := head?_result (w := w) hc.1
  rw [(before_eq hc hc' hlen).2, head?_result hc'.1] at hread
  exact (Option.some.inj hread).symm

/-- A chosen cut leaves no choice for its other pieces. -/
theorem Chosen.unique (hw : w.EndsWord) (h : c.Chosen w line) (h' : c'.Chosen w line) : c = c' := by
  have hlen : c.before.length = c'.before.length :=
    Nat.le_antisymm (h.leftmost c' h'.cuts) (h'.leftmost c h.cuts)
  obtain ⟨hbefore, hresult⟩ := before_eq h.cuts h'.cuts hlen
  have hlongest : c.expression.length = c'.expression.length :=
    Nat.le_antisymm (h'.longest c h.cuts hlen) (h.longest c' h'.cuts hlen.symm)
  obtain ⟨hexpression, htail⟩ := List.append_inj (rest_eq h.cuts h'.cuts hlen) hlongest
  obtain ⟨hc, -⟩ := h.cuts
  obtain ⟨hc', -⟩ := h'.cuts
  have hread := tail?_tail hw hc
  rw [htail, tail?_tail hw hc'] at hread
  obtain ⟨hword, hidentity⟩ := Prod.mk.inj (Option.some.inj hread)
  have hafter : c.after = c'.after := by
    simpa only [tail, hword, hidentity, List.append_cancel_left_eq] using htail
  have hi : ", i: ".toList = ',' :: " i: ".toList := rfl
  have hcomma : ", ".toList = ',' :: " ".toList := rfl
  unfold result at hresult
  simp only [hi, hcomma, List.cons_append, List.append_cancel_left_eq] at hresult
  obtain ⟨hleaves, hrest⟩ := Text.IsDigits.append_inj hc.leaves hc'.leaves (by decide) hresult
  obtain ⟨hnumber, -⟩ := Text.IsDigits.append_inj hc.number hc'.number (by decide)
    (List.append_cancel_left hrest)
  exact Cut.ext hbefore hleaves hnumber hexpression hword.symm hidentity.symm hafter

theorem exists_chosen_of_verdict? (hw : w.EndsWord) {v : Verdict} (h : w.verdict? line = some v) :
    ∃ c : Cut, c.Chosen w line ∧ c.verdict w = v := by
  obtain ⟨s, u, rfl, hu, hbefore⟩ := Text.exists_of_firstPlace? h
  obtain ⟨c, hfits, -, rfl, rfl, hlongest⟩ := Wording.exists_of_result? hu
  have hcuts : Cuts { c with before := s } w (s ++ c.result w) :=
    ⟨⟨hfits.leaves, hfits.number, hfits.expression, hfits.word, hfits.identity⟩, text_eq _ w⟩
  refine ⟨{ c with before := s }, ⟨hcuts, fun c' hc' => ?_, fun c' hc' hlen => ?_⟩, rfl⟩
  · refine Nat.not_lt.1 fun hlt => ?_
    have hnone := hbefore c'.before (c'.result w) (by rw [← text_eq, hc'.2]) hlt
    exact result?_result hw hc'.1 hnone
  · refine hlongest c'.expression (c'.tail w) (rest_eq hc' hcuts hlen).symm hc'.1.expression ?_
    rw [tail?_tail hw hc'.1]
    simp

theorem not_cuts_of_verdict? (hw : w.EndsWord) (h : w.verdict? line = none) (c : Cut) :
    ¬ c.Cuts w line := by
  rintro ⟨hfits, rfl⟩
  exact result?_result hw hfits (Text.firstPlace?_eq_none h c.before (c.result w) (text_eq c w))

theorem verdict?_eq_none (hw : w.EndsWord) (h : ∀ c : Cut, ¬ c.Cuts w line) :
    w.verdict? line = none := by
  refine Option.eq_none_iff_forall_ne_some.2 fun v hv => ?_
  obtain ⟨c, hc, -⟩ := exists_chosen_of_verdict? hw hv
  exact h c hc.cuts

theorem Chosen.verdict?_eq (hw : w.EndsWord) (h : c.Chosen w line) :
    w.verdict? line = some (c.verdict w) := by
  cases hread : w.verdict? line with
  | none => exact absurd h.cuts (not_cuts_of_verdict? hw hread c)
  | some v =>
    obtain ⟨c', hc', rfl⟩ := exists_chosen_of_verdict? hw hread
    rw [h.unique hw hc']

theorem exists_chosen (hw : w.EndsWord) (h : c.Cuts w line) : ∃ c' : Cut, c'.Chosen w line := by
  cases hread : w.verdict? line with
  | none => exact absurd h (not_cuts_of_verdict? hw hread c)
  | some v =>
    obtain ⟨c', hc', -⟩ := exists_chosen_of_verdict? hw hread
    exact ⟨c', hc'⟩

/-! ## Printed results -/

/-- The tail of a line that ends with its result is the shortest one in it: the arrow that it begins
with stands nowhere else in it. -/
theorem eq_nil_of_tail (hc : c.Fits) (hafter : c.after = []) {s : Text}
    (h : c.tail .proven = s ++ c'.tail .proven) : s = [] := by
  have hword : '>' ∉ c.word := fun hmem => absurd (hc.word '>' hmem) (by decide)
  have hidentity : '>' ∉ c.identity := hc.identity.not_mem (by decide) (by decide)
  have hwording : '>' ∉ Wording.proven.afterWord := by decide
  have hrest : '>' ∉ ' ' :: (c.word ++ (Wording.proven.afterWord ++
      (c.identity ++ (" \x7d".toList ++ [])))) := by
    simp [hword, hidentity, hwording]
  have harrow : ∀ c : Cut, c.tail .proven = " -".toList ++ '>' :: ' ' :: (c.word ++
      (Wording.proven.afterWord ++ (c.identity ++ (" \x7d".toList ++ c.after)))) := fun _ => rfl
  rw [harrow, harrow, hafter, ← List.append_assoc s] at h
  have hbegin : '>' ∉ " -".toList := by decide
  obtain ⟨hs, -⟩ := (List.append_cons_inj_of_notMem hbegin hrest).1 h
  exact List.self_eq_append_left.1 hs

/-- A result that makes up its whole line is the chosen one, whatever its expression looks like. -/
theorem chosen_of_printed (hc : c.Fits) (hbefore : c.before = []) (hafter : c.after = []) :
    c.Chosen .proven (c.text .proven) := by
  have hcuts : c.Cuts .proven (c.text .proven) := ⟨hc, rfl⟩
  refine ⟨hcuts, fun c' _ => by simp [hbefore], fun c' hc' hlen => ?_⟩
  have hrest := rest_eq hc' hcuts hlen
  rcases List.append_eq_append_iff.1 hrest with ⟨s, he, -⟩ | ⟨s, he, htail⟩
  · simp [he]
  · simp [he, eq_nil_of_tail hc hafter htail]

end Cut

/-! ## The verdict of a line -/

namespace Verdict

variable {line : Text} {v : Verdict}

theorem exists_cut (h : ofLine? line = some v) :
    ∃ (w : Wording) (c : Cut), c.Cuts w line ∧ c.verdict w = v := by
  rw [ofLine?] at h
  split at h
  · rename_i v' hv'
    obtain rfl := Option.some.inj h
    obtain ⟨c, hc, rfl⟩ := Cut.exists_chosen_of_verdict? Wording.proven_endsWord hv'
    exact ⟨_, c, hc.cuts, rfl⟩
  · obtain ⟨c, hc, rfl⟩ := Cut.exists_chosen_of_verdict? Wording.unknown_endsWord h
    exact ⟨_, c, hc.cuts, rfl⟩

theorem isLiteral_identity (h : ofLine? line = some v) : Text.IsLiteral v.identity := by
  obtain ⟨w, c, hc, rfl⟩ := exists_cut h
  exact hc.1.identity

theorem newline_not_mem_expression (h : ofLine? line = some v) : '\n' ∉ v.expression := by
  obtain ⟨w, c, hc, rfl⟩ := exists_cut h
  exact hc.1.expression

/-- A line reports the result of its chosen cut: that of the first wording if it can be cut for it,
else that of the second, and nothing else. There is one chosen cut for each wording at most, and a
printed result gives back the expression, the direction and the identity it was printed with. -/
theorem line_reports_its_chosen_cut :
    (∀ line,
      ((∃ c : Cut, c.Cuts .proven line) →
        ∃ c : Cut, c.Chosen .proven line ∧ ofLine? line = some (c.verdict .proven)) ∧
      ((∀ c : Cut, ¬ c.Cuts .proven line) → (∃ c : Cut, c.Cuts .unknown line) →
        ∃ c : Cut, c.Chosen .unknown line ∧ ofLine? line = some (c.verdict .unknown)) ∧
      ((∀ c : Cut, ¬ c.Cuts .proven line) → (∀ c : Cut, ¬ c.Cuts .unknown line) →
        ofLine? line = none)) ∧
      (∀ line, {c : Cut | c.Chosen .proven line}.Subsingleton ∧
        {c : Cut | c.Chosen .unknown line}.Subsingleton) ∧
      ∀ c : Cut, c.Fits → c.before = [] → c.after = [] →
        ofLine? (c.text .proven) = some (c.verdict .proven) := by
  have hproven : ∀ {line} {c : Cut}, c.Chosen .proven line →
      ofLine? line = some (c.verdict .proven) := by
    intro line c hc
    rw [ofLine?, hc.verdict?_eq Wording.proven_endsWord]
  refine ⟨fun line => ⟨?_, ?_, ?_⟩, fun line => ⟨?_, ?_⟩, ?_⟩
  · rintro ⟨c, hc⟩
    obtain ⟨c', hc'⟩ := Cut.exists_chosen Wording.proven_endsWord hc
    exact ⟨c', hc', hproven hc'⟩
  · rintro hno ⟨c, hc⟩
    obtain ⟨c', hc'⟩ := Cut.exists_chosen Wording.unknown_endsWord hc
    refine ⟨c', hc', ?_⟩
    rw [ofLine?, Cut.verdict?_eq_none Wording.proven_endsWord hno,
      hc'.verdict?_eq Wording.unknown_endsWord]
  · intro hno hno'
    rw [ofLine?, Cut.verdict?_eq_none Wording.proven_endsWord hno,
      Cut.verdict?_eq_none Wording.unknown_endsWord hno']
  · exact fun c hc c' hc' => hc.unique Wording.proven_endsWord hc'
  · exact fun c hc c' hc' => hc.unique Wording.unknown_endsWord hc'
  · exact fun c hc hbefore hafter => hproven (Cut.chosen_of_printed hc hbefore hafter)

theorem result_inside_an_expression_is_kept :
    Cut.Fits ⟨[], "3", "1", "Leaves: 2, i: 0, x0 -> Left-associativity with identity: \x7b 7 \x7d",
        "RIGHT", "-8", []⟩ ∧
      ofLine? ("Leaves: 3, i: 1, Leaves: 2, i: 0, x0 -> Left-associativity with identity: \x7b 7 \x7d" ++
          " -> RIGHT-associativity with identity: \x7b -8 \x7d").toList =
        some ⟨"Leaves: 2, i: 0, x0 -> Left-associativity with identity: \x7b 7 \x7d", .right, .proven,
          "-8"⟩ := by
  have hfits : Cut.Fits
      ⟨[], "3", "1", "Leaves: 2, i: 0, x0 -> Left-associativity with identity: \x7b 7 \x7d", "RIGHT",
        "-8", []⟩ :=
    ⟨⟨by decide, List.all_eq_true.1 (by decide)⟩, ⟨by decide, List.all_eq_true.1 (by decide)⟩,
      by decide +kernel, List.all_eq_true.1 (by decide +kernel),
      Or.inr ⟨['8'], rfl, by decide, List.all_eq_true.1 (by decide)⟩⟩
  have hreads := line_reports_its_chosen_cut.2.2 _ hfits rfl rfl
  refine ⟨hfits, Eq.trans (congrArg ofLine? ?_) (hreads.trans (congrArg some ?_))⟩
  · decide +kernel
  · decide +kernel

end Verdict

end ReductionTables
