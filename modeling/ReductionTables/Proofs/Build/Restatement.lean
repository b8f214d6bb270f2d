import ReductionTables.Proofs.Build.Growth
import ReductionTables.Proofs.Build.Source

/-!
# Logs restated from the left

A verdict counts for its oriented expression and its identity. So every result line of a log may be
replaced by one that states the same fact as proven from the left, and nothing but the counts of
directions and statuses tells the two logs apart.
-/

namespace ReductionTables

namespace Verdict

variable {line : Text} {v : Verdict}

/-- The verdict that its fact is proven from the left. -/
def fromLeft (v : Verdict) : Verdict where
  expression := v.oriented
  direction := .left
  status := .proven
  identity := v.identity

/-- The result line of the fact, as proven from the left. -/
def leftLine (v : Verdict) : Text :=
  "Leaves: 2, i: 0, ".toList ++ v.oriented ++ " -> Left-associativity with identity: \x7b ".toList ++
    v.identity ++ " \x7d".toList

theorem oriented_fromLeft (v : Verdict) : v.fromLeft.oriented = v.oriented := rfl

theorem ofVerdict_fromLeft (v : Verdict) : Row.ofVerdict v.fromLeft = Row.ofVerdict v := rfl

/-- The pieces of the restated line. -/
def leftCut (v : Verdict) : Cut := ⟨[], "2", "0", v.oriented, "Left", v.identity, []⟩

theorem text_leftCut (v : Verdict) : v.leftCut.text .proven = v.leftLine := by
  unfold Cut.text leftCut leftLine
  simp only [List.append_assoc, List.nil_append, List.append_nil]
  rfl

theorem verdict_leftCut (v : Verdict) : v.leftCut.verdict .proven = v.fromLeft := rfl

theorem fits_leftCut (h : ofLine? line = some v) : v.leftCut.Fits := by
  have hleaves : Text.IsDigits "2".toList := ⟨by decide, List.all_eq_true.1 (by decide)⟩
  have hnumber : Text.IsDigits "0".toList := ⟨by decide, List.all_eq_true.1 (by decide)⟩
  have hword : ∀ x ∈ "Left".toList, Text.isWordCharacter x := List.all_eq_true.1 (by decide)
  exact ⟨hleaves, hnumber, newline_not_mem_oriented (newline_not_mem_expression h), hword,
    isLiteral_identity h⟩

/-- The restated line is read as it was meant, whatever the expression looks like. -/
theorem ofLine?_leftLine (h : ofLine? line = some v) : ofLine? v.leftLine = some v.fromLeft := by
  have hchosen := Cut.chosen_of_printed (fits_leftCut h) rfl rfl
  rw [text_leftCut] at hchosen
  rw [ofLine?, hchosen.verdict?_eq Wording.proven_endsWord, verdict_leftCut]

/-- The line with its result, if it has one, restated from the left. -/
def restate (line : Text) : Text :=
  match ofLine? line with
  | some v => v.leftLine
  | none => line

theorem ofLine?_restate (line : Text) : ofLine? (restate line) = (ofLine? line).map fromLeft := by
  rw [restate]
  cases h : ofLine? line with
  | some v => exact ofLine?_leftLine h
  | none => exact h

theorem filterMap_restate (ls : List Text) :
    (ls.map restate).filterMap ofLine? = (ls.filterMap ofLine?).map fromLeft := by
  rw [List.filterMap_map, List.map_filterMap]
  exact List.filterMap_congr fun l _ => ofLine?_restate l

end Verdict

namespace Catalog

/-- The catalog as it is when no verdict but proven ones from the left are counted. -/
def fromLeft (c : Catalog) : Catalog := { c with right := 0, unknown := 0 }

theorem insert_fromLeft (c : Catalog) (v : Verdict) :
    c.fromLeft.insert v.fromLeft = (c.insert v).fromLeft := by
  rw [insert, insert, Verdict.ofVerdict_fromLeft, Verdict.oriented_fromLeft]
  rfl

theorem insertMany_fromLeft (c : Catalog) (vs : List Verdict) :
    c.fromLeft.insertMany (vs.map Verdict.fromLeft) = (c.insertMany vs).fromLeft := by
  induction vs generalizing c with
  | nil => rfl
  | cons v vs ih => rw [List.map_cons, insertMany_cons, insertMany_cons, insert_fromLeft, ih]

theorem ofLines_restate (ls : List Text) :
    ofLines (ls.map Verdict.restate) = (ofLines ls).fromLeft := by
  rw [ofLines, insertLines, Verdict.filterMap_restate]
  exact insertMany_fromLeft ∅ _

theorem ranking_fromLeft (c : Catalog) : c.fromLeft.ranking = c.ranking := rfl

end Catalog

namespace Build

/-- Restating a log builds the same, with the counts of what is proven from the left only. -/
theorem ofLines_restate (ls : List Text) : ofLines (ls.map Verdict.restate) =
    (ofLines ls).map fun b => ⟨b.catalog.fromLeft, b.ranked⟩ := by
  rw [ofLines, ofLines, Catalog.ofLines_restate, Catalog.ranking_fromLeft]
  cases (Catalog.ofLines ls).ranking with
  | error f => rfl
  | ok ranked => rfl

/-- Directions and statuses reach the output only by the orientation of expressions: a log whose result
lines all restate their facts as proven from the left is refused alike or has the same tables and
files, and counts as many verdicts and facts. -/
theorem restated_log_builds_the_same (ls : List Text) :
    (∀ f, ofLines ls = .error f ↔ ofLines (ls.map Verdict.restate) = .error f) ∧
      ∀ b, ofLines ls = .ok b → ∃ b', ofLines (ls.map Verdict.restate) = .ok b' ∧
        b'.tables = b.tables ∧ b'.tables.files = b.tables.files ∧
        b'.report = ⟨b.report.total, b.report.unique, 0, 0⟩ := by
  refine ⟨fun f => ?_, fun b h => ?_⟩
  · rw [ofLines_restate, map_eq_error]
  · refine ⟨⟨b.catalog.fromLeft, b.ranked⟩, ?_, rfl, rfl, rfl⟩
    rw [ofLines_restate, h]
    rfl

theorem unconfirmed_maximum_is_restated :
    ∃ b b',
      ofLines [
        "Elapsed: 2 s",
        "Leaves: 3, i: 1, Max::make(y0, k) -> UNKNOWN associative with right-identity: \x7b -8 \x7d"] =
          .ok b ∧
      ofLines [
        "Elapsed: 2 s",
        "Leaves: 2, i: 0, Max::make(x0, k) -> Left-associativity with identity: \x7b -8 \x7d"] =
          .ok b' ∧
      b'.tables.files = b.tables.files ∧ b.report = ⟨1, 1, 1, 1⟩ ∧ b'.report = ⟨1, 1, 0, 0⟩ := by
  have hlines : List.map Verdict.restate [
        "Elapsed: 2 s",
        "Leaves: 3, i: 1, Max::make(y0, k) -> UNKNOWN associative with right-identity: \x7b -8 \x7d"] =
      ([
        "Elapsed: 2 s",
        "Leaves: 2, i: 0, Max::make(x0, k) -> Left-associativity with identity: \x7b -8 \x7d"] :
          List Text) := by
    decide +kernel
  refine exists_builds (p := fun b _ => b.report = ⟨1, 1, 1, 1⟩)
    [⟨"Max::make(y0, k)", .right, .unknown, "-8"⟩] [⟨"Max::make(x0, k)", .left, .proven, "-8"⟩]
    (by decide +kernel) (by decide +kernel) (by decide +kernel) fun b b' h h' hreport => ?_
  obtain ⟨c, hc, -, hfiles, hcounts⟩ := (restated_log_builds_the_same _).2 b h
  rw [hlines, h'] at hc
  obtain rfl := Except.ok.inj hc
  rw [hreport] at hcounts
  exact ⟨hfiles, hreport, hcounts⟩

end Build

end ReductionTables
