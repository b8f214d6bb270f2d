import ReductionTables.Build
import ReductionTables.Proofs.Catalog
import ReductionTables.Proofs.FirstOccurrences
import ReductionTables.Proofs.Row.Faithful

/-!
# Catalogs of whole histories

However verdicts are entered, what a catalog holds in the end depends on their order alone: the facts
as they first occurred, the expression of each, and the counts. Of the lines of a log each is either
counted or told of as skipped.
-/

namespace ReductionTables

/-- A way in which verdicts are entered. -/
inductive Entering where
  /-- From lines of a log, some of which report no verdict. -/
  | lines (ls : List Text)
  | verdict (v : Verdict)

/-- The verdicts that are entered. -/
def Entering.verdicts : Entering → List Verdict
  | lines ls => ls.filterMap Verdict.ofLine?
  | verdict v => [v]

namespace Catalog

def enter (c : Catalog) : Entering → Catalog
  | .lines ls => c.insertLines ls
  | .verdict v => c.insert v

/-- The expression that is kept with a fact. -/
def source? (c : Catalog) (row : Row) : Option Text :=
  (c.entries.find? fun e => e.row = row).map Entry.source

/-- Enters the verdict of a line, or tells that the line is skipped. -/
def readLine (s : Catalog × List Notice) (l : Text) : Catalog × List Notice :=
  match Verdict.ofLine? l with
  | some v => (s.1.insert v, s.2)
  | none => (s.1, s.2 ++ [.skipped l])

variable {c : Catalog} {v : Verdict} {vs : List Verdict} {ls : List Text} {row : Row}

/-! ## Several ways to the same catalog -/

theorem enter_eq (c : Catalog) (x : Entering) : c.enter x = c.insertMany x.verdicts := by
  cases x with
  | lines ls => rfl
  | verdict v => rfl

theorem insertMany_append (c : Catalog) (vs ws : List Verdict) :
    c.insertMany (vs ++ ws) = (c.insertMany vs).insertMany ws :=
  List.foldl_append

theorem foldl_enter (c : Catalog) (history : List Entering) :
    history.foldl enter c = c.insertMany (history.flatMap Entering.verdicts) := by
  induction history generalizing c with
  | nil => rfl
  | cons x history ih => simp [ih, enter_eq, insertMany_append]

theorem flatMap_verdicts_lines (pieces : List (List Text)) :
    (pieces.map Entering.lines).flatMap Entering.verdicts = pieces.flatten.filterMap Verdict.ofLine? := by
  rw [List.filterMap_flatten, List.flatMap_map, List.flatMap_def]
  rfl

/-! ## Facts and their expressions -/

theorem rows_ofVerdicts (vs : List Verdict) :
    (ofVerdicts vs).rows = (vs.map Row.ofVerdict).eraseDups := by
  induction vs using List.reverseRecOn with
  | nil => rfl
  | append_singleton vs v ih =>
    have hinsert : ofVerdicts (vs ++ [v]) = (ofVerdicts vs).insert v := insertMany_append ∅ vs [v]
    rw [hinsert, rows_insert, List.map_append, List.map_singleton, eraseDups_concat, ih]
    simp only [List.mem_eraseDups]

/-- The expression that is kept with a fact is that of every verdict that states the fact. -/
theorem source?_eq_some (hc : c.Collects vs) {t : Text} :
    c.source? row = some t ↔ ∃ v ∈ vs, Row.ofVerdict v = row ∧ v.oriented = t := by
  have hsame : ∀ e ∈ c.entries, ∀ e' ∈ c.entries, e.row = row → e'.row = row →
      e.source = e'.source := by
    intro e he e' he' hrow hrow'
    obtain ⟨v, -, rfl⟩ := hc.stated e he
    obtain ⟨v', -, rfl⟩ := hc.stated e' he'
    exact Verdict.oriented_eq_of_row_eq (hrow.trans hrow'.symm)
  rw [source?, find?_map_eq_some_iff hsame]
  constructor
  · rintro ⟨e, he, hrow, rfl⟩
    obtain ⟨v, hv, rfl⟩ := hc.stated e he
    exact ⟨v, hv, hrow, rfl⟩
  · rintro ⟨v, hv, rfl, rfl⟩
    obtain ⟨e, he, hrow⟩ := List.mem_map.1 (hc.mem_rows v hv)
    obtain ⟨w, -, rfl⟩ := hc.stated e he
    exact ⟨_, he, hrow, Verdict.oriented_eq_of_row_eq hrow⟩

/-! ## Lines -/

/-- Line by line, each is either entered or told of. -/
theorem foldl_readLine (c : Catalog) (ns : List Notice) (ls : List Text) :
    ls.foldl readLine (c, ns) = (c.insertLines ls, ns ++ skippedLines ls) := by
  induction ls generalizing c ns with
  | nil => simp [insertLines, insertMany, skippedLines]
  | cons l ls ih =>
    cases hl : Verdict.ofLine? l with
    | some v => simp [readLine, hl, ih, insertLines, insertMany, skippedLines]
    | none => simp [readLine, hl, ih, insertLines, insertMany, skippedLines]

theorem length_verdicts_add_skipped (ls : List Text) :
    (ls.filterMap Verdict.ofLine?).length + (skippedLines ls).length = ls.length := by
  induction ls with
  | nil => rfl
  | cons l ls ih =>
    simp only [skippedLines, List.length_map] at ih ⊢
    cases hl : Verdict.ofLine? l with
    | some v => simp [hl]; omega
    | none => simp [hl]; omega

/-- The catalog of a log holds the facts of its verdicts as they first occur, each with the expression
that every verdict of it states, and counts all verdicts. The lines are read one by one, and each that
is not counted is told of in its turn. Any history that enters the same verdicts, in pieces of the log
or one at a time, comes to this catalog. -/
theorem catalog_is_that_of_any_history (h : ls.filterMap Verdict.ofLine? = vs) :
    (ofLines ls).total = vs.length ∧
      (ofLines ls).right = (vs.countP fun v => v.direction = .right) ∧
      (ofLines ls).unknown = (vs.countP fun v => v.status = .unknown) ∧
      (ofLines ls).rows = (vs.map Row.ofVerdict).eraseDups ∧
      (∀ row t, (ofLines ls).source? row = some t ↔
        ∃ v ∈ vs, Row.ofVerdict v = row ∧ v.oriented = t) ∧
      ls.foldl readLine (∅, []) = (ofLines ls, skippedLines ls) ∧
      (ofLines ls).total + (skippedLines ls).length = ls.length ∧
      (∀ pieces : List (List Text), pieces.flatten = ls → pieces.foldl insertLines ∅ = ofLines ls) ∧
      ofVerdicts vs = ofLines ls ∧
      ∀ history : List Entering, history.flatMap Entering.verdicts = vs →
        history.foldl enter ∅ = ofLines ls := by
  subst h
  have hcollects := collects_ofLines ls
  have hcounts := counts_insertMany ∅ (ls.filterMap Verdict.ofLine?)
  have hhistory (history : List Entering)
      (h : history.flatMap Entering.verdicts = ls.filterMap Verdict.ofLine?) :
      history.foldl enter ∅ = ofLines ls := by
    rw [foldl_enter, h]
    rfl
  refine ⟨hcollects.total_eq, hcounts.1.trans (Nat.zero_add _), hcounts.2.trans (Nat.zero_add _),
    rows_ofVerdicts _, fun row t => source?_eq_some hcollects, foldl_readLine ∅ [] ls, ?_, ?_, rfl,
    hhistory⟩
  · rw [hcollects.total_eq, length_verdicts_add_skipped]
  · rintro pieces rfl
    have hpieces := hhistory (pieces.map .lines) (flatMap_verdicts_lines pieces)
    rwa [List.foldl_map] at hpieces

theorem turned_difference_keeps_its_first_expression :
    ∃ c, c = ofLines [
        "Leaves: 2, i: 0, Min::make(x0, y0) -> Left-associativity with identity: \x7b 2147483647 \x7d",
        "noise",
        "Leaves: 2, i: 0, Sub::make(x0, y0) -> Right-associativity with identity: \x7b 0 \x7d",
        "Leaves: 2, i: 3, Sub::make(y0, x0) -> Left-associativity with identity: \x7b 0 \x7d"] ∧
      c.total = 3 ∧ c.right = 1 ∧
      c.rows = [⟨"i32_min_x0y0", "i32_tmax"⟩, ⟨"i32_sub_y0x0", "i32_zero"⟩] ∧
      c.source? ⟨"i32_sub_y0x0", "i32_zero"⟩ = some "Sub::make(y0, x0)".toList ∧
      [Entering.verdict ⟨"Min::make(x0, y0)", .left, .proven, "2147483647"⟩,
        .lines ["Leaves: 9, i: 9, Sub::make(x0, y0) -> right-associativity with identity: \x7b 0 \x7d"],
        .verdict ⟨"Sub::make(y0, x0)", .left, .proven, "0"⟩].foldl enter ∅ = c := by
  have hverdicts : List.filterMap Verdict.ofLine? [
      "Leaves: 2, i: 0, Min::make(x0, y0) -> Left-associativity with identity: \x7b 2147483647 \x7d",
      "noise",
      "Leaves: 2, i: 0, Sub::make(x0, y0) -> Right-associativity with identity: \x7b 0 \x7d",
      "Leaves: 2, i: 3, Sub::make(y0, x0) -> Left-associativity with identity: \x7b 0 \x7d"] =
        [⟨"Min::make(x0, y0)", .left, .proven, "2147483647"⟩, ⟨"Sub::make(x0, y0)", .right, .proven, "0"⟩,
          ⟨"Sub::make(y0, x0)", .left, .proven, "0"⟩] := by decide +kernel
  obtain ⟨htotal, hright, -, hrows, hsource, -, -, -, -, hhistory⟩ :=
    catalog_is_that_of_any_history hverdicts
  refine ⟨_, rfl, htotal, hright, hrows.trans (by decide +kernel), (hsource _ _).2 ?_, hhistory _ ?_⟩
  · exact ⟨⟨"Sub::make(x0, y0)", .right, .proven, "0"⟩, by simp, by decide +kernel, by decide +kernel⟩
  · decide +kernel

end Catalog

end ReductionTables
