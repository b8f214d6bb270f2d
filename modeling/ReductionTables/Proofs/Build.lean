import ReductionTables.Build
import ReductionTables.Proofs.Catalog
import ReductionTables.Proofs.Ranking
import ReductionTables.Proofs.Row.Faithful
import ReductionTables.Proofs.Tables

/-!
# A build holds the facts of its log

Only the first expression that states a fact is kept with it, but a row determines its expression, so
the table that this expression chooses is the one that every verdict of the row asks for.
-/

namespace ReductionTables.Build

variable {ls : List Text} {b : Build}

theorem ofLines_eq_ok (h : ofLines ls = .ok b) :
    b.catalog = Catalog.ofLines ls ∧ b.catalog.ranking = .ok b.ranked := by
  rw [ofLines] at h
  obtain ⟨ranked, hranked, rfl⟩ := map_eq_ok.1 h
  exact ⟨rfl, hranked⟩

/-- The build from verdicts. -/
def ofVerdicts (vs : List Verdict) : Except Failure Build :=
  (Catalog.ofVerdicts vs).ranking.map fun ranked => ⟨Catalog.ofVerdicts vs, ranked⟩

theorem ofLines_eq {vs : List Verdict} (h : ls.filterMap Verdict.ofLine? = vs) :
    ofLines ls = ofVerdicts vs := by
  subst h
  rfl

/-- Two builds are looked at through the verdicts of their logs, which are much shorter. -/
theorem exists_builds {ls₁ ls₂ : List Text} {p q : Build → Build → Prop} (vs₁ vs₂ : List Verdict)
    (h₁ : ls₁.filterMap Verdict.ofLine? = vs₁) (h₂ : ls₂.filterMap Verdict.ofLine? = vs₂)
    (h : ∃ b₁ ∈ (ofVerdicts vs₁).toOption, ∃ b₂ ∈ (ofVerdicts vs₂).toOption, p b₁ b₂)
    (hq : ∀ b₁ b₂, ofLines ls₁ = .ok b₁ → ofLines ls₂ = .ok b₂ → p b₁ b₂ → q b₁ b₂) :
    ∃ b₁ b₂, ofLines ls₁ = .ok b₁ ∧ ofLines ls₂ = .ok b₂ ∧ q b₁ b₂ := by
  obtain ⟨b₁, hb₁, b₂, hb₂, hp⟩ := h
  have hok₁ : ofLines ls₁ = .ok b₁ := (ofLines_eq h₁).trans (eq_ok_of_mem_toOption hb₁)
  have hok₂ : ofLines ls₂ = .ok b₂ := (ofLines_eq h₂).trans (eq_ok_of_mem_toOption hb₂)
  exact ⟨b₁, b₂, hok₁, hok₂, hq b₁ b₂ hok₁ hok₂ hp⟩

theorem rows_perm (h : ofLines ls = .ok b) :
    (Slot.all.flatMap b.tables.rows).Perm (Catalog.ofLines ls).rows := by
  obtain ⟨hcatalog, hranking⟩ := ofLines_eq_ok h
  rw [hcatalog] at hranking
  exact (Tables.rows_perm_ofRanking b.ranked .single).trans (Catalog.rows_perm_of_ranking hranking)

theorem rankedRow_of_mem (h : ofLines ls = .ok b) {r : RankedRow} (hr : r ∈ b.ranked) :
    r.row.entry.rankedRow = .ok r := by
  obtain ⟨hcatalog, hranking⟩ := ofLines_eq_ok h
  exact Catalog.rankedRow_of_ranking (hcatalog ▸ Catalog.collects_ofLines ls) hranking hr

/-- A ranked row has the root of every verdict that states it, not only of the one whose expression
was kept. -/
theorem root_eq (h : ofLines ls = .ok b) {v : Verdict} {r : RankedRow} (hr : r ∈ b.ranked)
    (hrow : r.row = Row.ofVerdict v) :
    ∃ e, Expression.ofText v.oriented = .ok e ∧ e.root = .ok r.root := by
  have hranked := rankedRow_of_mem h hr
  rw [hrow, Row.entry_ofVerdict] at hranked
  obtain ⟨e, htext, hroot, -⟩ := Entry.rankedRow_eq_ok hranked
  exact ⟨e, htext, hroot⟩

/-- Every verdict is listed by the table that the root of its own expression chooses. -/
theorem mem_tables_iff (h : ofLines ls = .ok b) {v : Verdict}
    (hv : v ∈ ls.filterMap Verdict.ofLine?) :
    ∃ e o, Expression.ofText v.oriented = .ok e ∧ e.root = .ok o ∧
      ∀ s, Row.ofVerdict v ∈ b.tables.rows s ↔ s = ⟨o, .single⟩ := by
  have hmem : Row.ofVerdict v ∈ Slot.all.flatMap b.tables.rows :=
    (rows_perm h).mem_iff.2 ((Catalog.collects_ofLines ls).mem_rows v hv)
  obtain ⟨s, -, hs⟩ := List.mem_flatMap.1 hmem
  obtain ⟨r, hr, rfl, hrow⟩ := Tables.mem_rows_ofRanking.1 hs
  obtain ⟨e, htext, hroot⟩ := root_eq h hr hrow
  refine ⟨e, r.root, htext, hroot, fun s' => ⟨fun hs' => ?_, ?_⟩⟩
  · obtain ⟨r', hr', rfl, hrow'⟩ := Tables.mem_rows_ofRanking.1 hs'
    obtain ⟨e', htext', hroot'⟩ := root_eq h hr' hrow'
    rw [htext] at htext'
    obtain rfl := Except.ok.inj htext'
    rw [hroot] at hroot'
    rw [Except.ok.inj hroot']
  · rintro rfl
    exact hs

theorem count_tables (h : ofLines ls = .ok b) {v : Verdict}
    (hv : v ∈ ls.filterMap Verdict.ofLine?) :
    (Slot.all.flatMap b.tables.rows).count (Row.ofVerdict v) = 1 := by
  have hcollects := Catalog.collects_ofLines ls
  rw [(rows_perm h).count_eq]
  exact List.count_eq_one_of_mem hcollects.rows_nodup (hcollects.mem_rows v hv)

theorem exists_verdict (h : ofLines ls = .ok b) {s : Slot} {row : Row} (hrow : row ∈ b.tables.rows s) :
    ∃ v ∈ ls.filterMap Verdict.ofLine?, Row.ofVerdict v = row := by
  have hmem : row ∈ Slot.all.flatMap b.tables.rows :=
    List.mem_flatMap.2 ⟨s, s.mem_all, hrow⟩
  exact (Catalog.collects_ofLines ls).exists_of_mem_rows ((rows_perm h).mem_iff.1 hmem)

theorem rows_double (b : Build) (o : Operator) : b.tables.rows ⟨o, .double⟩ = [] := by
  refine List.eq_nil_iff_forall_not_mem.2 fun row hrow => ?_
  obtain ⟨r, -, hslot, -⟩ := Tables.mem_rows_ofRanking.1 hrow
  cases hslot

theorem size_tables (h : ofLines ls = .ok b) : b.tables.size = b.report.unique := by
  obtain ⟨hcatalog, -⟩ := ofLines_eq_ok h
  have hlen := (rows_perm h).length_eq
  rw [← hcatalog] at hlen
  exact hlen.trans (List.length_map Entry.row)

theorem unique_le_total (h : ofLines ls = .ok b) : b.report.unique ≤ b.report.total := by
  obtain ⟨hcatalog, -⟩ := ofLines_eq_ok h
  exact (hcatalog ▸ Catalog.collects_ofLines ls).unique_le_total

/-- The tables of a log are exactly its facts: every verdict has its row once, in the table that its
own expression asks for, and there are no other rows. -/
theorem tables_are_the_facts (h : ofLines ls = .ok b) :
    (∀ l ∈ ls, ∀ v, Verdict.ofLine? l = some v →
      (Slot.all.flatMap b.tables.rows).count (Row.ofVerdict v) = 1 ∧
        ∃ e o, Expression.ofText v.oriented = .ok e ∧ e.root = .ok o ∧
          ∀ s, Row.ofVerdict v ∈ b.tables.rows s ↔ s = ⟨o, .single⟩) ∧
      (∀ s, ∀ row ∈ b.tables.rows s,
        ∃ l ∈ ls, ∃ v, Verdict.ofLine? l = some v ∧ Row.ofVerdict v = row) ∧
      (∀ o, b.tables.rows ⟨o, .double⟩ = []) ∧
      b.tables.size = b.report.unique ∧ b.report.unique ≤ b.report.total := by
  refine ⟨fun l hl v hv => ?_, fun s row hrow => ?_, b.rows_double, size_tables h,
    unique_le_total h⟩
  · have hmem : v ∈ ls.filterMap Verdict.ofLine? := List.mem_filterMap.2 ⟨l, hl, hv⟩
    exact ⟨count_tables h hmem, mem_tables_iff h hmem⟩
  · obtain ⟨v, hv, hrow'⟩ := exists_verdict h hrow
    obtain ⟨l, hl, hline⟩ := List.mem_filterMap.1 hv
    exact ⟨l, hl, v, hline, hrow'⟩

theorem restated_minimum_is_listed_once :
    ∃ b, ofLines [
        "Leaves: 2, i: 0, Min::make(x0, y0) -> Left-associativity with identity: \x7b 7 \x7d",
        "Elapsed: 2 s",
        "Leaves: 2, i: 1, Min::make(y0, x0) -> Right-associativity with identity: \x7b 7 \x7d"] =
          .ok b ∧
      (Slot.all.flatMap b.tables.rows).count
        (Row.ofVerdict ⟨"Min::make(y0, x0)", .right, .proven, "7"⟩) = 1 ∧
      b.tables.size = b.report.unique := by
  refine Exists.imp (fun b hb => ⟨hb, ?_, ?_⟩) (exists_of_isOk (by decide +kernel))
  · exact ((tables_are_the_facts hb).1 _ (List.mem_of_getElem? (i := 2) rfl) _
      (by decide +kernel)).1
  · exact (tables_are_the_facts hb).2.2.2.1

end ReductionTables.Build
