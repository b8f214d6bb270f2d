import ReductionTables.Proofs.Build
import ReductionTables.Proofs.Text.Decoding
import ReductionTables.Proofs.Verdict.Ending

/-!
# Logs in one text

A log comes as one text, from which its lines are cut. Cutting can take a carriage return from a line
and it drops an empty line at the end, so the lines may not be those that the text was joined of. No
result is lost that way: a carriage return is text behind it, and an empty line holds none.
-/

namespace ReductionTables

/-- The two ways in which a line can be ended. -/
def Text.lineEndings : List Text := ["\n", "\r\n"]

namespace Verdict

variable {l ending last : Text}

theorem ofLine?_endedLine (l : Text) : ofLine? (Text.endedLine l.reverse) = ofLine? l := by
  unfold Text.endedLine
  split
  · rename_i cs hcs
    obtain rfl : cs.reverse ++ ['\r'] = l := by simpa using (congrArg List.reverse hcs).symm
    exact (ofLine?_append (by decide) _).symm
  · rw [List.reverse_reverse]

theorem filterMap_lines_ended (hl : '\n' ∉ l) (he : ending ∈ Text.lineEndings) (t : Text) :
    (Text.lines (l ++ ending ++ t)).filterMap ofLine? =
      [l].filterMap ofLine? ++ (Text.lines t).filterMap ofLine? := by
  obtain ⟨r, rfl, hr, hbrace⟩ : ∃ r, ending = r ++ ['\n'] ∧ '\n' ∉ r ∧ '\x7d' ∉ r := by
    rcases List.mem_pair.1 he with rfl | rfl
    · exact ⟨[], rfl, by simp, by simp⟩
    · exact ⟨['\r'], rfl, by decide, by decide⟩
  have hline : l ++ (r ++ ['\n']) ++ t = l ++ r ++ '\n' :: t := by simp
  rw [hline, Text.lines_append_newline (by simp [hl, hr]), ← List.singleton_append, List.filterMap_append]
  simp only [List.filterMap_cons, ofLine?_endedLine, ofLine?_append hbrace]

theorem filterMap_lines_last (hl : '\n' ∉ l) (hlast : last ∈ [] :: Text.lineEndings) :
    (Text.lines (l ++ last)).filterMap ofLine? = [l].filterMap ofLine? := by
  rcases List.mem_cons.1 hlast with rfl | hlast
  · have hempty : ofLine? [] = none := by decide
    rw [List.append_nil, Text.lines_eq_of_not_mem hl]
    split
    · simp [*]
    · rfl
  · have hnil : Text.lines [] = [] := rfl
    simpa [hnil] using filterMap_lines_ended hl hlast []

/-- Joined lines report what they report alone. -/
theorem filterMap_lines_intercalate {ls : List Text} (hls : ∀ l ∈ ls, '\n' ∉ l)
    (he : ending ∈ Text.lineEndings) (hlast : last ∈ [] :: Text.lineEndings) :
    (Text.lines (ending.intercalate ls ++ last)).filterMap ofLine? = ls.filterMap ofLine? := by
  induction ls with
  | nil =>
    have hempty : ofLine? [] = none := by decide
    simpa [hempty] using filterMap_lines_last (l := []) (by simp) hlast
  | cons l ls ih =>
    obtain ⟨hl, hls⟩ := List.forall_mem_cons.1 hls
    cases ls with
    | nil => simpa using filterMap_lines_last hl hlast
    | cons l' ls =>
      rw [List.intercalate_cons_cons, List.append_assoc, filterMap_lines_ended hl he, ih hls,
        ← List.filterMap_append, List.singleton_append]

end Verdict

namespace Build

/-- Text without a brace behind a line is not read. So a log builds the same from its lines as from the
text that these are joined to, with either line ending, and with or without one after the last. -/
theorem line_endings_are_not_read :
    (∀ line rest, '\x7d' ∉ rest → Verdict.ofLine? (line ++ rest) = Verdict.ofLine? line) ∧
      ∀ ls : List Text, (∀ l ∈ ls, '\n' ∉ l) → ∀ ending ∈ Text.lineEndings,
        ∀ last ∈ [] :: Text.lineEndings,
          ofLines (Text.lines (ending.intercalate ls ++ last)) = ofLines ls := by
  refine ⟨fun line rest hrest => Verdict.ofLine?_append hrest line, fun ls hls ending he last hlast => ?_⟩
  rw [ofLines_eq rfl, ofLines_eq rfl, Verdict.filterMap_lines_intercalate hls he hlast]

theorem minimum_is_read_before_a_return :
    Verdict.ofLine? ("Leaves: 2, i: 0, Min::make(x0, y0) -> Left-associativity with identity: \x7b 7 \x7d".toList ++
        ", \x7b 8\r") = some ⟨"Min::make(x0, y0)", .left, .proven, "7"⟩ ∧
      ∃ ls, ls = [
          "Leaves: 2, i: 0, Min::make(x0, y0) -> Left-associativity with identity: \x7b 7 \x7d\r".toList,
          "Elapsed: 2 s", ""] ∧
        Text.lines ("\n".toList.intercalate ls ++ []) = [
          "Leaves: 2, i: 0, Min::make(x0, y0) -> Left-associativity with identity: \x7b 7 \x7d".toList,
          "Elapsed: 2 s"] ∧
        ∃ b, ofLines ls = .ok b ∧ ofLines (Text.lines ("\n".toList.intercalate ls ++ [])) = .ok b := by
  have hmin : Verdict.ofLine?
      "Leaves: 2, i: 0, Min::make(x0, y0) -> Left-associativity with identity: \x7b 7 \x7d".toList =
        some ⟨"Min::make(x0, y0)", .left, .proven, "7"⟩ := by decide +kernel
  have hsame := line_endings_are_not_read.2 [
      "Leaves: 2, i: 0, Min::make(x0, y0) -> Left-associativity with identity: \x7b 7 \x7d\r",
      "Elapsed: 2 s", ""] (by decide +kernel) "\n" (by decide) [] (by decide)
  refine ⟨(line_endings_are_not_read.1 _ _ (by decide)).trans hmin, _, rfl, by decide +kernel, ?_⟩
  exact Exists.imp (fun b hb => ⟨hb, hsame.trans hb⟩) (exists_of_isOk (by decide +kernel))

end Build

end ReductionTables
