import ReductionTables.Proofs.Build
import ReductionTables.Proofs.Workspace.Documents
import ReductionTables.Workspace.CommandLine

/-!
# What a run leaves behind

A run changes nothing unless tables can be built from the log. Then it writes the header and, after
it, the source, and it stops where a directory is in the way. The header is the same for all logs, so
a run that is made again finds nothing to change.
-/

namespace ReductionTables.Workspace

variable {w : Workspace} {directory t : Text} {b : Build}

/-- The log is a text that can be built from, with this result. -/
def Builds (w : Workspace) (b : Build) : Prop :=
  ∃ t, w .log = .ofText t ∧ Build.ofLines t.lines = .ok b

/-! ## Where a run stops -/

theorem exists_run_of_not_builds (h : IsHere directory) (hb : ∀ b, ¬ w.Builds b) :
    ∃ f notices, w.run directory = ⟨.error f, notices, w⟩ := by
  by_cases hlog : ∃ t, w .log = .ofText t
  · obtain ⟨t, ht⟩ := hlog
    cases hbuild : Build.ofLines t.lines with
    | ok b => exact absurd ⟨t, ht, hbuild⟩ (hb b)
    | error f =>
      refine ⟨f, .reading (Document.log.path directory) :: buildNotices t.lines, ?_⟩
      rw [run, read_path h ht]
      simp only [hbuild]
  · obtain ⟨f, hf⟩ := read_path_eq_error h fun t ht => hlog ⟨t, ht⟩
    refine ⟨f, [.reading (Document.log.path directory)], ?_⟩
    rw [run, hf]

section

variable (h : IsHere directory) (ht : w .log = .ofText t) (hb : Build.ofLines t.lines = .ok b)
include h ht hb

theorem run_of_header_directory (hheader : w .header = .directory) : w.run directory =
    ⟨.error (.inaccessible (Document.header.path directory) .isDirectory),
      .reading (Document.log.path directory) :: buildNotices t.lines, w⟩ := by
  rw [run, read_path h ht]
  simp only [hb, write_path_eq_error h hheader]

theorem run_of_source_directory (hheader : w .header ≠ .directory) (hsource : w .source = .directory) :
    w.run directory =
      ⟨.error (.inaccessible (Document.source.path directory) .isDirectory),
        .reading (Document.log.path directory) :: buildNotices t.lines,
        w.put .header Code.header⟩ := by
  have hblocked : (w.put .header Code.header) .source = .directory := by
    rw [put_of_ne w (by decide), hsource]
  rw [run, read_path h ht]
  simp only [hb, write_path h hheader, Tables.files, write_path_eq_error h hblocked]

theorem run_of_writable (hheader : w .header ≠ .directory) (hsource : w .source ≠ .directory) :
    w.run directory =
      ⟨.ok b.report,
        .reading (Document.log.path directory) :: buildNotices t.lines ++
          [.wrote (Document.header.path directory) (Document.source.path directory)],
        (w.put .header Code.header).put .source b.source⟩ := by
  have hfree : (w.put .header Code.header) .source ≠ .directory := by
    rwa [put_of_ne w (by decide)]
  rw [run, read_path h ht]
  simp only [hb, write_path h hheader, Tables.files, write_path h hfree, Build.source]

/-- A run that finds the files it would write leaves them as they are. -/
theorem run_of_written (hheader : w .header = .ofText Code.header) (hsource : w .source = .ofText b.source) :
    w.run directory =
      ⟨.ok b.report,
        .reading (Document.log.path directory) :: buildNotices t.lines ++
          [.wrote (Document.header.path directory) (Document.source.path directory)], w⟩ := by
  have hheaderFree : w .header ≠ .directory := hheader ▸ Content.ofText_ne_directory _
  have hsourceFree : w .source ≠ .directory := hsource ▸ Content.ofText_ne_directory _
  rw [run_of_writable h ht hb hheaderFree hsourceFree, put_eq_self hheader, put_eq_self hsource]

end

/-- The ways in which a run ends, with the workspace that each leaves. -/
inductive Ending (w : Workspace) : Except Failure Report → Workspace → Prop
  | refused {f : Failure} (hb : ∀ b, ¬ w.Builds b) : Ending w (.error f) w
  | headerInTheWay {b : Build} {f : Failure} (hb : w.Builds b) (hheader : w .header = .directory) :
    Ending w (.error f) w
  | sourceInTheWay {b : Build} {f : Failure} (hb : w.Builds b) (hheader : w .header ≠ .directory)
    (hsource : w .source = .directory) : Ending w (.error f) (w.put .header Code.header)
  | written {b : Build} (hb : w.Builds b) (hheader : w .header ≠ .directory)
    (hsource : w .source ≠ .directory) :
    Ending w (.ok b.report) ((w.put .header Code.header).put .source b.source)

theorem ending_run (h : IsHere directory) (w : Workspace) :
    w.Ending (w.run directory).result (w.run directory).workspace := by
  by_cases hbuilds : ∃ b, w.Builds b
  · obtain ⟨b, t, ht, hb⟩ := hbuilds
    by_cases hheader : w .header = .directory
    · rw [run_of_header_directory h ht hb hheader]
      exact .headerInTheWay ⟨t, ht, hb⟩ hheader
    · by_cases hsource : w .source = .directory
      · rw [run_of_source_directory h ht hb hheader hsource]
        exact .sourceInTheWay ⟨t, ht, hb⟩ hheader hsource
      · rw [run_of_writable h ht hb hheader hsource]
        exact .written ⟨t, ht, hb⟩ hheader hsource
  · have hnone : ∀ b, ¬ w.Builds b := fun b hb => hbuilds ⟨b, hb⟩
    obtain ⟨f, notices, hrun⟩ := exists_run_of_not_builds h hnone
    rw [hrun]
    exact .refused hnone

theorem Builds.unique {b' : Build} (hb : w.Builds b) (hb' : w.Builds b') : b = b' := by
  obtain ⟨t, ht, hbuild⟩ := hb
  obtain ⟨t', ht', hbuild'⟩ := hb'
  have htext : textOf (w .log) = .ok t := ht ▸ textOf_ofText t
  rw [ht', textOf_ofText] at htext
  obtain rfl := Except.ok.inj htext
  exact Except.ok.inj (hbuild.symm.trans hbuild')

namespace Ending

variable {result : Except Failure Report} {w' : Workspace}

theorem log_eq (h : w.Ending result w') : w' .log = w .log := by
  cases h with
  | refused => rfl
  | headerInTheWay => rfl
  | sourceInTheWay => exact put_of_ne w (by decide) _
  | written => rw [put_of_ne _ (by decide), put_of_ne w (by decide)]

theorem eq_ok_iff (h : w.Ending result w') {report : Report} : result = .ok report ↔
    ∃ b, w.Builds b ∧ b.report = report ∧ w .header ≠ .directory ∧ w .source ≠ .directory := by
  cases h with
  | refused hb => exact ⟨fun he => (by cases he), fun ⟨b, hb', _⟩ => absurd hb' (hb b)⟩
  | headerInTheWay _ hheader =>
    exact ⟨fun he => (by cases he), fun ⟨_, _, _, hfree, _⟩ => absurd hheader hfree⟩
  | sourceInTheWay _ _ hsource =>
    exact ⟨fun he => (by cases he), fun ⟨_, _, _, _, hfree⟩ => absurd hsource hfree⟩
  | written hb hheader hsource =>
    constructor
    · intro he
      exact ⟨_, hb, Except.ok.inj he, hheader, hsource⟩
    · rintro ⟨b', hb', rfl, -, -⟩
      rw [hb.unique hb']

theorem files_of_ok (h : w.Ending result w') {report : Report} (hok : result = .ok report)
    (hb : w.Builds b) : w' .header = .ofText Code.header ∧ w' .source = .ofText b.source := by
  cases h with
  | refused => cases hok
  | headerInTheWay => cases hok
  | sourceInTheWay => cases hok
  | written hb' =>
    rw [hb.unique hb', put_of_ne _ (by decide), put_self, put_self]
    exact ⟨rfl, rfl⟩

theorem eq_of_not_builds (h : w.Ending result w') (hb : ∀ b, ¬ w.Builds b) : w' = w := by
  cases h with
  | refused => rfl
  | headerInTheWay hb' => exact absurd hb' (hb _)
  | sourceInTheWay hb' => exact absurd hb' (hb _)
  | written hb' => exact absurd hb' (hb _)

theorem eq_of_header_directory (h : w.Ending result w') (hheader : w .header = .directory) : w' = w := by
  cases h with
  | refused => rfl
  | headerInTheWay => rfl
  | sourceInTheWay _ hfree => exact absurd hheader hfree
  | written _ hfree => exact absurd hheader hfree

theorem eq_of_source_directory (h : w.Ending result w') (hb : w.Builds b)
    (hheader : w .header ≠ .directory) (hsource : w .source = .directory) :
    w' = w.put .header Code.header := by
  cases h with
  | refused hnone => exact absurd hb (hnone b)
  | headerInTheWay _ hblocked => exact absurd hblocked hheader
  | sourceInTheWay => rfl
  | written _ _ hfree => exact absurd hsource hfree

theorem source_eq_of_error (h : w.Ending result w') {f : Failure} (hf : result = .error f) :
    w' .source = w .source := by
  cases h with
  | refused => rfl
  | headerInTheWay => rfl
  | sourceInTheWay => exact put_of_ne w (by decide) _
  | written => cases hf

end Ending

/-! ## Runs made again -/

theorem run_run (h : IsHere directory) (w : Workspace) :
    (w.run directory).workspace.run directory = w.run directory := by
  by_cases hbuilds : ∃ b, w.Builds b
  · obtain ⟨b, t, ht, hb⟩ := hbuilds
    have hlog : (w.put .header Code.header) .log = .ofText t := by rw [put_of_ne w (by decide), ht]
    have hput : (w.put .header Code.header) .header = .ofText Code.header := put_self w _ _
    by_cases hheader : w .header = .directory
    · rw [run_of_header_directory h ht hb hheader]
      exact run_of_header_directory h ht hb hheader
    · by_cases hsource : w .source = .directory
      · have hfree : (w.put .header Code.header) .header ≠ .directory :=
          hput ▸ Content.ofText_ne_directory _
        have hblocked : (w.put .header Code.header) .source = .directory := by
          rw [put_of_ne w (by decide), hsource]
        rw [run_of_source_directory h ht hb hheader hsource,
          run_of_source_directory h hlog hb hfree hblocked, put_eq_self hput]
      · rw [run_of_writable h ht hb hheader hsource]
        refine run_of_written (w := (w.put .header Code.header).put .source b.source) h ?_ hb ?_ ?_
        · rw [put_of_ne _ (by decide), hlog]
        · rw [put_of_ne _ (by decide), hput]
        · exact put_self _ _ _
  · obtain ⟨f, notices, hrun⟩ := exists_run_of_not_builds h fun b hb => hbuilds ⟨b, hb⟩
    rw [hrun]
    exact hrun

/-! ## Calls of the program -/

theorem exit_workspace (r : Run) (v : Verbosity) : (r.exit v).workspace = r.workspace := by
  rw [Run.exit]
  split <;> rfl

theorem exit_code_eq_zero_iff (r : Run) (v : Verbosity) :
    (r.exit v).code = 0 ↔ ∃ report, r.result = .ok report := by
  rw [Run.exit]
  cases r.result with
  | ok report => exact ⟨fun _ => ⟨report, rfl⟩, fun _ => rfl⟩
  | error f => exact ⟨fun h => absurd h Nat.one_ne_zero, fun ⟨_, h⟩ => (by cases h)⟩

/-- A run on the working directory never changes the log, and changes the source only if it succeeds;
then both files are what the tables of the log say, whatever was there. A run that fails leaves at
most the header, which is the same for all logs. Running again changes nothing, and a call of the
program does to the files what the run does, at every verbosity. -/
theorem run_is_all_or_nothing (h : IsHere directory) (w : Workspace) :
    (w.run directory).workspace .log = w .log ∧
      (∀ report, (w.run directory).result = .ok report ↔
        ∃ b, w.Builds b ∧ b.report = report ∧ w .header ≠ .directory ∧ w .source ≠ .directory) ∧
      (∀ b report, w.Builds b → (w.run directory).result = .ok report →
        (w.run directory).workspace .header = .ofText Code.header ∧
          (w.run directory).workspace .source = .ofText b.source) ∧
      ((∀ b, ¬ w.Builds b) → (w.run directory).workspace = w) ∧
      (w .header = .directory → (w.run directory).workspace = w) ∧
      (∀ b, w.Builds b → w .header ≠ .directory → w .source = .directory →
        (w.run directory).workspace = w.put .header Code.header) ∧
      (∀ f, (w.run directory).result = .error f →
        (w.run directory).workspace .source = w .source) ∧
      (w.run directory).workspace.run directory = w.run directory ∧
      ∀ v, (w.call v).workspace = (w.run defaultDirectory).workspace ∧
        ((w.call v).code = 0 ↔ ∃ report, (w.run defaultDirectory).result = .ok report) := by
  have hending := ending_run h w
  refine ⟨hending.log_eq, fun _ => hending.eq_ok_iff, fun _ _ hb hok => hending.files_of_ok hok hb,
    hending.eq_of_not_builds, hending.eq_of_header_directory,
    fun _ => hending.eq_of_source_directory, fun _ => hending.source_eq_of_error, run_run h w,
    fun v => ⟨?_, ?_⟩⟩
  · exact exit_workspace (w.run defaultDirectory) v
  · exact exit_code_eq_zero_iff (w.run defaultDirectory) v

theorem source_in_the_way_leaves_the_header :
    ∃ w : Workspace, ∃ b, w.Builds b ∧ w .header = .ofText "old" ∧ w .source = .directory ∧
      (w.run "./").workspace .header = .ofText Code.header ∧
      (w.run "./").workspace .source = .directory := by
  have hlines : List.filterMap Verdict.ofLine? (Text.lines
      "Leaves: 2, i: 0, Min::make(x0, k) -> Left-associativity with identity: \x7b 7 \x7d") =
        [⟨"Min::make(x0, k)", .left, .proven, "7"⟩] := by
    decide +kernel
  have hbuild : (Build.ofVerdicts [⟨"Min::make(x0, k)", .left, .proven, "7"⟩]).isOk := by
    decide +kernel
  obtain ⟨b, hb⟩ := exists_of_isOk hbuild
  have hok := (Build.ofLines_eq hlines).trans hb
  have hleft {w : Workspace} (hbuilds : w.Builds b) (hheader : w .header ≠ .directory)
      (hsource : w .source = .directory) :
      (w.run "./").workspace = w.put .header Code.header := by
    obtain ⟨-, -, -, -, -, hheaderOnly, -⟩ := run_is_all_or_nothing (by decide : IsHere "./") w
    exact hheaderOnly b hbuilds hheader hsource
  refine ⟨(put (fun _ => .directory) .log
      "Leaves: 2, i: 0, Min::make(x0, k) -> Left-associativity with identity: \x7b 7 \x7d").put
        .header "old", b, ⟨_, rfl, hok⟩, rfl, rfl, ?_⟩
  rw [hleft ⟨_, rfl, hok⟩ (Content.ofText_ne_directory _) rfl]
  exact ⟨put_self _ _ _, put_of_ne _ (by decide) _⟩

end ReductionTables.Workspace
