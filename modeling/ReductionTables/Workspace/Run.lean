import ReductionTables.Build
import ReductionTables.Workspace.Basic

/-!
# Runs

A run reads the log, builds the tables, writes the header and then the source. It ends at its first
failure, so nothing is written unless the whole log could be used.
-/

namespace ReductionTables

/-- What a run leaves behind. -/
structure Run where
  /-- The counts of the log, or why the run failed. -/
  result : Except Failure Report
  /-- What was told on the way, in order. -/
  notices : List Notice
  /-- The workspace after the run. -/
  workspace : Workspace

/-- Runs on the documents of a directory. -/
def Workspace.run (w : Workspace) (directory : Text) : Run :=
  let reading := Notice.reading (Document.log.path directory)
  match w.read (Document.log.path directory) with
  | .error f => ⟨.error f, [reading], w⟩
  | .ok t =>
    let notices := reading :: buildNotices t.lines
    match Build.ofLines t.lines with
    | .error f => ⟨.error f, notices, w⟩
    | .ok b =>
      match w.write (Document.header.path directory) b.tables.files.header with
      | .error f => ⟨.error f, notices, w⟩
      | .ok w =>
        match w.write (Document.source.path directory) b.tables.files.source with
        | .error f => ⟨.error f, notices, w⟩
        | .ok w =>
          let wrote :=
            Notice.wrote (Document.header.path directory) (Document.source.path directory)
          ⟨.ok b.report, notices ++ [wrote], w⟩

/-- The directory that is used when none is named: the working directory. -/
def defaultDirectory : Text := "."

end ReductionTables
