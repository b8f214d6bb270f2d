import ReductionTables.Workspace.CommandLine

/-!
# The program

Loads the documents of the working directory, runs, stores what the run wrote, and prints its log on
the error stream. The environment variable RUST_LOG sets the verbosity.
-/

namespace ReductionTables

/-- The name of a document's file, as the file system has it. -/
def Document.systemName (d : Document) : String := String.ofList d.fileName

/-- What stands at a document's name in the working directory. -/
def loadContent (d : Document) : IO Content := do
  try
    return .file (← IO.FS.readBinFile d.systemName)
  catch
    | .noFileOrDirectory .. => return .absent
    | .inappropriateType .. => return .directory
    | e => throw e

def loadWorkspace : IO Workspace := do
  let log ← loadContent .log
  let header ← loadContent .header
  let source ← loadContent .source
  return fun
    | .log => log
    | .header => header
    | .source => source

/-- Writes the files that differ between two workspaces. -/
def storeChanges (before after : Workspace) : IO Unit := do
  for d in Document.all do
    match before d, after d with
    | .file old, .file new => if old.data ≠ new.data then IO.FS.writeBinFile d.systemName new
    | _, .file new => IO.FS.writeBinFile d.systemName new
    | _, _ => pure ()

end ReductionTables

open ReductionTables in
def main : IO UInt32 := do
  let verbosity :=
    match ← IO.getEnv "RUST_LOG" with
    | some setting => Verbosity.ofSetting setting.toList
    | none => Verbosity.standard
  let before ← loadWorkspace
  let exit := before.call verbosity
  storeChanges before exit.workspace
  IO.eprint (String.ofList exit.errorOutput)
  return exit.code.toUInt32
