import ReductionTables.Workspace.Run

/-!
# Command line

The program as it is called: it runs in the working directory, prints the notices that its setting
lets through as lines of a log, and after them the failure, if there is one.
-/

namespace ReductionTables

/-- The least important level that is let through, or none if no notice is. -/
abbrev Verbosity := Option Level

namespace Verbosity

def standard : Verbosity := some .info

/-- The verbosity that a setting names, in upper or lower case. A setting that names no level lets
nothing through. -/
def ofSetting (setting : Text) : Verbosity :=
  Level.all.find? fun l => l.name = setting.map Char.toUpper

def allows (v : Verbosity) (n : Notice) : Bool :=
  match v with
  | some l => decide (n.level.rank ≤ l.rank)
  | none => false

end Verbosity

/-- A notice as a line of a log: its level in five columns, its origin, and its message. -/
def Notice.line (n : Notice) : Text :=
  "[".toList ++ n.level.name ++ List.replicate (5 - n.level.name.length) ' ' ++ " ".toList ++
    n.origin ++ "] ".toList ++ n.message

/-- What a call of the program leaves behind. -/
structure Exit where
  /-- The exit code: 0 for success, 1 for failure. -/
  code : Nat
  errorOutput : Text
  /-- The workspace after the call. -/
  workspace : Workspace

/-- What is left of a run that is told at a verbosity. The failure is told at every verbosity. -/
def Run.exit (r : Run) (v : Verbosity) : Exit :=
  let log := (r.notices.filter v.allows).map Notice.line
  match r.result with
  | .ok _ => ⟨0, Text.unlines log, r.workspace⟩
  | .error f => ⟨1, Text.unlines (log ++ [f.message]), r.workspace⟩

/-- A call of the program in a workspace. -/
def Workspace.call (w : Workspace) (v : Verbosity) : Exit := (w.run defaultDirectory).exit v

end ReductionTables
