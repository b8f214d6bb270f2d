import ReductionTables.Document
import ReductionTables.Failure

/-!
# Workspaces

The directory that a run works in, as far as a run can see it: what stands at the names of the three
documents. Reading succeeds on files that hold UTF-8 text, writing succeeds unless a directory is in
the way.
-/

namespace ReductionTables

/-- What stands at a name. -/
inductive Content where
  | absent
  | file (bytes : ByteArray)
  | directory

/-- What stands at the names of the documents. -/
abbrev Workspace := Document → Content

namespace Workspace

/-- The segments of a path between slashes. -/
def segments : Text → List Text
  | [] => [[]]
  | '/' :: cs => [] :: segments cs
  | c :: cs =>
    match segments cs with
    | [] => [[c]]
    | s :: ss => (c :: s) :: ss

/-- The names that a path leads through. Empty segments and single dots lead nowhere new. -/
def names (path : Text) : List Text := (segments path).filter fun s => s ≠ [] ∧ s ≠ ['.']

/--
The document that a path leads to. The only names in the workspace are those of the documents; a
path from the root of the file system leads out of it, and nothing is found there.
-/
def locate (w : Workspace) (path : Text) : Except AccessError Document :=
  if path.head? = some '/' then .error .notFound
  else
    match names path with
    | [] => .error .isDirectory
    | name :: rest =>
      match Document.ofFileName? name with
      | none => .error .notFound
      | some d =>
        if rest = [] then .ok d
        else
          match w d with
          | .file _ => .error .notDirectory
          | .absent | .directory => .error .notFound

def textOf : Content → Except AccessError Text
  | .absent => .error .notFound
  | .directory => .error .isDirectory
  | .file bytes =>
    match String.fromUTF8? bytes with
    | some s => .ok s.toList
    | none => .error .notText

def read (w : Workspace) (path : Text) : Except Failure Text :=
  match w.locate path with
  | .error e => .error (.inaccessible path e)
  | .ok d =>
    match textOf (w d) with
    | .error e => .error (.inaccessible path e)
    | .ok t => .ok t

/-- Puts a file with the given text at a document's name. -/
def put (w : Workspace) (d : Document) (t : Text) : Workspace := fun e =>
  if e = d then .file (String.ofList t).toUTF8 else w e

/-- Writes a file with the given text at a path, whatever file was there before. -/
def write (w : Workspace) (path : Text) (t : Text) : Except Failure Workspace :=
  match w.locate path with
  | .error e => .error (.inaccessible path e)
  | .ok d =>
    match w d with
    | .directory => .error (.inaccessible path .isDirectory)
    | .absent | .file _ => .ok (w.put d t)

end Workspace

end ReductionTables
