import Mathlib.Data.List.Basic
import ReductionTables.Workspace.Basic

/-!
# Documents of the working directory

However the working directory is written, the paths of the documents in it lead to them. A document
can be read exactly when it is a file that holds a text, and it can be written unless a directory is
in the way; writing one leaves the others alone.
-/

namespace ReductionTables

namespace Workspace

variable {w : Workspace} {d e : Document} {t u directory : Text}

/-! ## Paths -/

theorem segments_ne_nil (t : Text) : segments t ≠ [] := by
  rw [segments.eq_def]
  split
  · simp
  · simp
  · split <;> simp

theorem segments_cons {c : Char} (hc : c ≠ '/') {s : Text} {ss : List Text}
    (h : segments t = s :: ss) : segments (c :: t) = (c :: s) :: ss := by
  rw [segments, h]
  exact fun he => hc he

theorem segments_append (s t : Text) : segments (s ++ '/' :: t) = segments s ++ segments t := by
  induction s with
  | nil => rfl
  | cons c s ih =>
    by_cases hc : c = '/'
    · subst hc
      exact congrArg (List.cons []) ih
    · obtain ⟨p, ps, hs⟩ := List.exists_cons_of_ne_nil (segments_ne_nil s)
      have hst : segments (s ++ '/' :: t) = p :: (ps ++ segments t) := by rw [ih, hs, List.cons_append]
      rw [segments_cons hc hs, List.cons_append, segments_cons hc hst, List.cons_append]

theorem names_append (s t : Text) : names (s ++ '/' :: t) = names s ++ names t := by
  rw [names, segments_append, List.filter_append, names, names]

theorem names_fileName (d : Document) : names d.fileName = [d.fileName] := by
  cases d <;> decide

theorem names_path (directory : Text) (d : Document) :
    names (d.path directory) = names directory ++ [d.fileName] := by
  rw [Document.path]
  split
  · rename_i h
    rw [h, names_fileName]
    rfl
  · split
    · rename_i h
      obtain ⟨s, rfl⟩ := List.getLast?_eq_some_iff.1 h
      have hnil : names [] = [] := rfl
      rw [List.append_assoc, List.singleton_append, names_append, names_append, names_fileName, hnil,
        List.append_nil]
    · have hslash : directory ++ "/".toList ++ d.fileName = directory ++ '/' :: d.fileName := by
        rw [List.append_assoc]
        rfl
      rw [hslash, names_append, names_fileName]

/-- The text names the working directory, by dots and slashes only. -/
def IsHere (directory : Text) : Prop := directory.head? ≠ some '/' ∧ names directory = []

instance (directory : Text) : Decidable (IsHere directory) :=
  inferInstanceAs (Decidable (directory.head? ≠ some '/' ∧ names directory = []))

theorem head?_path (h : IsHere directory) (d : Document) : (d.path directory).head? ≠ some '/' := by
  have hname : d.fileName.head? ≠ some '/' := by cases d <;> decide
  obtain ⟨hhead, -⟩ := h
  rw [Document.path]
  split
  · exact hname
  · rename_i hne
    split
    · rwa [List.head?_append_of_ne_nil _ hne]
    · rwa [List.append_assoc, List.head?_append_of_ne_nil _ hne]

theorem locate_path (h : IsHere directory) (w : Workspace) (d : Document) :
    w.locate (d.path directory) = .ok d := by
  have hnames : names (d.path directory) = [d.fileName] := by rw [names_path, h.2, List.nil_append]
  have hfile : Document.ofFileName? d.fileName = some d := by cases d <;> decide
  rw [locate, if_neg (head?_path h d), hnames]
  simp only [hfile, if_true]

end Workspace

/-! ## Contents -/

/-- A file that holds a text. -/
def Content.ofText (t : Text) : Content := .file (String.ofList t).toUTF8

theorem Content.ofText_ne_directory (t : Text) : ofText t ≠ directory := Content.noConfusion

namespace Workspace

variable {w : Workspace} {d e : Document} {t u directory : Text}

theorem textOf_ofText (t : Text) : textOf (.ofText t) = .ok t := by
  have hdecode : String.fromUTF8? (String.ofList t).toUTF8 = some (String.ofList t) :=
    dif_pos (String.ofList t).isValidUTF8
  rw [textOf.eq_def, Content.ofText]
  simp only [hdecode, String.toList_ofList]

theorem eq_ofText_of_textOf {c : Content} (h : textOf c = .ok t) : c = .ofText t := by
  cases c with
  | absent => cases h
  | directory => cases h
  | file bytes =>
    rw [textOf, String.fromUTF8?] at h
    by_cases hvalid : bytes.IsValidUTF8
    · rw [dif_pos hvalid] at h
      obtain rfl := Except.ok.inj h
      rw [Content.ofText, String.ofList_toList]
      rfl
    · rw [dif_neg hvalid] at h
      cases h

/-! ## Reading -/

theorem read_path (h : IsHere directory) (ht : w d = .ofText t) :
    w.read (d.path directory) = .ok t := by
  rw [read, locate_path h]
  simp only [ht, textOf_ofText]

theorem read_path_eq_error (h : IsHere directory) (hd : ∀ t, w d ≠ .ofText t) :
    ∃ f, w.read (d.path directory) = .error f := by
  rw [read, locate_path h]
  cases ht : textOf (w d) with
  | ok t => exact absurd (eq_ofText_of_textOf ht) (hd t)
  | error e => exact ⟨.inaccessible (d.path directory) e, by simp only [ht]⟩

/-! ## Writing -/

theorem write_path (h : IsHere directory) (hd : w d ≠ .directory) (t : Text) :
    w.write (d.path directory) t = .ok (w.put d t) := by
  rw [write, locate_path h]
  cases hw : w d with
  | directory => exact absurd hw hd
  | absent => simp only [hw]
  | file bytes => simp only [hw]

theorem write_path_eq_error (h : IsHere directory) (hd : w d = .directory) (t : Text) :
    w.write (d.path directory) t = .error (.inaccessible (d.path directory) .isDirectory) := by
  rw [write, locate_path h]
  simp only [hd]

theorem put_self (w : Workspace) (d : Document) (t : Text) : w.put d t d = .ofText t := if_pos rfl

theorem put_of_ne (w : Workspace) (h : e ≠ d) (t : Text) : w.put d t e = w e := if_neg h

theorem put_eq_self (h : w d = .ofText t) : w.put d t = w := by
  funext e
  by_cases he : e = d
  · rw [he, put_self, h]
  · exact put_of_ne w he t

end Workspace

end ReductionTables
