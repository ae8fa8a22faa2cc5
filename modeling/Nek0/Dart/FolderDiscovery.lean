import Nek0.Dart.FolderDownload
import Nek0.Lib.Loop

/-!
# `Nek0.Dart.FolderDiscovery`: the discovery loop of `downloadFolder`

`Walk.scan` gives the files that `downloadFolder` finds. This is its loop again, one round at a
time, with the directories that it asks for. `answers` are there for the specifications: the
listings that were answered, each with its directory.
-/

set_option autoImplicit false

namespace Nek0.Dart

open Nek0.Lib.Loop (loop)

/-- An answered listing. -/
structure Answer where
  rel : String
  entries : List FtEntry

/-- The state of the loop. -/
structure Discovery where
  i : Nat
  dirsToScan : List String
  foundPaths : List String
  listings : List String
  answers : List Answer

namespace Discovery

/-- Before the first directory. -/
def start : Discovery where
  i := 0
  dirsToScan := [""]
  foundPaths := []
  listings := []
  answers := []

/-- One round of the loop. -/
def step (w : Walk) (remoteDirPath : String) (d : Discovery) : Option Discovery :=
  match d.dirsToScan[d.i]? with
  | none => none
  | some rel =>
    -- The bounds on the files and on the directories.
    if d.foundPaths.length ≥ maxFolderFiles ∨ d.i ≥ maxFolderFiles then none
    -- A directory that is too deep is left out.
    else if (splitPath rel).length > maxFolderDepth then some { d with i := d.i + 1 }
    else
      let path := joinRemote remoteDirPath rel
      match w.listDirectory d.i path with
      -- A listing that fails is skipped.
      | none => some { d with i := d.i + 1, listings := d.listings ++ [path] }
      | some entries =>
        let st := entries.foldl (Walk.visit rel) (d.dirsToScan, d.foundPaths)
        some
          { i := d.i + 1
            dirsToScan := st.1
            foundPaths := st.2
            listings := d.listings ++ [path]
            answers := d.answers ++ [⟨rel, entries⟩] }

/-- The loop. -/
def run (w : Walk) (remoteDirPath : String) (fuel : Nat) : Option Discovery :=
  loop (step w remoteDirPath) fuel start

end Discovery

end Nek0.Dart
