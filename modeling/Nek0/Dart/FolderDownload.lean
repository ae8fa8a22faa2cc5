import Nek0.Dart.FileManager
import Nek0.Native.RemotePaths

/-!
# `Nek0.Dart.FolderDownload`: the local targets of downloads

`downloadFolder` of `lib/services/ft_service.dart`, and the single-file branch of `_downloadEntry`
of `lib/screens/file_manager_screen.dart`. `downloadFolder` first walks through the remote tree
(`scan`) and then downloads what it found, one file after the other. `folderDownloads` are the
downloads that `ts_ft_download` accepts.

The server answers a listing as it likes, so the answers are a parameter. A user who cancels and a
connection that ends stop the downloads after some number of them. Left out: the progress rows.
-/

set_option autoImplicit false

namespace Nek0.Dart

open Nek0.Native (Call tsFtDownload tsFtList)

/-- `_maxFolderFiles`. -/
def maxFolderFiles : Nat := 500

/-- `_maxFolderDepth`. -/
def maxFolderDepth : Nat := 20

/-- What a folder download gets from elsewhere: the channel and its password, the tokens of the
listings, and the server's answer to each listing. -/
structure Walk where
  channelId : UInt32
  password : Option String
  uuid : Nat → String
  server : Nat → Call → Option (List FtEntry)

/-- `path.split('/')`. -/
def splitPath (path : String) : List (List Char) := path.toList.splitOn '/'

/-- `_joinRemote`. -/
def joinRemote (root rel : String) : String :=
  let r := if root.toList.getLast? = some '/' then String.ofList root.toList.dropLast else root
  if rel.isEmpty then r else r ++ "/" ++ rel

namespace Walk

/-- `listDirectory`, as the `i`-th of the walk. -/
def listDirectory (w : Walk) (i : Nat) (path : String) : Option (List FtEntry) :=
  (tsFtList w.channelId (some path) w.password (some (w.uuid i))).bind (w.server i)

/-- `childRel`: the path of an entry of the directory `rel`, from the root of the walk. -/
def childRel (rel name : String) : String := if rel.isEmpty then name else rel ++ "/" ++ name

/-- One entry of the directory `rel`: the directories to scan and the files found. -/
def visit (rel : String) (st : List String × List String) (e : FtEntry) :
    List String × List String :=
  if e.isParent || e.name.isEmpty || e.name == "." then st
  else if (splitPath (childRel rel e.name)).length > maxFolderDepth then st
  else if e.isFile then (st.1, st.2 ++ [childRel rel e.name])
  else (st.1 ++ [childRel rel e.name], st.2)

/-- The breadth-first discovery from the `i`-th directory on. At most `remaining` directories are
scanned. -/
def scan (w : Walk) (remoteDirPath : String) :
    (remaining i : Nat) → (dirsToScan foundPaths : List String) → List String
  | 0, _, _, foundPaths => foundPaths
  | remaining + 1, i, dirsToScan, foundPaths =>
    -- All directories have been scanned.
    match dirsToScan[i]? with
    | none => foundPaths
    | some rel =>
      if foundPaths.length ≥ maxFolderFiles then foundPaths
      else if (splitPath rel).length > maxFolderDepth then
        scan w remoteDirPath remaining (i + 1) dirsToScan foundPaths
      else
        match w.listDirectory i (joinRemote remoteDirPath rel) with
        -- A listing that fails is skipped.
        | none => scan w remoteDirPath remaining (i + 1) dirsToScan foundPaths
        | some entries =>
          let st := entries.foldl (visit rel) (dirsToScan, foundPaths)
          scan w remoteDirPath remaining (i + 1) st.1 st.2

/-- `localTarget`. -/
def localTarget (localDestDir rel : String) : String :=
  let segs := splitPath rel
  let fileName := String.ofList (segs.getLast?.getD [])
  let subSegments := segs.dropLast
  let dirs :=
    if subSegments.isEmpty then "" else String.ofList (['/'].intercalate subSegments) ++ "/"
  localDestDir ++ "/" ++ dirs ++ fileName

/-- The downloads of `downloadFolder` that `ts_ft_download` accepts, if it stops after `started`
files. -/
def folderDownloads (w : Walk) (remoteDirPath localDestDir : String) (started : Nat) : List Call :=
  ((w.scan remoteDirPath maxFolderFiles 0 [""] []).take started).filterMap fun rel =>
    tsFtDownload w.channelId (some (joinRemote remoteDirPath rel))
      (some (localTarget localDestDir rel)) w.password

end Walk

/-- `$tmpDir/nek0_$stamp`. -/
def stageDir (tmpDir : String) (stamp : Nat) : String := tmpDir ++ "/nek0_" ++ toString stamp

/-- The download of `_downloadEntry` for a file, if `ts_ft_download` accepts it. -/
def entryDownload (channelId : UInt32) (password : Option String) (currentPath tmpDir : String)
    (stamp : Nat) (entry : FtEntry) : Option Call :=
  if !entry.isFile then none
  else
    tsFtDownload channelId (some (FileManager.join currentPath entry.name))
      (some (stageDir tmpDir stamp ++ "/" ++ entry.name)) password

end Nek0.Dart
