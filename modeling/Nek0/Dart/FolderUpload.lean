import Nek0.Dart.FolderDownload

/-!
# `Nek0.Dart.FolderUpload`: `uploadFolder`

`uploadFolder` and `_mkdirLevels` of `lib/services/ft_service.dart`. `uploadFolder` first walks
through a local directory, then makes the remote directories, and then uploads the files, one after
the other.

What it gets from elsewhere is a parameter: the content of the local directories, the order in which
`List.sort` leaves paths of one depth, and whether there is a connection. A user who cancels and a
connection that ends stop the uploads after some number of them. What the requests come to does not
matter, since a failure to make a directory is ignored. The paths are POSIX paths. Left out: the
progress row and the sizes. A file whose size cannot be read ends the call, as a directory that
cannot be listed does.
-/

set_option autoImplicit false

namespace Nek0.Dart

/-- What is found in a local directory. Links are not followed. -/
inductive EntityKind where
  | file
  | directory
  | link
  deriving DecidableEq, Repr

/-- A `FileSystemEntity`, with its name in its directory. -/
structure LocalEntity where
  name : String
  kind : EntityKind
  valid : name ≠ "" ∧ '/' ∉ name.toList

/-- The entities of each local directory. It is `none` for one that cannot be listed. -/
abbrev LocalTree := String → Option (List LocalEntity)

/-- `_ensureTrailingPathSeparators` of `dart:io`, which a listing puts before the names. -/
def ensureTrailingSeparator (path : String) : String :=
  let path := if path.isEmpty then "." else path
  if path.toList.getLast? = some '/' then path else path ++ "/"

/-- `entity.path`. -/
def entityPath (dir name : String) : String := ensureTrailingSeparator dir ++ name

/-- `segs.join('/')`. -/
def joinPath (segs : List (List Char)) : String := String.ofList (['/'].intercalate segs)

/-- `rel`: the path of a local file from the root of the walk. -/
def uploadRel (localDirPath path : String) : String :=
  if (localDirPath ++ "/").toList.isPrefixOf path.toList then
    .ofList ((path.toList.drop (localDirPath.toList.length + 1)).map
      fun c => if c = '\\' then '/' else c)
  else .ofList (((splitPath path).filter (!·.isEmpty)).getLast?.getD [])

/-- `files[path] = rel`. -/
def setFile (files : List (String × String)) (path rel : String) : List (String × String) :=
  if files.any (·.1 == path) then files.map fun f => if f.1 == path then (path, rel) else f
  else files ++ [(path, rel)]

/-- The entities of the directory `dir`, until there are enough files. -/
def visitEntities (localDirPath dir : String) :
    List LocalEntity → List String → List (String × String) → List String × List (String × String)
  | [], pendingDirs, files => (pendingDirs, files)
  | e :: entities, pendingDirs, files =>
    let path := entityPath dir e.name
    match e.kind with
    | .file =>
      let rel := uploadRel localDirPath path
      -- A file that is too deep is left out.
      if (splitPath rel).length > maxFolderDepth then
        visitEntities localDirPath dir entities pendingDirs files
      else
        let files := setFile files path rel
        -- There are enough files, and the walk stops.
        if files.length ≥ maxFolderFiles then (pendingDirs, files)
        else visitEntities localDirPath dir entities pendingDirs files
    | .directory => visitEntities localDirPath dir entities (pendingDirs ++ [path]) files
    -- Links are not followed.
    | .link => visitEntities localDirPath dir entities pendingDirs files

/-- The walk through the local directories. At most `remaining` of them are listed. -/
def walkLocal (tree : LocalTree) (localDirPath : String) :
    (remaining : Nat) → (pendingDirs : List String) → (files : List (String × String)) →
      Option (List (String × String))
  | 0, _, files => some files
  | _ + 1, [], files => some files
  | remaining + 1, dir :: pendingDirs, files =>
    match tree dir with
    | none => none
    | some entities =>
      let st := visitEntities localDirPath dir entities pendingDirs files
      if st.2.length ≥ maxFolderFiles then some st.2
      else walkLocal tree localDirPath remaining st.1 st.2

/-- `files`: the local files with their relative paths. -/
def localFiles (tree : LocalTree) (localDirPath : String) : Option (List (String × String)) :=
  walkLocal tree localDirPath maxFolderFiles [localDirPath] []

/-- A request of `uploadFolder`. -/
inductive UploadCall where
  /-- `mkDir`. -/
  | mkDir (path : String)
  /-- `TsNative.ftUpload`. -/
  | ftUpload (remoteFile localFile : String)
  deriving DecidableEq, Repr

/-- The relative paths, sorted by their depth. Nothing is known of the order of equal depths. -/
structure DepthOrder (rels : List String) where
  ordered : List String
  perm : ordered.Perm rels
  sorted : ordered.Pairwise fun a b => (splitPath a).length ≤ (splitPath b).length

/-- A sort that leaves equal depths in their order. -/
def stableSort (rels : List String) : DepthOrder rels where
  ordered := rels.mergeSort fun a b => (splitPath a).length ≤ (splitPath b).length
  perm := List.mergeSort_perm _ _
  sorted := by
    refine (List.pairwise_mergeSort ?_ ?_ rels).imp fun h => of_decide_eq_true h
    · intro a b c hab hbc
      exact decide_eq_true ((of_decide_eq_true hab).trans (of_decide_eq_true hbc))
    · intro a b
      rw [Bool.or_eq_true, decide_eq_true_eq, decide_eq_true_eq]
      exact Nat.le_total _ _

/-- `segs`: the directories of a relative path. -/
def dirSegments (rel : String) : List (List Char) := (splitPath rel).dropLast

/-- `_mkdirLevels`. -/
def mkdirLevels (root : String) (segments : List (List Char)) : List UploadCall :=
  (List.range segments.length).map fun i =>
    .mkDir (joinRemote root (joinPath (segments.take (i + 1))))

/-- The loop over `ordered`. -/
def mkdirs (root : String) : (ordered seenLevels : List String) → List UploadCall
  | [], _ => []
  | rel :: rels, seenLevels =>
    let segs := dirSegments rel
    if segs.isEmpty then mkdirs root rels seenLevels
    else if seenLevels.contains (joinPath segs) then mkdirs root rels seenLevels
    else mkdirLevels root segs ++ mkdirs root rels (joinPath segs :: seenLevels)

/-- The requests of `uploadFolder`, if it stops after `started` files. It is `none` when it throws
before it makes any. -/
def uploadFolder (tree : LocalTree) (sort : (rels : List String) → DepthOrder rels)
    (connected : Bool) (localDirPath remoteDirPath : String) (started : Nat) :
    Option (List UploadCall) :=
  (localFiles tree localDirPath).map fun files =>
    if connected then
      mkdirs remoteDirPath (sort (files.map (·.2))).ordered [] ++
        (files.take started).map fun f => .ftUpload (joinRemote remoteDirPath f.2) f.1
    else []

end Nek0.Dart
