import Nek0.Dart.FileManager
import Nek0.Dart.FtCalls

/-!
# `Nek0.Dart.TreeDeletion`: `deleteTree`

`deletePaths` and `deleteTree` of `lib/services/ft_service.dart`. Both wait for the answer to each
request before they go on, and an exception ends them. So a run of `deleteTree` is the list of the
requests that it made so far, and whether it ended normally.

A request goes to `ts_ft_list` or `ts_ft_delete` (`TsNative`), which refuse some paths and pass
the others on in their own form. The server gets the path of the command (`TreeServer`). What
`deleteTree` sees of both are the `TreeReplies`: a request that is refused, rejected or not answered
in time fails. The answers may depend on how many requests were made before. The server may answer
with directories without end, and so there is fuel.
-/

set_option autoImplicit false

namespace Nek0.Dart

/-- A request of `deleteTree`. -/
inductive TreeRequest where
  /-- `TsNative.ftListToken`. -/
  | list (path : String)
  /-- `TsNative.ftDelete`, of one path. -/
  | delete (path : String)
  deriving DecidableEq, Repr

/-- What comes of a command, if it was the `n`-th request that led to it. -/
structure TreeServer where
  list : Nat → String → Option (List FtEntry)
  delete : Nat → List String → Bool

/-- What comes of the `n`-th request, as `deleteTree` sees it. -/
structure TreeReplies where
  list : Nat → String → Option (List FtEntry)
  delete : Nat → String → Bool

/-- The replies of a server behind the native side. -/
def TreeServer.replies (server : TreeServer) (N : TsNative) : TreeReplies where
  list n path := (N.ftListToken n path).bind (server.list n)
  delete n path :=
    match N.ftDelete n [path] with
    | some names => server.delete n names
    | none => false

namespace TreeReplies

/-- `deletePaths`. -/
def deletePaths (replies : TreeReplies) : List String → List TreeRequest →
    List TreeRequest × Bool
  | [], log => (log, true)
  | path :: paths, log =>
    if replies.delete log.length path then deletePaths replies paths (log ++ [.delete path])
    else (log ++ [.delete path], false)

/-- The path without a trailing slash. -/
def treeBase (dirPath : String) : String :=
  if 1 < dirPath.length && dirPath.toList.getLast? == some '/' then
    .ofList dirPath.toList.dropLast
  else dirPath

/-- The loop of `deleteTree` over the entries of `base`. `descend` is `deleteTree` itself. -/
def deleteEntries (replies : TreeReplies)
    (descend : String → List TreeRequest → Option (List TreeRequest × Bool)) (base : String) :
    List FtEntry → List TreeRequest → Option (List TreeRequest × Bool)
  | [], log => some (log, true)
  | entry :: children, log =>
    -- The entry of the parent, and the two special names.
    if entry.isParent || entry.name == "." || entry.name == ".." then
      deleteEntries replies descend base children log
    else
      let childPath := base ++ "/" ++ entry.name
      let r := if entry.isFile then some (replies.deletePaths [childPath] log)
        else descend childPath log
      match r with
      | none => none
      -- An entry that is gone lets the loop go on.
      | some (log, true) => deleteEntries replies descend base children log
      -- The first one that stays ends it.
      | some (log, false) => some (log, false)

/-- `deleteTree`. It is `none` when the fuel is used up. -/
def deleteTree (replies : TreeReplies) :
    Nat → String → List TreeRequest → Option (List TreeRequest × Bool)
  | 0, _, _ => none
  | fuel + 1, dirPath, log =>
    let base := treeBase dirPath
    match replies.list log.length base with
    | none => some (log ++ [.list base], false)
    | some children =>
      match replies.deleteEntries (deleteTree replies fuel) base children (log ++ [.list base]) with
      | none => none
      | some (log, true) => some (replies.deletePaths [base] log)
      | some (log, false) => some (log, false)

end TreeReplies

end Nek0.Dart
