import Nek0.Lib.System
import Nek0.Native.RemotePaths

/-!
# `Nek0.Dart.AvatarCache`: `AvatarCache`

`lib/services/avatar_cache.dart`. `updateFromClients` puts the avatar hashes of the roster into the
queue, and `_drain` takes them out one after the other: it probes the cache file, downloads to a
temporary name and publishes the file under its final name. `_drain` is a single coroutine, so the
state has what it waits for (`Await`). An event is a roster, a reset, or the end of a wait with its
result. `_download` first waits for the directory (`ensureDir`), even if it was made before.

`files` is there for the specification: the local paths that were used, each with the hash it was
used for. The path of a download is the one that arrived behind the FFI. The directory
comes from the system, and `decode` decodes Base64. `isConnected` is asked once for each entry that
`_drain` looks at.
-/

set_option autoImplicit false

namespace Nek0.Dart

open Nek0.Lib (System)
open Nek0.Native (tsDownloadAvatar)

/-- The fields of `TsClient` that `updateFromClients` reads. -/
structure AvatarClient where
  clientType : Nat
  uid : Option String
  avatarHash : Option String
  deriving DecidableEq, Repr

/-- The hash and the uid of a client that has an avatar. -/
def AvatarClient.avatar (c : AvatarClient) : Option (String × String) :=
  match c.avatarHash, c.uid with
  | some hash, some uid =>
    if c.clientType ≠ 0 || uid.isEmpty || hash.isEmpty then none else some (hash, uid)
  | _, _ => none

/-- `getTemporaryDirectory`. A path of the system has no NUL. -/
structure TempDir where
  path : String
  noNul : '\x00' ∉ path.toList

/-- `_ensureDir`. -/
def TempDir.avatars (tmp : TempDir) : String := tmp.path ++ "/avatars"

/-- What `_drain` waits for, with the hash it is about. `remove` is `_deleteQuietly`, after a
transfer that failed or after a copy. -/
inductive Await where
  | probe (hash uid : String)
  | ensureDir (hash uid : String)
  | transfer (hash : String)
  | rename (hash : String)
  | copy (hash : String)
  | remove (hash : String) (transferFailed : Bool)
  | check (hash : String)
  deriving DecidableEq, Repr

/-- `AvatarCache`. `_draining` is true while `draining` is something. -/
structure AvatarCache where
  state : String → Option String
  pending : List (String × String)
  inFlight : List String
  failed : List String
  draining : Option Await
  files : List (String × String)

/-- `finalPath`. -/
def finalPath (dir hash : String) : String := dir ++ "/" ++ (hash ++ ".img")

/-- `partPath`. -/
def partPath (dir hash : String) : String := dir ++ "/" ++ (hash ++ ".img.part")

namespace AvatarCache

/-- `build`. -/
def build : AvatarCache where
  state := fun _ => none
  pending := []
  inFlight := []
  failed := []
  draining := none
  files := []

/-- A file operation on `path` for `hash`. -/
def uses (hash path : String) (c : AvatarCache) : AvatarCache :=
  { c with files := c.files ++ [(hash, path)] }

/-- `reset`. -/
def reset (c : AvatarCache) : AvatarCache := { c with pending := [], inFlight := [], failed := [] }

/-- The loop of `_drain` with the queue `pending`, from its `n`-th turn on. -/
def drainFrom (dir : String) (connected : Nat → Bool) (c : AvatarCache) :
    Nat → List (String × String) → AvatarCache
  | _, [] => { c with pending := [], draining := none }
  | n, (hash, uid) :: rest =>
    if !connected n then { c with pending := (hash, uid) :: rest, draining := none }
    else if (c.state hash).isSome then drainFrom dir connected c (n + 1) rest
    else
      { c with pending := rest, draining := some (.probe hash uid) }.uses hash (finalPath dir hash)

/-- `_drain`, up to its first wait or its end. -/
def drain (dir : String) (connected : Nat → Bool) (c : AvatarCache) : AvatarCache :=
  c.drainFrom dir connected 0 c.pending

/-- The queue with the avatar of one more client. -/
def enqueue (c : AvatarCache) (client : AvatarClient) : AvatarCache :=
  match client.avatar with
  | none => c
  | some (hash, uid) =>
    if (c.state hash).isSome || c.pending.any (·.1 == hash) || c.inFlight.contains hash ||
        c.failed.contains hash then c
    else { c with pending := c.pending ++ [(hash, uid)] }

/-- `updateFromClients`. -/
def updateFromClients (dir : String) (connected : Nat → Bool) (clients : List AvatarClient)
    (c : AvatarCache) : AvatarCache :=
  let c' := clients.foldl enqueue c
  if c'.pending.length > c.pending.length && c.draining.isNone then c'.drain dir connected else c'

/-- The download failed. -/
def fail (dir : String) (connected : Nat → Bool) (hash : String) (c : AvatarCache) : AvatarCache :=
  { c with
      failed := c.failed.insert hash
      inFlight := c.inFlight.erase hash }.drain dir connected

/-- The avatar is there. -/
def publish (dir : String) (connected : Nat → Bool) (hash : String) (c : AvatarCache) :
    AvatarCache :=
  { c with
      state := Function.update c.state hash (some (finalPath dir hash))
      inFlight := c.inFlight.erase hash }.drain dir connected

/-- `_download`, up to its first wait, which is for the directory. -/
def download (hash uid : String) (c : AvatarCache) : AvatarCache :=
  { c with inFlight := c.inFlight.insert hash, draining := some (.ensureDir hash uid) }

/-- The transfer that `downloadAvatar` starts, if it does not return 0. `ready` says whether the
native side can take a transfer. -/
def avatarTransfer (dir : String) (decode : String → Option (List UInt8)) (ready : Bool)
    (hash uid : String) : Option Nek0.Native.Transfer :=
  match tsDownloadAvatar decode (some uid) (some (partPath dir hash)) with
  | some (.startTransfer t) => if ready then some t else none
  | _ => none

/-- `_download`, up to the transfer. -/
def startTransfer (dir : String) (connected : Nat → Bool) (decode : String → Option (List UInt8))
    (ready : Bool) (hash uid : String) (c : AvatarCache) : AvatarCache :=
  match avatarTransfer dir decode ready hash uid with
  | some t => { c with draining := some (.transfer hash) }.uses hash t.localPath
  | none => c.fail dir connected hash

/-- `_deleteQuietly` of the temporary file. -/
def deleteQuietly (dir hash : String) (transferFailed : Bool) (c : AvatarCache) : AvatarCache :=
  { c with draining := some (.remove hash transferFailed) }.uses hash (partPath dir hash)

/-- `file.exists`, before the avatar is published. -/
def checkFile (dir hash : String) (c : AvatarCache) : AvatarCache :=
  { c with draining := some (.check hash) }.uses hash (finalPath dir hash)

/-- `part.rename`. -/
def renamePart (dir hash : String) (c : AvatarCache) : AvatarCache :=
  ({ c with draining := some (.rename hash) }.uses hash (partPath dir hash)).uses hash
    (finalPath dir hash)

/-- `part.copy`. -/
def copyPart (dir hash : String) (c : AvatarCache) : AvatarCache :=
  ({ c with draining := some (.copy hash) }.uses hash (partPath dir hash)).uses hash
    (finalPath dir hash)

/-- What can happen. An exception of the probe ends `_drain`; one of `_download` is a failure. -/
inductive Event where
  | update (clients : List AvatarClient) (connected : Nat → Bool)
  | reset
  | probed (found : Bool) (connected : Nat → Bool)
  | probeFailed
  | ensured (ready : Bool) (connected : Nat → Bool)
  | transferred (ok : Bool)
  | renamed (ok : Bool)
  | copied (ok : Bool) (connected : Nat → Bool)
  | removed (connected : Nat → Bool)
  | checked (found : Bool) (connected : Nat → Bool)

/-- What an event does. A wait ends only while `_drain` is in it. -/
def next (dir : String) (decode : String → Option (List UInt8)) (e : Event) (c : AvatarCache) :
    Option AvatarCache :=
  match e, c.draining with
  | .update clients connected, _ => some (c.updateFromClients dir connected clients)
  | .reset, _ => some c.reset
  -- The file of the cache is there, or is downloaded.
  | .probed found connected, some (.probe hash uid) =>
    if found then
      some ({ c with
        state := Function.update c.state hash (some (finalPath dir hash)) }.drain dir connected)
    else some (c.download hash uid)
  -- `_drain` ends with the exception, and the next roster starts it again.
  | .probeFailed, some (.probe _ _) => some { c with draining := none }
  | .ensured ready connected, some (.ensureDir hash uid) =>
    some (c.startTransfer dir connected decode ready hash uid)
  -- The download is renamed, or its part is deleted.
  | .transferred ok, some (.transfer hash) =>
    some (if ok then c.renamePart dir hash else c.deleteQuietly dir hash true)
  -- If the renaming fails, the file is copied.
  | .renamed ok, some (.rename hash) =>
    some (if ok then c.checkFile dir hash else c.copyPart dir hash)
  | .copied ok connected, some (.copy hash) =>
    some (if ok then c.deleteQuietly dir hash false else c.fail dir connected hash)
  -- Behind a failed transfer the hash has failed, behind a copy the file is looked for.
  | .removed connected, some (.remove hash transferFailed) =>
    some (if transferFailed then c.fail dir connected hash else c.checkFile dir hash)
  | .checked found connected, some (.check hash) =>
    some (if found then c.publish dir connected hash else c.fail dir connected hash)
  | _, _ => none

/-- The cache over time. -/
def system (tmp : TempDir) (decode : String → Option (List UInt8)) : System AvatarCache Event where
  init := fun c => c = build
  next := next tmp.avatars decode

end AvatarCache

end Nek0.Dart
