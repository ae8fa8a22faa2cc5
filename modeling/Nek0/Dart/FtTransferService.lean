import Nek0.Lib.Table
import Nek0.Native.Types

/-!
# `Nek0.Dart.FtTransferService`: the file transfer bookkeeping

`lib/services/ft_service.dart`. Each method is cut at its `await`s: `listDirectory`, `mkDir` and so
on are what a call does up to the first one, and `..Settled` is what its `finally` does. The native
side answers a call at once with whether it was queued, or with the task's number.

A completer stays in its table until it is taken out to be completed, or until the `finally` of the
call that waits for it. The branch for `disconnected` is modelled as it stands, although the
notifier never sends this event here.

Left out: the file trees that a folder transfer walks, the entries of a listing, and the listeners.
-/

set_option autoImplicit false

namespace Nek0.Dart

open Nek0.Lib (Table)
open Nek0.Native (TaskId TransferKind TsEvent)

/-- A `Completer`, as far as `isCompleted` goes. -/
structure Completer where
  isCompleted : Bool
  deriving DecidableEq, Repr

/-- `TransferState`. -/
inductive TransferState where
  | active
  | done
  | error
  | canceled
  deriving DecidableEq, Repr

/-- `TransferJob`. -/
structure TransferJob where
  kind : TransferKind
  displayName : String
  total : UInt64
  transferred : UInt64
  state : TransferState
  error : Option String
  visible : Bool
  deriving DecidableEq, Repr

/-- `isActive`. -/
def TransferJob.isActive (job : TransferJob) : Bool := job.state == .active

/-- `FolderProgress`. -/
structure FolderProgress where
  kind : TransferKind
  label : String
  totalBytes : Nat
  transferredBytes : Nat
  steps : Nat
  doneSteps : Nat
  canceled : Bool
  error : Bool
  collecting : Bool
  rowTaskId : Int
  stepIds : List TaskId
  stepSeen : List (TaskId × UInt64)
  deriving DecidableEq, Repr

namespace FolderProgress

/-- `isRunning`. -/
def isRunning (fp : FolderProgress) : Bool := !fp.canceled && decide (fp.doneSteps < fp.steps)

/-- The folder transfer goes on, or one of its steps does. -/
def isOpen (fp : FolderProgress) : Bool := fp.collecting || fp.isRunning

/-- `FolderProgress(..)`. -/
def new (kind : TransferKind) (label : String) (totalBytes : Nat) (rowTaskId : Int) :
    FolderProgress where
  kind := kind
  label := label
  totalBytes := totalBytes
  transferredBytes := 0
  steps := 0
  doneSteps := 0
  canceled := false
  error := false
  collecting := true
  rowTaskId := rowTaskId
  stepIds := []
  stepSeen := []

/-- A step's progress. -/
def stepProgress (fp : FolderProgress) (id : TaskId) (transferred : UInt64) : FolderProgress :=
  let prev := (fp.stepSeen.lookup id).getD 0
  if prev < transferred then
    { fp with
        transferredBytes := fp.transferredBytes + (transferred - prev).toNat
        stepSeen := (id, transferred) :: fp.stepSeen }
  else fp

/-- A step is done. -/
def stepDone (fp : FolderProgress) (ok : Bool) (error : Option String) : FolderProgress :=
  { fp with
      doneSteps := fp.doneSteps + 1
      error := fp.error || (!ok && error != some "canceled") }

end FolderProgress

/-- `FtTransferService`. `jobs` are in the order of their insertion. The `FolderProgress` objects
are numbered, and `_aggregates` refers to some of them: an object lives on in the call that made it.
-/
structure FtTransferService where
  pendingLists : Table String Completer
  pendingOps : Table String Completer
  jobs : List (TaskId × TransferJob)
  taskWaiters : Table TaskId Completer
  folders : Nat → FolderProgress
  foldersMade : Nat
  aggregates : List Nat

namespace FtTransferService

/-- `FtTransferService._()`. -/
def initial : FtTransferService where
  pendingLists := ∅
  pendingOps := ∅
  jobs := []
  taskWaiters := ∅
  folders := fun _ => .new .download "" 0 0
  foldersMade := 0
  aggregates := []

/-- A new row. -/
def newJob (kind : TransferKind) (displayName : String) (total : UInt64) (visible : Bool) :
    TransferJob where
  kind := kind
  displayName := displayName
  total := total
  transferred := 0
  state := .active
  error := none
  visible := visible

/-- `_jobs.putIfAbsent`. -/
def putIfAbsent (s : FtTransferService) (id : TaskId) (job : TransferJob) : FtTransferService :=
  if s.jobs.any fun j => j.1 == id then s else { s with jobs := s.jobs ++ [(id, job)] }

/-- `_jobs[id] = ..`. -/
def putJob (s : FtTransferService) (id : TaskId) (job : TransferJob) : FtTransferService :=
  if s.jobs.any fun j => j.1 == id then
    { s with jobs := s.jobs.map fun j => if j.1 == id then (id, job) else j }
  else { s with jobs := s.jobs ++ [(id, job)] }

/-- Changes the row of a task, if there is one. -/
def updateJob (s : FtTransferService) (id : TaskId) (f : TransferJob → TransferJob) :
    FtTransferService :=
  { s with jobs := s.jobs.map fun j => if j.1 == id then (j.1, f j.2) else j }

/-- `_jobs.remove`. -/
def removeJob (s : FtTransferService) (id : TaskId) : FtTransferService :=
  { s with jobs := s.jobs.filter fun j => j.1 != id }

/-- Changes a `FolderProgress`. -/
def updateFolder (s : FtTransferService) (folder : Nat) (f : FolderProgress → FolderProgress) :
    FtTransferService :=
  { s with folders := Function.update s.folders folder (f (s.folders folder)) }

/-- Changes the first aggregate that a task is a step of. -/
def updateAggregate (s : FtTransferService) (id : TaskId) (f : FolderProgress → FolderProgress) :
    FtTransferService :=
  match s.aggregates.find? fun folder => (s.folders folder).stepIds.contains id with
  | none => s
  | some folder => s.updateFolder folder f

/-! ### Calls -/

/-- `listDirectory`. -/
def listDirectory (s : FtTransferService) (token : String) (queued : Bool) : FtTransferService :=
  if queued then { s with pendingLists := s.pendingLists.insert token ⟨false⟩ } else s

/-- The `finally` of `listDirectory`. -/
def listSettled (s : FtTransferService) (token : String) : FtTransferService :=
  { s with pendingLists := s.pendingLists.erase token }

/-- `mkDir`, and one path of `deletePaths`. -/
def pathOp (s : FtTransferService) (token : String) (queued : Bool) : FtTransferService :=
  if queued then { s with pendingOps := s.pendingOps.insert token ⟨false⟩ } else s

/-- The `finally` of `_awaitOp`. -/
def opSettled (s : FtTransferService) (token : String) : FtTransferService :=
  { s with pendingOps := s.pendingOps.erase token }

/-- `waitTask`. -/
def waitTask (s : FtTransferService) (id : TaskId) : FtTransferService :=
  { s with taskWaiters := s.taskWaiters.insert id ⟨false⟩ }

/-- The `finally` of `waitTask`. -/
def waitSettled (s : FtTransferService) (id : TaskId) : FtTransferService :=
  { s with taskWaiters := s.taskWaiters.erase id }

/-- `downloadFile` and `uploadFile`. Task 0 is a call that failed. -/
def transferFile (s : FtTransferService) (kind : TransferKind) (name : String) (id : TaskId) :
    FtTransferService :=
  if id = 0 then s else (s.putIfAbsent id (newJob kind name 0 true)).waitTask id

/-- `trackHiddenTask`. -/
def trackHiddenTask (s : FtTransferService) (name : String) (id : TaskId) : FtTransferService :=
  (s.putIfAbsent id (newJob .download name 0 false)).waitTask id

/-- The `finally` of `trackHiddenTask`. -/
def hiddenSettled (s : FtTransferService) (id : TaskId) : FtTransferService := s.removeJob id

/-- `_newAggregate`. The new object has the number `foldersMade`. -/
def newAggregate (s : FtTransferService) (kind : TransferKind) (label : String)
    (totalBytes : Nat) : FtTransferService :=
  { s with
      folders := Function.update s.folders s.foldersMade
        (.new kind label totalBytes (-(1 + s.aggregates.length)))
      foldersMade := s.foldersMade + 1
      aggregates := s.aggregates ++ [s.foldersMade] }

/-- One file of `uploadFolder` or `downloadFolder`. Task 0 is a call that failed. -/
def folderStep (s : FtTransferService) (folder : Nat) (name : String) (total : UInt64)
    (id : TaskId) : FtTransferService :=
  if id = 0 then s.updateFolder folder fun fp => { fp with error := true }
  else
    let s := s.updateFolder folder fun fp =>
      { fp with stepIds := fp.stepIds ++ [id], steps := fp.steps + 1 }
    (s.putJob id (newJob (s.folders folder).kind name total false)).waitTask id

/-- The `catch` of a file of a folder. -/
def stepFailed (s : FtTransferService) (folder : Nat) : FtTransferService :=
  s.updateFolder folder fun fp => { fp with error := true }

/-- `_closeAggregate`. -/
def closeAggregate (s : FtTransferService) (folder : Nat) : FtTransferService :=
  let s := s.updateFolder folder fun fp => { fp with collecting := false }
  { s with jobs := s.jobs.filter fun j => !(s.folders folder).stepIds.contains j.1 }

/-- `cancel`. -/
def cancel (s : FtTransferService) (taskId : Int) : FtTransferService :=
  { s with
      folders := fun folder =>
        let fp := s.folders folder
        if s.aggregates.contains folder && fp.rowTaskId == taskId then { fp with canceled := true }
        else fp }

/-- `clearFinished`. -/
def clearFinished (s : FtTransferService) : FtTransferService :=
  { s with
      jobs := s.jobs.filter fun j => !(j.2.visible && !j.2.isActive)
      aggregates := s.aggregates.filter fun folder => (s.folders folder).isRunning }

/-- What the screens do with the service, and how its calls go on. -/
inductive Call where
  | listDirectory (token : String) (queued : Bool)
  | listSettled (token : String)
  | pathOp (token : String) (queued : Bool)
  | opSettled (token : String)
  | transferFile (kind : TransferKind) (name : String) (id : TaskId)
  | waitSettled (id : TaskId)
  | trackHiddenTask (name : String) (id : TaskId)
  | hiddenSettled (id : TaskId)
  | newAggregate (kind : TransferKind) (label : String) (totalBytes : Nat)
  | folderStep (folder : Nat) (name : String) (total : UInt64) (id : TaskId)
  | stepFailed (folder : Nat)
  | closeAggregate (folder : Nat)
  | cancel (taskId : Int)
  | clearFinished
  deriving DecidableEq, Repr

/-- What a call does. -/
def call (s : FtTransferService) : Call → FtTransferService
  | .listDirectory token queued => s.listDirectory token queued
  | .listSettled token => s.listSettled token
  | .pathOp token queued => s.pathOp token queued
  | .opSettled token => s.opSettled token
  | .transferFile kind name id => s.transferFile kind name id
  | .waitSettled id => s.waitSettled id
  | .trackHiddenTask name id => s.trackHiddenTask name id
  | .hiddenSettled id => s.hiddenSettled id
  | .newAggregate kind label totalBytes => s.newAggregate kind label totalBytes
  | .folderStep folder name total id => s.folderStep folder name total id
  | .stepFailed folder => s.stepFailed folder
  | .closeAggregate folder => s.closeAggregate folder
  | .cancel taskId => s.cancel taskId
  | .clearFinished => s.clearFinished

/-! ### Events -/

/-- `_trimHistory`: at most 20 visible rows that are not active. -/
def trimHistory (s : FtTransferService) : FtTransferService :=
  let inactive := (s.jobs.filter fun j => j.2.visible && !j.2.isActive).map (·.1)
  let dropped := inactive.take (inactive.length - 20)
  { s with jobs := s.jobs.filter fun j => !dropped.contains j.1 }

/-- `_onListing`. -/
def onListing (s : FtTransferService) (token : String) : FtTransferService :=
  { s with pendingLists := s.pendingLists.erase token }

/-- `_onOp`. -/
def onOp (s : FtTransferService) (token : String) : FtTransferService :=
  { s with pendingOps := s.pendingOps.erase token }

/-- `_onStarted`. -/
def onStarted (s : FtTransferService) (id : TaskId) (total : UInt64) : FtTransferService :=
  s.updateJob id fun job => { job with total := if 0 < total then total else job.total }

/-- `_onProgress`. -/
def onProgress (s : FtTransferService) (id : TaskId) (transferred : UInt64) : FtTransferService :=
  (s.updateJob id fun job => { job with transferred := transferred }).updateAggregate id
    fun fp => fp.stepProgress id transferred

/-- `_onDone`. -/
def onDone (s : FtTransferService) (id : TaskId) (ok : Bool) (transferred : UInt64)
    (error : Option String) : FtTransferService :=
  let s := s.updateJob id fun job =>
    { job with
        transferred := transferred
        error := error
        state := if ok then .done else if error = some "canceled" then .canceled else .error }
  let s := { s with taskWaiters := s.taskWaiters.erase id }
  (s.updateAggregate id fun fp => fp.stepDone ok error).trimHistory

/-- The branch of `handleEvent` for `disconnected`. -/
def onDisconnected (s : FtTransferService) : FtTransferService :=
  if s.jobs.isEmpty && s.aggregates.isEmpty && s.pendingLists.isEmpty then s
  else
    { s with
        jobs := []
        aggregates := []
        taskWaiters := ∅
        pendingLists := ∅
        pendingOps := Table.mapVals (fun _ _ => ⟨true⟩) s.pendingOps }

/-- `handleEvent`. -/
def handleEvent (s : FtTransferService) : TsEvent → FtTransferService
  | .ftListing token _ _ => s.onListing token
  | .ftStarted id _ _ total => s.onStarted id total
  | .ftProgress id transferred => s.onProgress id transferred
  | .ftOp token _ _ => s.onOp token
  | .ftDone id ok transferred error => s.onDone id ok transferred error
  | .disconnected _ => s.onDisconnected
  | _ => s

end FtTransferService

end Nek0.Dart
