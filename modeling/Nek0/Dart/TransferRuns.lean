import Nek0.Dart.FtTransferService
import Nek0.Lib.System

/-!
# `Nek0.Dart.TransferRuns`: the transfer service over time

The calls of the screens and the events of the native side come to `FtTransferService` in any order.
The notifier handles the events of one poll one after the other, and passes on the file transfer
events alone. A call that waits goes on later, from the queue of the isolate.

So `waitTask` is cut at its `await`. An `ft_done` event completes its completer: then the task is in
`settled`, and `goesOn` is what follows the `await`. Its timeout comes only while the completer is
not completed. `uploadFolder` and `downloadFolder` are their calls in this service: between
`_newAggregate` and `_closeAggregate` they start their steps.
-/

set_option autoImplicit false

namespace Nek0.Dart

open Nek0.Lib (Table System)
open Nek0.Native (TaskId TransferKind TsEvent)

/-- How a `waitTask` ends. -/
inductive WaitResult where
  | completed
  /-- `TransferException(reason)`. -/
  | failed (reason : String)
  /-- `TransferException('canceled', canceled: true)`. -/
  | canceled
  /-- `TimeoutException`. -/
  | timedOut
  deriving DecidableEq, Repr

namespace FtTransferService

/-- `hasActiveJobs`. -/
def hasActiveJobs (s : FtTransferService) : Bool :=
  (s.jobs.any fun j => j.2.isActive && j.2.visible) ||
    s.aggregates.any fun folder => (s.folders folder).isRunning

/-- The tasks that `cancel` passes to `TsNative.ftCancel`. -/
def cancelRequests (s : FtTransferService) (taskId : Int) : List TaskId :=
  (s.jobs.filter fun j => (j.1.toNat : Int) == taskId && j.2.isActive).map (·.1) ++
    (s.aggregates.filter fun folder => (s.folders folder).rowTaskId == taskId).flatMap
      fun folder => (s.folders folder).stepIds

/-- The waiter that an event completes. -/
def settles (s : FtTransferService) : TsEvent → List TaskId
  | .ftDone id _ _ _ => if id ∈ s.taskWaiters then [id] else []
  | _ => []

/-- Does the code come to this call? `waitTask` settles in `goesOn` and in `timeout`, and a folder
transfer has steps until it closes. -/
def offers (s : FtTransferService) : Call → Bool
  | .waitSettled _ => false
  | .folderStep folder _ _ _ => decide (folder < s.foldersMade) && (s.folders folder).collecting
  | .stepFailed folder => decide (folder < s.foldersMade) && (s.folders folder).collecting
  | .closeAggregate folder => decide (folder < s.foldersMade) && (s.folders folder).collecting
  | _ => true

end FtTransferService

/-- An event that the notifier passes on to the service. -/
def isTransferEvent : TsEvent → Bool
  | .ftListing _ _ _ => true
  | .ftStarted _ _ _ _ => true
  | .ftProgress _ _ => true
  | .ftOp _ _ _ => true
  | .ftDone _ _ _ _ => true
  | _ => false

/-- The service, and the tasks whose `waitTask` is completed and has not gone on yet. -/
structure TransferRun where
  service : FtTransferService
  settled : List TaskId

namespace TransferRun

/-- What happens next. -/
inductive Step where
  | call (c : FtTransferService.Call)
  | event (e : TsEvent)
  | goesOn (id : TaskId)
  | timeout (id : TaskId)
  deriving DecidableEq, Repr

/-- One step. -/
def next : Step → TransferRun → Option TransferRun
  | .call c, r =>
      if r.service.offers c then some { r with service := r.service.call c } else none
  | .event e, r =>
      if isTransferEvent e then
        some
          { service := r.service.handleEvent e
            settled := r.settled ++ r.service.settles e }
      else none
  | .goesOn id, r =>
      if id ∈ r.settled then
        some { service := r.service.waitSettled id, settled := r.settled.erase id }
      else none
  | .timeout id, r =>
      if id ∈ r.service.taskWaiters then some { r with service := r.service.waitSettled id }
      else none

variable {r r' : TransferRun}

theorem next_call {c : FtTransferService.Call} (h : next (.call c) r = some r') :
    r.service.offers c = true ∧ r' = { r with service := r.service.call c } := by
  obtain ⟨hoffers, heq⟩ := Option.ite_none_right_eq_some.mp h
  exact ⟨hoffers, (Option.some.inj heq).symm⟩

/-- What an event of the library does to a run. -/
theorem next_event {e : TsEvent} (h : next (.event e) r = some r') :
    isTransferEvent e = true ∧
      r' =
        { service := r.service.handleEvent e
          settled := r.settled ++ r.service.settles e } := by
  obtain ⟨he, heq⟩ := Option.ite_none_right_eq_some.mp h
  exact ⟨he, (Option.some.inj heq).symm⟩

/-- What it does that a caller goes on after its wait. -/
theorem next_goesOn {id : TaskId} (h : next (.goesOn id) r = some r') :
    id ∈ r.settled ∧
      r' = { service := r.service.waitSettled id, settled := r.settled.erase id } := by
  obtain ⟨hmem, heq⟩ := Option.ite_none_right_eq_some.mp h
  exact ⟨hmem, (Option.some.inj heq).symm⟩

theorem next_timeout {id : TaskId} (h : next (.timeout id) r = some r') :
    id ∈ r.service.taskWaiters ∧ r' = { r with service := r.service.waitSettled id } := by
  obtain ⟨hmem, heq⟩ := Option.ite_none_right_eq_some.mp h
  exact ⟨hmem, (Option.some.inj heq).symm⟩

/-- The service from its start on. -/
def system : System TransferRun Step where
  init := fun r => r = { service := .initial, settled := [] }
  next := next

end TransferRun

end Nek0.Dart
