import Nek0.Native.Statements

/-!
# `Nek0.Native.Handlers`: `handle_control_item` and `finish_ft_task`

How the event loop handles one stream item. `itemProgram` gives the statements of an item, and
`HandlerStmt.exec` says what a statement does.

Left out: the sounds, the own-permission list, and the diagnostics.
-/

set_option autoImplicit false

namespace Nek0.Native

open Nek0.Lib (Table)

/-- The description of a failed transfer. -/
def TransferStatus.describe : TransferStatus → String
  | .status error _ => error.text
  | .failure message => message

/-- `ok_status`. -/
def TransferStatus.isOk : TransferStatus → Bool
  | .status _ isOk => isOk
  | .failure _ => false

/-- The text event of a chat message, by its target. -/
def messageEvent (target : MessageTarget) (invoker : String) (invokerId : UInt16)
    (message : String) : TsEvent :=
  match target with
  | .poke => .poke invoker invokerId.toUInt32 message
  | .server => .textMessage invoker invokerId.toUInt32 3 message
  | .channel => .textMessage invoker invokerId.toUInt32 2 message
  | .client => .textMessage invoker invokerId.toUInt32 1 message

/-- The statement of one book event. -/
def bookEventWrite (con : Nat) : BookEvent → Write
  | .message target invoker invokerId message =>
      .push (messageEvent target invoker invokerId message) none
  | .other => .refreshFromBook con

/-- The statements that handle an item of connection `con`. An accepted download is not here: its
handler can panic and has statements of its own. -/
def itemProgram (con : Nat) : StreamItem → List Stmt
  | .bookEvents events => events.map fun e => .write (bookEventWrite con e)
  | .fileList code rows sid => [.write (.addListRows code rows sid)]
  | .fileListFinished cid path sid => [.handler (.markListFinished cid path sid)]
  | .textMessage invoker invokerId targetMode message =>
      -- Text is passed on as it is.
      [.write (.push (.textMessage invoker invokerId.toUInt32 targetMode message) none)]
  -- An error without a code can be the rejection of our own move.
  | .commandError invalidPassword =>
      (invalidPassword.filter id).map fun _ => .handler .takePendingMove
  -- The result of a command is looked for in all four tables.
  | .messageResult code res sid =>
      [.handler (.takePermOp code res sid), .handler (.takeFtOp code res sid),
        .handler (.takeFtTask code res sid), .handler (.recordListResult code res sid)]
  | .fileDownload _ (.ok _) => []
  | .fileDownload clientFt (.error e) => [.handler (.failTransfer clientFt e)]
  | .fileUpload clientFt (.ok _) => [.handler (.acceptUpload clientFt)]
  | .fileUpload clientFt (.error e) => [.handler (.failTransfer clientFt e)]
  | .filetransferFailed clientFt status => [.handler (.transferStatus clientFt status)]
  -- A lost connection takes the listings and the permission operations with it.
  | .disconnectedTemporarily reason =>
      [.write .clearFtLists, .handler .drainPermOps,
        .write (.push (.error ("Temp disconnected: " ++ reason)) none)]
  | .other => []

/-- The answer to a pending listing is recorded. A rejection ends the exchange. -/
def PendingFtList.record (p : PendingFtList) (res : Except TsError Unit) (sid : SendId) :
    PendingFtList :=
  let quirk := match res with
    | .ok _ => false
    | .error e => e.emptyResultQuirk
  { p with
      resultSeen := true
      resultOk := res.isOk || quirk
      resultError := if quirk then none else errText res
      resultFrom := some (sid, res) }

/-- A finished marker for this directory meets a listing that has not seen one. -/
def PendingFtList.awaitsMarker (p : PendingFtList) (cid : UInt64) (path : String) : Bool :=
  p.cid == cid && p.path == path && !p.finishedSeen

/-- The event of a finalized listing. -/
def PendingFtList.event (p : PendingFtList) : TsEvent :=
  .ftListing p.token p.entries p.resultError

/-- What a handler statement does. -/
def HandlerStmt.exec (s : Shared) : HandlerStmt → NativeOutcome
  | .takePermOp code res sid =>
      match s.permOps.lookup code with
      -- The code belongs to none of the operations.
      | none => { shared := s }
      | some op =>
        { shared := { s with permOps := s.permOps.erase code }
          front := [.write (.push (.permOp op.value res.isOk (errText res))
            (some (.answer op.sid sid)))] }
  | .takeFtOp code res sid =>
      match s.ftOps.lookup code with
      | none => { shared := s }
      | some op =>
        { shared := { s with ftOps := s.ftOps.erase code }
          front := [.write (.push (.ftOp op.value res.isOk (errText res))
            (some (.answer op.sid sid)))] }
  | .takeFtTask code res sid =>
      match s.ftTaskByRc.lookup code with
      | none => { shared := s }
      | some task =>
        { shared := { s with ftTaskByRc := s.ftTaskByRc.erase code }
          front := match res with
            -- A command that was accepted says nothing of the transfer yet.
            | .ok _ => []
            | .error e => [.handler (.finishFtTask task.value false (some e.text)
                (some (.answer task.sid sid)))] }
  | .recordListResult code res sid =>
      match s.ftLists.lookup code with
      | none => { shared := s }
      | some p =>
        { shared := { s with ftLists := s.ftLists.insert code (p.record res sid) }
          -- A listing that was rejected is finished without waiting for its marker.
          front := if res.isOk then [] else [.handler (.scheduleFtListFinish code)] }
  | .markListFinished cid path sid =>
      { shared :=
          { s with
              ftLists := Table.mapVals (fun _ p => if p.awaitsMarker cid path then
                { p with finishedSeen := true, finishedFrom := some sid } else p) s.ftLists }
        front := (Table.keysWhere (fun _ p => p.awaitsMarker cid path) s.ftLists).map fun code =>
          .handler (.scheduleFtListFinish code) }
  | .scheduleFtListFinish code =>
      match s.ftLists.lookup code with
      | none => { shared := s }
      | some p =>
        -- Only one timer runs for a listing.
        if p.finalizeScheduled then { shared := s }
        else
          { shared :=
              { s with ftLists := s.ftLists.insert code { p with finalizeScheduled := true } }
            spawn := [⟨.listTimer, [.task (.finalizeFtList code p.sid)]⟩] }
  | .drainPermOps =>
      { shared := { s with permOps := ∅ }
        front := (Table.values s.permOps).map fun op =>
          .write (.push (.permOp op.value false (some "connection lost")) none) }
  | .takePendingMove =>
      { shared := { s with pendingMove := none }
        front := match s.pendingMove with
          | none => []
          | some (cid, at_) =>
            -- The rejection is recent enough to be that of the move.
            if s.now - at_ ≤ 5000 then
              [.write (.push (.moveRejected cid.toUInt32) (some .bareError))]
            else [] }
  | .finishFtTask taskId ok error origin =>
      match s.ftTasks.lookup taskId with
      -- Whoever comes first takes the task out and reports its end. The others find nothing.
      | none => { shared := s }
      | some task =>
        { shared := { s with ftTasks := s.ftTasks.erase taskId }
          front := [.write (.push (.ftDone taskId ok task.done error) origin)] }
  | .failTransfer clientFt message =>
      { shared := s
        front := match s.ftTaskIdByClientId clientFt with
          | none => []
          | some taskId => [.handler (.finishFtTask taskId false
              (some ("transfer stream failed: " ++ message)) none)] }
  | .acceptUpload clientFt =>
      { shared := s
        front := match s.ftTaskIdByClientId clientFt with
          | none => []
          | some taskId => [.handler (.startUpload taskId)] }
  | .startUpload taskId =>
      { shared := s
        spawn := if taskId ∈ s.ftTasks then
          [⟨.worker taskId, [.task (.uploadStart taskId)]⟩] else [] }
  | .transferStatus clientFt status =>
      { shared := s
        front := match s.ftTaskIdByClientId clientFt with
          | none => []
          | some taskId => [.handler (.decideStatus taskId status)] }
  | .decideStatus taskId status =>
      { shared := s
        front := if (s.ftTasks.lookup taskId).map (·.kind) = some .upload ∧ status.isOk = true then
            [.handler (.finishFtTask taskId true none none)]
          else [.handler (.failStatus taskId status)] }
  | .failStatus taskId status =>
      let canceled := decide (taskId ∈ s.ftTasks) && s.cancelFlags taskId
      { shared := s
        front := [.handler (.finishFtTask taskId false
          (some (if canceled then "canceled" else status.describe)) none)] }

end Nek0.Native
