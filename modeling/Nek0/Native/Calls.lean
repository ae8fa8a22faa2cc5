import Nek0.Native.Handlers

/-!
# `Nek0.Native.Calls`: the FFI calls

What Dart and the Android service call. `Call` lists the calls, and `Call.program` gives the
statements of a call. The checks of the arguments, which read no shared state, are done before:
the commands and the transfers here are those that passed them.
-/

set_option autoImplicit false

namespace Nek0.Native

/-- An FFI call. -/
inductive Call where
  | tsConnect
  | tsDisconnect
  /-- `Java_.._tsDisconnect`: the app was swiped away. -/
  | swipeDisconnect
  /-- The calls that queue a command with `connected` alone: chat, moves, mutes, permissions. -/
  | queueCommand (c : Command)
  /-- `ts_ft_list`, `ts_ft_mkdir` and `ts_ft_delete`. -/
  | queueFtCommand (c : Command)
  /-- `ts_ft_download`, `ts_download_avatar` and `ts_ft_upload`. -/
  | startTransfer (t : Transfer)
  | tsFtCancel (taskId : TaskId)
  | tsPollEvents
  deriving DecidableEq, Repr

/-- The commands that a call can queue directly. The others are queued by the disconnect calls and
by the transfer calls. -/
def Command.isQueueable : Command → Bool
  | .disconnect => false
  | .ftDownload _ _ _ _ => false
  | .ftUpload _ _ _ _ => false
  | _ => true

/-- The statements of a call. A command that no call queues has none. -/
def Call.program : Call → List Stmt
  | .tsConnect => [.call .connect]
  | .tsDisconnect => [.call .disconnect]
  | .swipeDisconnect =>
      [.write (.setDisconnectRequested true), .write (.setSwipeDisconnect true),
        .call .sendDisconnect, .call .disconnectStashed]
  | .queueCommand c => if c.isQueueable then [.call (.trySendCmd c)] else []
  | .queueFtCommand c => if c.isQueueable then [.call (.ftReady (.command c))] else []
  | .startTransfer t => [.call (.ftReady (.transfer t))]
  | .tsFtCancel taskId => [.write (.cancelTask taskId)]
  | .tsPollEvents => [.write .pollEvents]

/-- Does the call ask for a disconnect? -/
def Call.isRequest : Call → Bool
  | .tsDisconnect => true
  | .swipeDisconnect => true
  | _ => false

/-- `tx.send(c)` under the lock of `COMMAND_TX`: the new state, and whether it was queued. -/
def Shared.trySend (s : Shared) (c : Command) : Shared × Bool :=
  match s.commandTx with
  | none => (s, false)
  | some generation =>
    let q := s.queues generation
    if q.receiving then (s.setQueue generation { q with commands := q.commands ++ [c] }, true)
    else (s, false)

/-- The command of a transfer call. -/
def Transfer.command (t : Transfer) (taskId : TaskId) : Command :=
  match t.kind with
  | .download => .ftDownload t.cid t.path t.password taskId
  | .upload => .ftUpload t.cid t.path t.password taskId

/-- An accepted `ts_connect`: stale events are cleared. -/
def Shared.acceptConnect (s : Shared) : Shared :=
  { s with
      connecting := true
      pendingEvents := []
      history := { s.history with
        attempts := s.history.attempts + 1
        discarded := s.history.discarded ++ s.pendingEvents } }

/-- What a call statement does. -/
def CallStmt.exec (s : Shared) : CallStmt → NativeOutcome
  | .connect =>
      -- A second `ts_connect` is ignored.
      if s.connecting || s.connected then { shared := s }
      else
        { shared := s.acceptConnect
          spawn := [⟨.connect (s.history.attempts + 1),
            [.task (.handshake (s.history.attempts + 1))]⟩] }
  | .disconnect =>
      { shared := s
        -- With a loop the request goes through its queue.
        front := if s.eventLoopAlive then
            [.write (.setDisconnectRequested true), .call .sendDisconnect]
          else [.call .disconnectStashed] }
  | .sendDisconnect => { shared := (s.trySend .disconnect).1 }
  | .disconnectStashed =>
      -- Without one there may be a connection that no loop has taken yet.
      match s.connectionStash with
      | none => { shared := s }
      | some con =>
        { shared := { s with connectionStash := none }
          front := [.write (.dropConnection con), .write .endStashed] }
  | .trySendCmd c =>
      { shared := s, front := if s.connected then [.call (.sendCommand c)] else [] }
  | .ftReady r => { shared := s, front := if s.connected then [.call (.ftReadyAlive r)] else [] }
  | .ftReadyAlive r =>
      { shared := s
        front := if s.eventLoopAlive then
            match r with
            | .command c => [.call (.sendCommand c)]
            | .transfer t => [.call (.ftNewTask t)]
          else [] }
  | .sendCommand c => { shared := (s.trySend c).1 }
  | .ftNewTask t =>
      { shared :=
          { s with
              ftTaskSeq := s.ftTaskSeq + 1
              history := { s.history with taskIds := s.history.taskIds ++ [s.ftTaskSeq] } }
        front := [.write (.insertTask s.ftTaskSeq t.kind t.name t.localPath t.total),
          .write (.pushStarted s.ftTaskSeq), .call (.sendTransfer s.ftTaskSeq t)] }
  | .sendTransfer taskId t =>
      let r := s.trySend (t.command taskId)
      { shared := r.1
        front := if r.2 then [] else
          [.handler (.finishFtTask taskId false (some "event loop unavailable") none)] }

end Nek0.Native
