import Nek0.Native.Statics

/-!
# `Nek0.Native.Writes`: one access to the shared state

A `Write` is one atomic update without a branch that the program looks at: a store to an atomic,
or what happens under one lock. The exit paths of the event loop, its publications and most
effects of the FFI calls are lists of writes.
-/

set_option autoImplicit false

namespace Nek0.Native

open Nek0.Lib (Table)

/-- One atomic update of the shared state. -/
inductive Write where
  /-- `STATE.lock().pending_events.push_back(..)`. -/
  | push (e : TsEvent) (origin : Option Origin)
  | setConnected (b : Bool)
  | setDisconnectRequested (b : Bool)
  | setSwipeDisconnect (b : Bool)
  | setEventLoopAlive (b : Bool)
  | clearFtLists
  | clearFtOps
  | clearPermOps
  /-- `*COMMAND_TX.lock() = None`. -/
  | dropCommandTx
  /-- `*COMMAND_TX.lock() = Some(cmd_tx)`. -/
  | installCommandTx (generation : Nat)
  /-- Under one lock: `connected = false`, and the `Disconnected` event. -/
  | endSession (reason : String)
  /-- Under one lock: `connected = false`, `disconnect_requested = false`. -/
  | endStashed
  /-- Under one lock: `connecting = false`, and the `Error` event. -/
  | failConnect (message : String)
  /-- Under one lock: the session is published. -/
  | publish (serverName : String) (book : Book)
  /-- `*CONNECTION_STASH.lock() = Some(con)`. -/
  | stashConnection (con : Nat)
  /-- `refresh_from_book`, and under one lock the roster and the `ChannelsUpdated` event. -/
  | refreshFromBook (con : Nat)
  | armPendingMove (channelId : UInt64)
  | insertPermOp (code : ReturnCode) (token : String) (sid : SendId)
  | insertFtOp (code : ReturnCode) (token : String) (sid : SendId)
  | insertFtTaskByRc (code : ReturnCode) (taskId : TaskId) (sid : SendId)
  /-- The insertion of a listing, and under the same lock the pruning of the old ones. -/
  | insertFtList (code : ReturnCode) (token : String) (cid : UInt64) (path : String)
      (sid : SendId)
  /-- A row frame of a listing. -/
  | addListRows (code : ReturnCode) (rows : List TsFtEntry) (sid : SendId)
  | bindClientFt (taskId : TaskId) (clientFt : UInt16)
  | storeTotal (taskId : TaskId) (total : UInt64)
  /-- `FT_TASKS.insert` of `ft_new_task`. -/
  | insertTask (taskId : TaskId) (kind : TransferKind) (name localPath : String) (total : UInt64)
  /-- `ft_push_started`. -/
  | pushStarted (taskId : TaskId)
  | storeDone (taskId : TaskId) (done : UInt64)
  /-- The download worker's progress: `done` is stored. -/
  | downloadProgress (taskId : TaskId) (done : UInt64)
  /-- The upload worker's progress: `n` is added to `done`. -/
  | uploadProgress (taskId : TaskId) (n : UInt64)
  /-- `ts_ft_cancel`. -/
  | cancelTask (taskId : TaskId)
  /-- `ts_poll_events`. -/
  | pollEvents
  /-- The receiver of a command channel is dropped. -/
  | dropReceiver (generation : Nat)
  /-- A connection is disconnected or dropped. -/
  | dropConnection (con : Nat)
  deriving DecidableEq, Repr

namespace Shared

/-- Pushes an event. -/
def pushEvent (s : Shared) (e : TsEvent) : Shared :=
  { s with pendingEvents := s.pendingEvents ++ [e] }

/-- A progress event is due: there was none yet, it is forced, or the last one is 500 ms old. -/
def progressDue (s : Shared) (task : FtTask) (force : Bool) : Bool :=
  match task.lastEvent with
  | none => true
  | some t => force || decide (500 ≤ s.now - t)

/-- `maybe_publish_ft_progress`: at most one event in 500 ms, unless forced. -/
def maybePublishFtProgress (s : Shared) (taskId : TaskId) (force : Bool) : Shared :=
  match s.ftTasks.lookup taskId with
  | none => s
  | some task =>
    if s.progressDue task force then
      { s with ftTasks := s.ftTasks.insert taskId { task with lastEvent := some s.now } }.pushEvent
        (.ftProgress taskId task.done)
    else s

/-- A listing request that was just sent. -/
def newPendingFtList (s : Shared) (token : String) (cid : UInt64) (path : String)
    (sid : SendId) : PendingFtList where
  token := token
  entries := []
  created := s.now
  cid := cid
  path := path
  resultSeen := false
  resultOk := false
  resultError := none
  finishedSeen := false
  finalizeScheduled := false
  sid := sid
  resultFrom := none
  finishedFrom := none

end Shared

/-- What a write does. -/
def Write.apply (s : Shared) : Write → Shared
  | .push e origin =>
      -- The record says what the event came from.
      let s := s.pushEvent e
      match origin with
      | none => s
      | some o => { s with history := { s.history with emitted := s.history.emitted ++ [(e, o)] } }
  | .setConnected b => { s with connected := b }
  | .setDisconnectRequested b => { s with disconnectRequested := b }
  | .setSwipeDisconnect b => { s with swipeDisconnect := b }
  | .setEventLoopAlive b => { s with eventLoopAlive := b }
  | .clearFtLists => { s with ftLists := ∅ }
  | .clearFtOps => { s with ftOps := ∅ }
  | .clearPermOps => { s with permOps := ∅ }
  | .dropCommandTx => { s with commandTx := none }
  | .installCommandTx generation => { s with commandTx := some generation }
  | .endSession reason => { s with connected := false }.pushEvent (.disconnected reason)
  | .endStashed => { s with connected := false, disconnectRequested := false }
  | .failConnect message => { s with connecting := false }.pushEvent (.error message)
  | .publish serverName book =>
      { s with
          connecting := false
          connected := true
          ownClientId := book.ownClient.toUInt32
          channels := book.channels
          clients := book.clients }.pushEvent (.connected serverName book.ownClient.toUInt32)
  | .stashConnection con => { s with connectionStash := some con }
  | .refreshFromBook con =>
      -- Without a link the book is not read.
      if (s.conns con).link = .connected then
        { s with
            channels := (s.conns con).book.channels
            clients := (s.conns con).book.clients }.pushEvent .channelsUpdated
      else s
  | .armPendingMove channelId => { s with pendingMove := some (channelId, s.now) }
  | .insertPermOp code token sid => { s with permOps := s.permOps.insert code ⟨token, sid⟩ }
  | .insertFtOp code token sid => { s with ftOps := s.ftOps.insert code ⟨token, sid⟩ }
  | .insertFtTaskByRc code taskId sid =>
      { s with ftTaskByRc := s.ftTaskByRc.insert code ⟨taskId, sid⟩ }
  | .insertFtList code token cid path sid =>
      let lists := s.ftLists.insert code (s.newPendingFtList token cid path sid)
      -- A new listing removes those that are older than 30 seconds.
      { s with ftLists := Table.keep (fun p => decide (s.now - p.created ≤ 30000)) lists }
  | .addListRows code rows sid =>
      { s with
          ftLists := Table.modify code (fun p => { p with entries := p.entries ++ rows }) s.ftLists
          history := { s.history with handled := s.history.handled ++ [(sid, rows)] } }
  | .bindClientFt taskId clientFt =>
      { s with
          ftTasks := Table.modify taskId (fun t => { t with clientFtId := clientFt }) s.ftTasks }
  | .storeTotal taskId total =>
      { s with ftTasks := Table.modify taskId (fun t => { t with total := total }) s.ftTasks }
  | .insertTask taskId kind name localPath total =>
      { s with
          ftTasks := s.ftTasks.insert taskId
            { kind := kind, name := name, localPath := localPath, total := total, done := 0,
              clientFtId := 0xFFFF, lastEvent := none }
          cancelFlags := Function.update s.cancelFlags taskId false }
  | .pushStarted taskId =>
      -- The task can have ended already.
      match s.ftTasks.lookup taskId with
      | none => s
      | some t => s.pushEvent (.ftStarted taskId t.kind t.name t.total)
  | .storeDone taskId done =>
      { s with ftTasks := Table.modify taskId (fun t => { t with done := done }) s.ftTasks }
  | .downloadProgress taskId done =>
      { s with
          ftTasks := Table.modify taskId (fun t => { t with done := done }) s.ftTasks
        }.maybePublishFtProgress taskId false
  | .uploadProgress taskId n =>
      { s with
          ftTasks := Table.modify taskId (fun t => { t with done := t.done + n }) s.ftTasks
        }.maybePublishFtProgress taskId false
  | .cancelTask taskId =>
      -- Only a task that is there can be canceled.
      if taskId ∈ s.ftTasks then
        { s with cancelFlags := Function.update s.cancelFlags taskId true }
      else s
  | .pollEvents =>
      { s with
          pendingEvents := []
          history := { s.history with returned := s.history.returned ++ s.pendingEvents } }
  | .dropReceiver generation =>
      s.setQueue generation { s.queues generation with commands := [], receiving := false }
  | .dropConnection con => s.setConn con (s.conns con).drop

end Nek0.Native
