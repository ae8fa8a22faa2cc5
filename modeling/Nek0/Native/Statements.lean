import Nek0.Lib.Pool
import Nek0.Native.Writes

/-!
# `Nek0.Native.Statements`: what the threads execute

The threads of the native side are the FFI calls, the connect tasks, the event loop tasks, the
listing timers and the transfer workers. Each executes `Stmt`s one by one. A statement is one
access to the shared state together with the branch the program takes on what it read. The groups
follow the functions of `native/src/api.rs`:

* `HandlerStmt`: `handle_control_item` and `finish_ft_task`;
* `LoopStmt`: `event_loop` and its wrapper in `do_connect`;
* `CallStmt`: the FFI calls;
* `TaskStmt`: `do_connect` up to the event loop, the listing timers and the transfer workers.
-/

set_option autoImplicit false

namespace Nek0.Native

/-- Whose thread it is. -/
inductive Owner where
  | call
  | connect (attempt : Nat)
  | eventLoop (generation : Nat)
  | listTimer
  | worker (taskId : TaskId)
  deriving DecidableEq, Repr

/-- An event loop's session: the generation of its command channel, and the number of its
connection. -/
structure Session where
  generation : Nat
  con : Nat
  deriving DecidableEq, Repr

/-- How an event loop ends its session. -/
inductive ExitWay where
  /-- `disconnect_requested` was set. -/
  | requested
  /-- `Command::Disconnect` was received. -/
  | command
  /-- The stream failed. -/
  | failed (message : String)
  /-- The stream ended. -/
  | ended
  deriving DecidableEq, Repr

/-- What is registered for a command sent with a return code, or pushed when sending fails. -/
inductive Reply where
  /-- `perm_op_send`, or nothing without a token. -/
  | permOp (token : Option String)
  /-- A tokenless move of our own client. Nothing is registered. -/
  | ownMove (channelId : UInt64)
  | ftOp (token : String)
  | ftList (cid : UInt64) (path token : String)
  | ftTask (taskId : TaskId) (clientFt : UInt16)
  deriving DecidableEq, Repr

/-- A transfer call's arguments. -/
structure Transfer where
  kind : TransferKind
  name : String
  localPath : String
  total : UInt64
  cid : UInt64
  path : String
  password : Option String
  deriving DecidableEq, Repr

/-- What an FFI call asks for that needs a running event loop. -/
inductive FtRequest where
  | command (c : Command)
  | transfer (t : Transfer)
  deriving DecidableEq, Repr

/-- The statements of `handle_control_item` and `finish_ft_task`. -/
inductive HandlerStmt where
  | takePermOp (code : ReturnCode) (res : Except TsError Unit) (sid : SendId)
  | takeFtOp (code : ReturnCode) (res : Except TsError Unit) (sid : SendId)
  | takeFtTask (code : ReturnCode) (res : Except TsError Unit) (sid : SendId)
  | recordListResult (code : ReturnCode) (res : Except TsError Unit) (sid : SendId)
  | markListFinished (cid : UInt64) (path : String) (sid : SendId)
  | scheduleFtListFinish (code : ReturnCode)
  | drainPermOps
  | takePendingMove
  | finishFtTask (taskId : TaskId) (ok : Bool) (error : Option String) (origin : Option Origin)
  /-- `handle_file_download` or `handle_file_upload` with a failed stream. -/
  | failTransfer (clientFt : UInt16) (message : String)
  | acceptUpload (clientFt : UInt16)
  | startUpload (taskId : TaskId)
  | transferStatus (clientFt : UInt16) (status : TransferStatus)
  | decideStatus (taskId : TaskId) (status : TransferStatus)
  | failStatus (taskId : TaskId) (status : TransferStatus)
  deriving DecidableEq, Repr

/-- The statements of `event_loop` and its wrapper. -/
inductive LoopStmt where
  /-- `CONNECTION_STASH.take().expect(..)`. -/
  | takeStash (generation : Nat)
  /-- The top of an iteration: `SWIPE_DISCONNECT` is read. -/
  | top (sess : Session)
  | checkDisconnect (sess : Session)
  /-- `cmd_rx.try_recv()`. -/
  | receive (sess : Session)
  /-- `own_client_id_or_cache`, and the branch of the command on it. -/
  | ownClient (sess : Session) (c : Command)
  | sendWithResult (sess : Session) (reply : Reply)
  /-- `FT_CLIENT_FT.fetch_add`. -/
  | nextClientFt (sess : Session) (taskId : TaskId)
  /-- 2a: the first event. -/
  | poll (sess : Session)
  /-- 2b: the events that are already available. -/
  | drain (sess : Session)
  /-- 2c: the next deferred item. `ended` tells that the stream has ended. -/
  | handle (sess : Session) (ended : Bool)
  | acceptDownload (sess : Session) (ended : Bool) (clientFt : UInt16) (total : UInt64)
  /-- `FT_TASKS.get(&task_id).unwrap()`. -/
  | startDownload (sess : Session) (ended : Bool) (taskId : TaskId) (total : UInt64)
  /-- `con.disconnect(..)`: a disconnect request ends the session. Its result is ignored. -/
  | disconnect (sess : Session) (way : ExitWay)
  /-- `con.events().for_each(..)`: the stream is polled to its end. -/
  | closeStream (sess : Session) (way : ExitWay)
  /-- The generation check of an exit. -/
  | guardExit (sess : Session) (way : ExitWay)
  deriving DecidableEq, Repr

/-- The statements of the FFI calls. -/
inductive CallStmt where
  /-- `ts_connect`. -/
  | connect
  /-- `ts_disconnect`: `EVENT_LOOP_ALIVE` is read. -/
  | disconnect
  | sendDisconnect
  /-- The connection is taken out of `CONNECTION_STASH` and disconnected. -/
  | disconnectStashed
  /-- `connected` is read, for a command that needs no running event loop. -/
  | trySendCmd (c : Command)
  /-- `ft_ready`: `connected` and then `EVENT_LOOP_ALIVE` are read. -/
  | ftReady (r : FtRequest)
  | ftReadyAlive (r : FtRequest)
  | sendCommand (c : Command)
  /-- `FT_TASK_SEQ.fetch_add`. -/
  | ftNewTask (t : Transfer)
  | sendTransfer (taskId : TaskId) (t : Transfer)
  deriving DecidableEq, Repr

/-- The statements of the connect tasks, the listing timers and the transfer workers. -/
inductive TaskStmt where
  | handshake (attempt : Nat)
  /-- `CONNECTION_GENERATION.fetch_add`. -/
  | advanceGeneration (attempt : Nat) (serverName : String)
  | spawnEventLoop (generation : Nat)
  | finalizeFtList (code : ReturnCode) (timer : SendId)
  | downloadStart (taskId : TaskId) (total : UInt64)
  | downloadCheck (taskId : TaskId) (total received : UInt64)
  | downloadRead (taskId : TaskId) (total received : UInt64)
  | uploadStart (taskId : TaskId)
  | uploadCheck (taskId : TaskId)
  | uploadWrite (taskId : TaskId)
  | uploadWait (taskId : TaskId) (rounds : Nat)
  | uploadWaitCancel (taskId : TaskId) (rounds : Nat)
  deriving DecidableEq, Repr

/-- A statement. -/
inductive Stmt where
  | write (w : Write)
  | handler (h : HandlerStmt)
  | eventLoop (l : LoopStmt)
  | call (c : CallStmt)
  | task (t : TaskStmt)
  deriving DecidableEq, Repr

/-- How a handshake goes on. -/
inductive Handshake where
  | identityLevel (text : String)
  | failed (message : String)
  | ready (serverName : String) (book : Book)
  deriving DecidableEq, Repr

/-- What a worker's file or socket gives. -/
inductive Chunk where
  | data (n : Nat)
  | eof
  | failed (message : String)
  deriving DecidableEq, Repr

/-- What the outside decides in a step. -/
inductive Choice where
  | go
  | incoming (i : Incoming)
  | sendFails (message : String)
  | handshake (h : Handshake)
  | chunk (c : Chunk)
  deriving DecidableEq, Repr

/-- A thread of the native side. -/
abbrev NativeThread := Nek0.Lib.Thread Owner Stmt

/-- What a statement leads to. -/
abbrev NativeOutcome := Nek0.Lib.Outcome Shared Owner Stmt

/-- The shared state and the threads. -/
abbrev Machine := Nek0.Lib.Pool Shared Owner Stmt

end Nek0.Native
