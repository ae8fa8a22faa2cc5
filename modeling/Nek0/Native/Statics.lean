import Nek0.Lib.Table
import Nek0.Native.Tsclientlib

/-!
# `Nek0.Native.Statics`: the shared state of the native side

The statics of `native/src/lib.rs` that the connection, the command queue and the file transfers
share, in one record. A `Mutex<HashMap>` and a `DashMap` are each a `Table`. The command channels
and the connections are numbered: a channel by the generation that made it, a connection by the
connect attempt that opened it. `COMMAND_TX` and `CONNECTION_STASH` hold such numbers.

The `History` is not part of the program. It records what the specifications talk about: which
command an event answers, which events were returned, when a disconnect was requested. For the
same reason the entries of the pending-operation tables carry the `SendId` of their command.
-/

set_option autoImplicit false

namespace Nek0.Native

open Nek0.Lib (Table)

/-- `FtTask`. The cancel flag is shared with the worker and is kept outside, by task id. -/
structure FtTask where
  kind : TransferKind
  name : String
  localPath : String
  total : UInt64
  done : UInt64
  clientFtId : UInt16
  lastEvent : Option Instant
  deriving DecidableEq, Repr

/-- A table entry and the command it waits for. -/
structure Awaiting (α : Type) where
  value : α
  sid : SendId
  deriving DecidableEq, Repr

/-- `PendingFtList`. The last three fields are the specification's: the command that asked for the
listing, the one whose answer is recorded, and the one whose finished marker was seen. -/
structure PendingFtList where
  token : String
  entries : List TsFtEntry
  created : Instant
  cid : UInt64
  path : String
  resultSeen : Bool
  resultOk : Bool
  resultError : Option String
  finishedSeen : Bool
  finalizeScheduled : Bool
  sid : SendId
  resultFrom : Option (SendId × Except TsError Unit)
  finishedFrom : Option SendId
  deriving DecidableEq, Repr

/-- Where an event comes from. -/
inductive Origin where
  /-- A pending operation of command `own`, resolved by the answer to command `answered`. -/
  | answer (own answered : SendId)
  /-- A pending listing, finalized by the timer that was started for command `timer`. -/
  | listing (pending : PendingFtList) (timer : SendId)
  /-- An entry of an error message without a return code. -/
  | bareError
  deriving DecidableEq, Repr

/-- What the specifications talk about. -/
structure History where
  /-- The accepted `ts_connect` calls so far. -/
  attempts : Nat
  /-- How many had been accepted when a disconnect was last requested. -/
  lastRequest : Nat
  /-- The exits through the user-disconnect path: the attempt that opened the channel, the attempt
  that opened the connection, and `lastRequest` at that time. -/
  userExits : List (Nat × Nat × Nat)
  /-- The commands sent with a return code so far. -/
  sends : SendId
  /-- The events pushed for an answer, a listing or a bare error. -/
  emitted : List (TsEvent × Origin)
  /-- The tokenless moves of our own client that were sent: the channel, and the time. -/
  moves : List (SendId × UInt64 × Instant)
  /-- The stream items that each connection yielded to the event loop, and those that were passed to
  `handle_event_item`, with the time. -/
  yielded : List (Nat × StreamItem)
  passed : List (Nat × StreamItem × Instant)
  /-- The row frames that were added to a listing. -/
  handled : List (SendId × List TsFtEntry)
  /-- The task ids handed out. -/
  taskIds : List TaskId
  /-- The events that `ts_poll_events` returned, and those that `ts_connect` discarded. -/
  returned : List TsEvent
  discarded : List TsEvent
  deriving DecidableEq, Repr

/-- An unbounded command channel: its queue, and whether the receiver is alive. -/
structure CommandQueue where
  commands : List Command
  receiving : Bool
  attempt : Nat
  deriving DecidableEq, Repr

/-- The shared state. -/
structure Shared where
  -- `STATE`
  connecting : Bool
  connected : Bool
  disconnectRequested : Bool
  ownClientId : UInt32
  channels : List TsChannel
  clients : List TsClient
  pendingEvents : List TsEvent
  pendingMove : Option (UInt64 × Instant)
  -- the other statics
  commandTx : Option Nat
  connectionGeneration : Nat
  eventLoopAlive : Bool
  swipeDisconnect : Bool
  connectionStash : Option Nat
  ftTasks : Table TaskId FtTask
  cancelFlags : TaskId → Bool
  ftTaskSeq : TaskId
  ftClientFt : UInt16
  ftTaskByRc : Table ReturnCode (Awaiting TaskId)
  ftOps : Table ReturnCode (Awaiting String)
  permOps : Table ReturnCode (Awaiting String)
  ftLists : Table ReturnCode PendingFtList
  -- what the tasks own
  queues : Nat → CommandQueue
  conns : Nat → Conn
  now : Instant
  history : History

namespace Shared

/-- The state at program start. -/
def initial : Shared where
  connecting := false
  connected := false
  disconnectRequested := false
  ownClientId := 0
  channels := []
  clients := []
  pendingEvents := []
  pendingMove := none
  commandTx := none
  connectionGeneration := 0
  eventLoopAlive := false
  swipeDisconnect := false
  connectionStash := none
  ftTasks := ∅
  cancelFlags := fun _ => false
  ftTaskSeq := 1
  ftClientFt := 0x4000
  ftTaskByRc := ∅
  ftOps := ∅
  permOps := ∅
  ftLists := ∅
  queues := fun _ => { commands := [], receiving := false, attempt := 0 }
  conns := fun _ => .fresh { ownClient := 0, channels := [], clients := [] }
  now := 0
  history :=
    { attempts := 0, lastRequest := 0, userExits := [], sends := 0, emitted := [], moves := [],
      yielded := [], passed := [], handled := [], taskIds := [], returned := [],
      discarded := [] }

/-- Replaces a connection. -/
def setConn (s : Shared) (con : Nat) (c : Conn) : Shared :=
  { s with conns := Function.update s.conns con c }

/-- Replaces a command queue. -/
def setQueue (s : Shared) (generation : Nat) (q : CommandQueue) : Shared :=
  { s with queues := Function.update s.queues generation q }

/-- `ft_task_id_by_client_id`. -/
def ftTaskIdByClientId (s : Shared) (clientFt : UInt16) : Option TaskId :=
  (Table.keysWhere (fun _ t => t.clientFtId == clientFt) s.ftTasks).head?

end Shared

end Nek0.Native
