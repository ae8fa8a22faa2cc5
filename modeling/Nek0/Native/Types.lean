import Mathlib
import Nek0.Native.Roster

/-!
# `Nek0.Native.Types`: events, commands and errors

The values that cross the FFI boundary of `native/src/lib.rs`: the events that `ts_poll_events`
returns, the commands that the FFI calls queue for the event loop, and the texts of the errors.

Left out: the `Diag` events, which `push_diag` writes for debugging, and `SendAudio`, which
touches none of the state modelled here.
-/

set_option autoImplicit false

namespace Nek0.Native

/-- The number of a command that was sent with a return code: a `MessageHandle`. -/
abbrev ReturnCode := UInt16

/-- The number of a transfer task. -/
abbrev TaskId := UInt32

/-- `TsFtEntry`. -/
structure TsFtEntry where
  name : String
  size : UInt64
  datetime : Int
  isFile : Bool
  deriving DecidableEq, Repr

/-- `FT_KIND_DOWNLOAD` and `FT_KIND_UPLOAD`. -/
inductive TransferKind where
  | download
  | upload
  deriving DecidableEq, Repr

/-- `TsEvent`. -/
inductive TsEvent where
  | connected (serverName : String) (clientId : UInt32)
  | disconnected (reason : String)
  | textMessage (fromClient : String) (fromClientId : UInt32) (targetMode : UInt8)
      (message : String)
  | poke (fromClient : String) (fromClientId : UInt32) (message : String)
  | channelsUpdated
  | moveRejected (channelId : UInt32)
  | error (message : String)
  | ftOp (token : String) (ok : Bool) (error : Option String)
  | ftListing (token : String) (entries : List TsFtEntry) (error : Option String)
  | ftStarted (taskId : TaskId) (kind : TransferKind) (name : String) (total : UInt64)
  | ftProgress (taskId : TaskId) (transferred : UInt64)
  | ftDone (taskId : TaskId) (ok : Bool) (transferred : UInt64) (error : Option String)
  | permOp (token : String) (ok : Bool) (error : Option String)
  deriving DecidableEq, Repr

/-- `Command`. -/
inductive Command where
  | sendMessage (message : String)
  | moveChannel (clientId : UInt16) (channelId : UInt64) (password token : Option String)
  | setMuted (input output : Bool)
  | setAway (away : Bool)
  | sendPoke (clientId : UInt16) (message : String)
  | kickClient (clientId : UInt16) (fromServer : Bool) (reason : String) (token : Option String)
  | banClient (clientId : UInt16) (timeSeconds : UInt32) (reason : String)
      (token : Option String)
  | serverGroupAddClient (sgid dbid : UInt64) (token : String)
  | serverGroupDelClient (sgid dbid : UInt64) (token : String)
  | channelGroupSet (cgid cid dbid : UInt64) (token : String)
  | channelGroupClear (cid dbid : UInt64) (token : String)
  | grantChannelPerm (cid dbid : UInt64) (permsid : String) (value : Int32) (token : String)
  | revokeChannelPerm (cid dbid : UInt64) (permsid token : String)
  | grantServerPerm (dbid : UInt64) (permsid : String) (value : Int32) (token : String)
  | revokeServerPerm (dbid : UInt64) (permsid token : String)
  | refreshGroups
  | ownPermList
  | disconnect
  | ftList (cid : UInt64) (path : String) (password : Option String) (token : String)
  | ftCreateDir (cid : UInt64) (dirname : String) (password : Option String) (token : String)
  | ftDelete (cid : UInt64) (names : List String) (password : Option String) (token : String)
  | ftDownload (cid : UInt64) (path : String) (password : Option String) (taskId : TaskId)
  | ftUpload (cid : UInt64) (path : String) (password : Option String) (taskId : TaskId)
  deriving DecidableEq, Repr

/-- `tsclientlib::TsError`: the name that `{:?}` prints, and the number. -/
structure TsError where
  name : String
  code : Nat
  deriving DecidableEq, Repr

namespace TsError

/-- `{:#06x}`: `0x` and at least four hexadecimal digits. -/
def hexText (n : Nat) : String :=
  let digits := Nat.toDigits 16 n
  "0x" ++ String.ofList (List.replicate (4 - digits.length) '0' ++ digits)

/-- `format!("{:?} ({:#06x})", error, error as i32)`. -/
def text (e : TsError) : String := e.name ++ " (" ++ hexText e.code ++ ")"

/-- The empty-result quirk: the error text, in lower case, names the empty database result. -/
def emptyResultQuirk (e : TsError) : Bool :=
  decide ("databaseemptyresult".toList <:+: e.text.toList.map Char.toLower)

/-- `TsError::ChannelInvalidPassword`. -/
def channelInvalidPassword : TsError := ⟨"ChannelInvalidPassword", 0x030d⟩

end TsError

/-- The error text of a command answer. -/
def errText : Except TsError Unit → Option String
  | .ok () => none
  | .error e => some e.text

end Nek0.Native
