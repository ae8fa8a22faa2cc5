import Nek0.Lib.System

/-!
# `Nek0.Dart.ServerList`: `ServerListNotifier`

`lib/models/ts_state.dart` and `lib/models/server.dart`: the saved servers. `build` starts
`_loadFromDisk`, and each edit starts a `_saveToDisk`. Both wait for `SharedPreferences`, in any
order, and then read or write its cache (`prefs`). A write reaches the disk later (`stored`), and
writes keep their order (`writes`).

A stored string is the JSON text of a record, so the store is a list of records. A missing list is
the empty list. `initial` and `ops` are there for the specification: what was stored at first, and
the edits that were called.
-/

set_option autoImplicit false

namespace Nek0.Dart

open Nek0.Lib (System)

/-- `Server`. -/
structure Server where
  id : String
  name : String
  address : String
  nickname : String
  channel : Option String
  password : Option String
  voicePort : Option Int
  serverQueryPort : Option Int
  serverQuerySshPort : Option Int
  fileTransferPort : Option Int
  deriving DecidableEq, Repr

/-- A value of a JSON record. `other` is a number with a fraction, a truth value, a list or a
record. -/
inductive JsonValue where
  | null
  | string (s : String)
  | int (n : Int)
  | other
  deriving DecidableEq, Repr

/-- `as String`. -/
def JsonValue.asString : JsonValue → Option String
  | .string s => some s
  | _ => none

/-- `as String?`. -/
def JsonValue.asStringOrNull : JsonValue → Option (Option String)
  | .null => some none
  | .string s => some (some s)
  | _ => none

/-- `as int?`. -/
def JsonValue.asIntOrNull : JsonValue → Option (Option Int)
  | .null => some none
  | .int n => some (some n)
  | _ => none

/-- A string, or `null`. -/
def JsonValue.ofString? : Option String → JsonValue
  | none => .null
  | some s => .string s

/-- An integer, or `null`. -/
def JsonValue.ofInt? : Option Int → JsonValue
  | none => .null
  | some n => .int n

/-- A decoded JSON record. -/
abbrev JsonRecord := List (String × JsonValue)

/-- `json[key]`. -/
def JsonRecord.get (json : JsonRecord) (key : String) : JsonValue :=
  (json.lookup key).getD .null

namespace Server

/-- `Server.toJson`. -/
def toJson (s : Server) : JsonRecord :=
  [("id", .string s.id),
    ("name", .string s.name),
    ("address", .string s.address),
    ("nickname", .string s.nickname),
    ("channel", .ofString? s.channel),
    ("password", .ofString? s.password),
    ("voicePort", .ofInt? s.voicePort),
    ("serverQueryPort", .ofInt? s.serverQueryPort),
    ("serverQuerySshPort", .ofInt? s.serverQuerySshPort),
    ("fileTransferPort", .ofInt? s.fileTransferPort)]

/-- `Server.fromJson`. A value of another type is an exception. -/
def fromJson (json : JsonRecord) : Option Server := do
  let id ← (json.get "id").asString
  let name ← (json.get "name").asString
  let address ← (json.get "address").asString
  let nickname ← (json.get "nickname").asString
  let channel ← (json.get "channel").asStringOrNull
  let password ← (json.get "password").asStringOrNull
  let voicePort ← (json.get "voicePort").asIntOrNull
  let serverQueryPort ← (json.get "serverQueryPort").asIntOrNull
  let serverQuerySshPort ← (json.get "serverQuerySshPort").asIntOrNull
  let fileTransferPort ← (json.get "fileTransferPort").asIntOrNull
  return {
    id := id
    name := name
    address := address
    nickname := nickname
    channel := channel
    password := password
    voicePort := voicePort
    serverQueryPort := serverQueryPort
    serverQuerySshPort := serverQuerySshPort
    fileTransferPort := fileTransferPort }

end Server

/-- An edit of the server list. -/
inductive ServerOp where
  | add (server : Server)
  | update (server : Server)
  | remove (serverId : String)
  deriving DecidableEq, Repr

/-- What an edit does to a list. An update replaces the first server with its id. -/
def ServerOp.apply : ServerOp → List Server → List Server
  | .add server, servers => servers ++ [server]
  | .update server, servers =>
    match servers.findIdx? (·.id == server.id) with
    | none => servers
    | some i => servers.set i server
  | .remove serverId, servers => servers.filter (·.id != serverId)

/-- The edits in order. -/
def applyOps (ops : List ServerOp) (servers : List Server) : List Server :=
  ops.foldl (fun servers op => op.apply servers) servers

/-- `ServerListNotifier` with its state, the loads and saves that wait, and the store. -/
structure ServerList where
  servers : List Server
  loading : Bool
  loadPending : Bool
  saves : Nat
  prefs : List JsonRecord
  writes : List (List JsonRecord)
  stored : List JsonRecord
  initial : List JsonRecord
  ops : List ServerOp

namespace ServerList

/-- `build`, over a store. -/
def build (stored : List JsonRecord) : ServerList where
  servers := []
  loading := true
  loadPending := true
  saves := 0
  prefs := stored
  writes := []
  stored := stored
  initial := stored
  ops := []

/-- `_loadFromDisk` goes on. A record that is not a server is an exception. -/
def loadFromDisk (sl : ServerList) : ServerList :=
  match sl.prefs.mapM Server.fromJson with
  | none => { sl with loadPending := false }
  | some servers => { sl with loadPending := false, servers := servers, loading := false }

/-- `_saveToDisk` goes on. -/
def saveToDisk (sl : ServerList) : ServerList :=
  let records := sl.servers.map Server.toJson
  { sl with saves := sl.saves - 1, prefs := records, writes := sl.writes ++ [records] }

/-- `addServer`. -/
def addServer (server : Server) (sl : ServerList) : ServerList :=
  { sl with servers := sl.servers ++ [server], saves := sl.saves + 1 }

/-- `updateServer`. -/
def updateServer (server : Server) (sl : ServerList) : ServerList :=
  match sl.servers.findIdx? (·.id == server.id) with
  | none => sl
  | some i => { sl with servers := sl.servers.set i server, saves := sl.saves + 1 }

/-- `removeServer`. -/
def removeServer (serverId : String) (sl : ServerList) : ServerList :=
  { sl with servers := sl.servers.filter (·.id != serverId), saves := sl.saves + 1 }

/-- The call of an edit. -/
def call : ServerOp → ServerList → ServerList
  | .add server => addServer server
  | .update server => updateServer server
  | .remove serverId => removeServer serverId

/-- What can happen: an edit is called, `SharedPreferences` is there for the load or for a save, and
the first write is on the disk. -/
inductive Event where
  | call (op : ServerOp)
  | loaded
  | saved
  | written
  deriving DecidableEq, Repr

/-- What an event does. -/
def next (e : Event) (sl : ServerList) : Option ServerList :=
  match e with
  | .call op => some { sl.call op with ops := sl.ops ++ [op] }
  | .loaded => if sl.loadPending then some sl.loadFromDisk else none
  | .saved => if 0 < sl.saves then some sl.saveToDisk else none
  | .written =>
    match sl.writes with
    | [] => none
    | records :: writes => some { sl with stored := records, writes := writes }

/-- The server list over time. At first, servers are stored. -/
def system : System ServerList Event where
  init := fun sl => ∃ stored servers, stored.mapM Server.fromJson = some servers ∧ sl = build stored
  next := next

/-- The load, the saves and the writes have completed. -/
def completed (sl : ServerList) : Bool :=
  !sl.loadPending && sl.saves == 0 && sl.writes.isEmpty

end ServerList

end Nek0.Dart
