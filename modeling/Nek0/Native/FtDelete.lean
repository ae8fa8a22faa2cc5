import Nek0.Native.RemotePaths

/-!
# `Nek0.Native.FtDelete`: `ts_ft_delete` and the command it becomes

The return value of `ts_ft_delete`, and the packet that the event loop sends for its command. The
call reads the shared state three times. Other threads run in between, so each access has a state of
its own.

An `OutCommand` is kept as its parts. How a part is escaped into bytes is left out.
-/

set_option autoImplicit false

namespace Nek0.Native

/-- The shared state at the three accesses of the call: `connected` and `EVENT_LOOP_ALIVE` in
`ft_ready`, and then `COMMAND_TX`. -/
structure Accesses where
  connected : Shared
  alive : Shared
  commandTx : Shared

/-- `ft_ready`. -/
def ftReady (a : Accesses) : Bool := a.connected.connected && a.alive.eventLoopAlive

/-- `ts_ft_delete`: the shared state after it, and what it returns. -/
def ftDeleteReturns (fromStr : String → Option (List String)) (a : Accesses) (cid : UInt32)
    (namesJson pw token : Option String) : Shared × UInt8 :=
  if !ftReady a then (a.commandTx, 0)
  else
    match tsFtDelete fromStr cid namesJson pw token with
    | some (.queueFtCommand c) =>
      let r := a.commandTx.trySend c
      (r.1, if r.2 then 1 else 0)
    | _ => (a.commandTx, 0)

/-- An outgoing command. `current` is the part that is being written. -/
structure OutCommand where
  name : String
  finished : List (List (String × String))
  current : List (String × String)
  deriving DecidableEq, Repr

namespace OutCommand

/-- `OutCommand::new`. -/
def new (name : String) : OutCommand := { name := name, finished := [], current := [] }

/-- `start_new_part`. -/
def startNewPart (p : OutCommand) : OutCommand :=
  { p with finished := p.finished ++ [p.current], current := [] }

/-- `write_arg`. -/
def writeArg (p : OutCommand) (key value : String) : OutCommand :=
  { p with current := p.current ++ [(key, value)] }

/-- The values of an argument, part after part. -/
def values (p : OutCommand) (key : String) : List String :=
  ((p.finished ++ [p.current]).flatten.filter (·.1 == key)).map (·.2)

end OutCommand

/-- The arguments of one entry. `i > 0` starts a new part. -/
def writeEntry (cid cpw : String) (packet : OutCommand) (entry : String × Nat) : OutCommand :=
  let packet := if entry.2 > 0 then packet.startNewPart else packet
  ((packet.writeArg "cid" cid).writeArg "cpw" cpw).writeArg "name" entry.1

/-- `Command::FtDelete`: every deleted entry is one part of a single `ftdeletefile`.
`encodePassword` is the hash of the channel password. -/
def ftDeletePacket (encodePassword : String → String) (cid : UInt64) (names : List String)
    (password : Option String) : OutCommand :=
  let cpw := (password.map encodePassword).getD ""
  names.zipIdx.foldl (writeEntry (toString cid.toNat) cpw) (.new "ftdeletefile")

end Nek0.Native
