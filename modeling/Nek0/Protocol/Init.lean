import Nek0.Protocol.Packets

/-!
# `Nek0.Protocol.Init`: acknowledgements and the packets that start a connection

The client sends `Init0`, `Init2` and `Init4`, the server answers with `Init1` and `Init3`, or asks
for another start with `Init127`. Such a packet acknowledges the one before.
-/

set_option autoImplicit false

namespace Nek0.Protocol

/-- What a client sends to start a connection. -/
inductive C2SInitData where
  | init0 (version timestamp : UInt32) (random0 : Bytes 4)
  | init2 (version : UInt32) (random1 : Bytes 16) (random0R : Bytes 4)
  /-- `command` has to be a `clientinitiv alpha=… omega=…` command. -/
  | init4 (version : UInt32) (x n : Bytes 64) (level : UInt32) (random2 : Bytes 100)
      (y : Bytes 64) (command : List UInt8)
  deriving DecidableEq

inductive S2CInitData where
  | init1 (random1 : Bytes 16) (random0R : Bytes 4)
  | init3 (x n : Bytes 64) (level : UInt32) (random2 : Bytes 100)
  | init127
  deriving DecidableEq

/-- `b"TS3INIT1"`. -/
def initMac : Bytes 8 := ⟨[0x54, 0x53, 0x33, 0x49, 0x4e, 0x49, 0x54, 0x31], rfl⟩

namespace InPacket

/-- `content.get(i).ok_or_else(|| Error::PacketContentTooShort(content.len()))`. -/
def getByte (content : List UInt8) (i : Nat) : Except Failure UInt8 :=
  match content[i]? with
  | some b => .ok b
  | none => tooShort content

/-- `ack_packet`: the id that the packet acknowledges, if any. -/
def ackPacket (p : InPacket) : Except Failure (Option UInt16) :=
  if p.packetType.isAck then
    match readU16 p.content with
    | .ok id => .ok (some id)
    | .error _ => tooShort p.content
  else if p.packetType = .init then
    if p.direction = .s2c then do
      let i ← getByte p.content 0
      match i.toNat with
      | 1 => .ok (some 0)
      | 3 => .ok (some 2)
      -- `Init0` has to be sent again: `Init2` goes in any case.
      | 127 => .ok (some 2)
      | _ => .error (.error (.invalidInitStep i))
    else do
      let i ← getByte p.content 4
      match i.toNat with
      | 0 => .ok none
      | 2 => .ok (some 1)
      | 4 => .ok (some 3)
      | _ => .error (.error (.invalidInitStep i))
  else .ok none

/-- The checks that `into_s2cinit` and `into_c2sinit` start with. -/
def checkInit (p : InPacket) (dir : Direction) : Except Failure Unit :=
  if p.direction ≠ dir then .error (.error .wrongDirection)
  else if p.packetType ≠ .init then .error (.error (.wrongPacketType p.packetType))
  else if p.fields.mac ≠ initMac.val then .error (.error (.wrongInitMac p.fields.mac))
  else .ok ()

/-- `into_s2cinit`: the checks on the length stand in front of the slices. -/
def intoS2CInit (p : InPacket) : Except Failure S2CInitData := do
  p.checkInit .s2c
  if p.content.isEmpty then tooShort p.content
  else do
    let step ← index p.content 0
    -- 16 bytes of the server, and four of ours.
    if step = 1 then
      if p.content.length < 21 then tooShort p.content
      else return .init1 (← slice p.content 1 16) (← slice p.content 17 4)
    -- The puzzle: `x`, `n`, the level, and the server's data.
    else if step = 3 then
      if p.content.length < 233 then tooShort p.content
      else do
        let x ← slice p.content 1 64
        let n ← slice p.content 65 64
        let level ← readU32 (← sliceFrom p.content 129)
        return .init3 x n level (← slice p.content 133 100)
    -- The server asks to begin again.
    else if step = 127 then return .init127
    else .error (.error (.invalidInitStep step))

/-- `into_c2sinit`: every step of the client starts with its version. -/
def intoC2SInit (p : InPacket) : Except Failure C2SInitData := do
  p.checkInit .c2s
  if p.content.length < 5 then tooShort p.content
  else do
    let version ← readU32 (← sliceFrom p.content 0)
    let step ← index p.content 4
    if step = 0 then
      if p.content.length < 13 then tooShort p.content
      else do
        let timestamp ← readU32 (← sliceFrom p.content 5)
        return .init0 version timestamp (← slice p.content 9 4)
    else if step = 2 then
      if p.content.length < 25 then tooShort p.content
      else return .init2 version (← slice p.content 5 16) (← slice p.content 21 4)
    else if step = 4 then
      let len := 5 + 128 + 4 + 100 + 64
      if p.content.length < len + 20 then tooShort p.content
      else do
        let x ← slice p.content 5 64
        let n ← slice p.content 69 64
        let level ← readU32 (← sliceFrom p.content 133)
        let random2 ← slice p.content 137 100
        let y ← slice p.content 237 64
        return .init4 version x n level random2 y (← sliceFrom p.content len)
    else
      -- The error shows the first byte, not the step.
      .error (.error (.invalidInitStep (← index p.content 0)))

end InPacket

/-- An empty `Init` packet. -/
def newInit (dir : Direction) : OutPacket :=
  ((OutPacket.newWithDir dir .empty .init).setMac initMac).packetId 0x65

/-- `OutC2SInit0::new`. The last eight bytes are reserved. -/
def outC2SInit0 (version timestamp : UInt32) (random0 : Bytes 4) : OutPacket :=
  (newInit .c2s).extend
    (writeU32 version ++ 0 :: (writeU32 timestamp ++ (random0.val ++ List.replicate 8 0)))

/-- `OutC2SInit2::new`. -/
def outC2SInit2 (version : UInt32) (random1 : Bytes 16) (random0R : Bytes 4) :
    OutPacket :=
  (newInit .c2s).extend (writeU32 version ++ 2 :: (random1.val ++ random0R.val))

/-- The command at the end of `Init4`. `alpha` and `omega` are in base 64. -/
def clientinitiv (alpha omega ip : List UInt8) : List UInt8 :=
  let ip := if ip.isEmpty then [] else ascii "=" ++ ip
  ascii "clientinitiv alpha=" ++ alpha ++ ascii " omega=" ++ omega ++ ascii " ot=1 ip" ++ ip

/-- `OutC2SInit4::new`. -/
def outC2SInit4 (version : UInt32) (x n : Bytes 64) (level : UInt32)
    (random2 : Bytes 100) (y : Bytes 64) (alpha omega ip : List UInt8) : OutPacket :=
  (newInit .c2s).extend
    (writeU32 version ++ 4 :: (x.val ++ (n.val ++ (writeU32 level ++ (random2.val ++
      (y.val ++ clientinitiv alpha omega ip))))))

/-- `OutS2CInit1::new`. -/
def outS2CInit1 (random1 : Bytes 16) (random0R : Bytes 4) : OutPacket :=
  (newInit .s2c).extend (1 :: (random1.val ++ random0R.val))

/-- `OutS2CInit3::new`. -/
def outS2CInit3 (x n : Bytes 64) (level : UInt32) (random2 : Bytes 100) :
    OutPacket :=
  (newInit .s2c).extend (3 :: (x.val ++ (n.val ++ (writeU32 level ++ random2.val))))

/-- `OutAck::new`. Only these types are acknowledged. -/
def outAck (dir : Direction) (forType : PacketType) (packetId : UInt16) :
    Except Failure OutPacket :=
  let new (packetType : PacketType) :=
    .ok ((OutPacket.newWithDir dir .empty packetType).extend (writeU16 packetId))
  match forType with
  | .command => new .ack
  | .commandLow => new .ackLow
  | .ping => new .pong
  | _ => .error .panic

end Nek0.Protocol
