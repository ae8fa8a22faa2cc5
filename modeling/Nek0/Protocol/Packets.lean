import Nek0.Lib.BigEndian
import Mathlib.Data.Vector.Basic

/-!
# `Nek0.Protocol.Packets`: packets as bytes

The packets of `tsproto-packets`. An `OutPacket` is a text of bytes whose header is set field by
field, and an `InPacket` reads the fields back. The contents are those of acknowledgements, of the
connection's start (`Init`) and of voice. Commands are in `Nek0.Protocol.Commands`.

A `Failure` is an error that the code returns, or a panic: an index or a slice out of range, or an
`unwrap` of nothing.
-/

set_option autoImplicit false

namespace Nek0.Protocol

open Nek0.Lib.BigEndian (fromBe toBe readBe)

/-- Client to server and back. The headers differ by the client id. -/
inductive Direction where
  /-- Going from the server to the client. -/
  | s2c
  /-- Going from the client to the server. -/
  | c2s
  deriving DecidableEq, Repr

namespace Direction

def reverse : Direction → Direction
  | s2c => c2s
  | c2s => s2c

/-- `S2C_HEADER_LEN` and `C2S_HEADER_LEN`. -/
def headerLen : Direction → Nat
  | s2c => 11
  | c2s => 13

/-- `get_off`: where the packet type is. -/
def off : Direction → Nat
  | s2c => 10
  | c2s => 12

end Direction

/-- The packet types, with the numbers of the protocol. -/
inductive PacketType where
  | voice
  | voiceWhisper
  | command
  | commandLow
  | ping
  | pong
  | ack
  | ackLow
  | init
  deriving DecidableEq, Repr

namespace PacketType

def toU8 : PacketType → UInt8
  | voice => 0
  | voiceWhisper => 1
  | command => 2
  | commandLow => 3
  | ping => 4
  | pong => 5
  | ack => 6
  | ackLow => 7
  | init => 8

def fromU8 (b : UInt8) : Option PacketType :=
  match b.toNat with
  | 0 => some voice
  | 1 => some voiceWhisper
  | 2 => some command
  | 3 => some commandLow
  | 4 => some ping
  | 5 => some pong
  | 6 => some ack
  | 7 => some ackLow
  | 8 => some init
  | _ => none

def isAck (t : PacketType) : Bool := t = ack ∨ t = ackLow ∨ t = pong

end PacketType

/-- `Flags`, the upper half of a byte. -/
structure Flags where
  unencrypted : Bool
  compressed : Bool
  newprotocol : Bool
  fragmented : Bool
  deriving DecidableEq, Repr

namespace Flags

def empty : Flags := ⟨false, false, false, false⟩

def bits (f : Flags) : UInt8 :=
  (if f.unencrypted then 0x80 else 0) ||| (if f.compressed then 0x40 else 0) |||
    (if f.newprotocol then 0x20 else 0) ||| (if f.fragmented then 0x10 else 0)

/-- `from_bits`, of the upper half of a byte. -/
def fromBits (b : UInt8) : Flags where
  unencrypted := b &&& 0x80 != 0
  compressed := b &&& 0x40 != 0
  newprotocol := b &&& 0x20 != 0
  fragmented := b &&& 0x10 != 0

end Flags

/-- The codecs, with the numbers of the protocol. -/
inductive CodecType where
  | speexNarrowband
  | speexWideband
  | speexUltrawideband
  | celtMono
  | opusVoice
  | opusMusic
  deriving DecidableEq, Repr

namespace CodecType

def toU8 : CodecType → UInt8
  | speexNarrowband => 0
  | speexWideband => 1
  | speexUltrawideband => 2
  | celtMono => 3
  | opusVoice => 4
  | opusMusic => 5

def fromU8 (b : UInt8) : Option CodecType :=
  match b.toNat with
  | 0 => some speexNarrowband
  | 1 => some speexWideband
  | 2 => some speexUltrawideband
  | 3 => some celtMono
  | 4 => some opusVoice
  | 5 => some opusMusic
  | _ => none

end CodecType

/-! ### Failures -/

/-- `tsproto_packets::Error`. -/
inductive PacketError where
  /-- `read_be` on too few bytes. -/
  | io
  | invalidInitStep (step : UInt8)
  | invalidCodec (codec : UInt8)
  | packetContentTooShort (len : Nat)
  | packetTooShort (len : Nat)
  | unknownPacketType (packetType : UInt8)
  | wrongDirection
  | wrongInitMac (mac : List UInt8)
  | wrongPacketType (packetType : PacketType)
  deriving DecidableEq, Repr

inductive Failure where
  | error (e : PacketError)
  | panic
  deriving DecidableEq, Repr

/-- `[u8; n]`. -/
abbrev Bytes (n : Nat) := List.Vector UInt8 n

/-- The bytes of a text of ASCII characters. -/
def ascii (text : String) : List UInt8 := text.toList.map fun c => .ofNat c.toNat

/-- `bytes[i]`. -/
def index (bytes : List UInt8) (i : Nat) : Except Failure UInt8 :=
  match bytes[i]? with
  | some b => .ok b
  | none => .error .panic

/-- `&bytes[i..]`. -/
def sliceFrom (bytes : List UInt8) (i : Nat) : Except Failure (List UInt8) :=
  if i ≤ bytes.length then .ok (bytes.drop i) else .error .panic

/-- `bytes[i..i + n].try_into().unwrap()`. -/
def slice (bytes : List UInt8) (i n : Nat) : Except Failure (Bytes n) :=
  if h : i + n ≤ bytes.length then
    .ok ⟨(bytes.drop i).take n, by rw [List.length_take, List.length_drop]; omega⟩
  else .error .panic

/-- `bytes.read_be()` of an integer of `n` bytes. -/
def readUInt {α : Type} (n : Nat) (ofNat : Nat → α) (bytes : List UInt8) : Except Failure α :=
  match readBe n bytes with
  | some v => .ok (ofNat v)
  | none => .error (.error .io)

def readU16 : List UInt8 → Except Failure UInt16 := readUInt 2 UInt16.ofNat

def readU32 : List UInt8 → Except Failure UInt32 := readUInt 4 UInt32.ofNat

def readU64 : List UInt8 → Except Failure UInt64 := readUInt 8 UInt64.ofNat

def writeU16 (v : UInt16) : List UInt8 := toBe 2 v.toNat

def writeU32 (v : UInt32) : List UInt8 := toBe 4 v.toNat

def writeU64 (v : UInt64) : List UInt8 := toBe 8 v.toNat

/-- `Error::PacketContentTooShort` of this content. -/
def tooShort {α : Type} (content : List UInt8) : Except Failure α :=
  .error (.error (.packetContentTooShort content.length))

/-- Writes bytes over the ones from `i` on. -/
def overwrite (data : List UInt8) (i : Nat) (bytes : List UInt8) : List UInt8 :=
  data.take i ++ bytes ++ data.drop (i + bytes.length)

/-! ### Headers -/

/-- The fields of a header. A client id is only in what a client sends. -/
structure Fields where
  mac : List UInt8
  packetId : UInt16
  clientId : Option UInt16
  flags : Flags
  packetType : Option PacketType
  deriving DecidableEq, Repr

/-- `InHeader::mac`, `packet_id`, `client_id`, `flags` and `packet_type` of a header. -/
def headerFields (dir : Direction) (data : List UInt8) : Fields where
  mac := data.take 8
  packetId := .ofNat (fromBe [data.getD 8 0, data.getD 9 0])
  clientId :=
    match dir with
    | .s2c => none
    | .c2s => some (.ofNat (fromBe [data.getD 10 0, data.getD 11 0]))
  flags := .fromBits (data.getD dir.off 0)
  packetType := PacketType.fromU8 (data.getD dir.off 0 &&& 0xf)

/-- A received packet: its header is complete, and its type is a known one. -/
structure InPacket where
  direction : Direction
  header : List UInt8
  content : List UInt8
  complete : header.length = direction.headerLen
  packetType : PacketType
  typed : (headerFields direction header).packetType = some packetType

namespace InPacket

def fields (p : InPacket) : Fields := headerFields p.direction p.header

/-- `InPacket::try_new`. -/
def tryNew (dir : Direction) (data : List UInt8) : Except Failure InPacket :=
  if h : data.length < dir.headerLen then .error (.error (.packetTooShort data.length))
  else
    let header := data.take dir.headerLen
    match ht : (headerFields dir header).packetType with
    -- The low four bits of the flags name no type.
    | none => .error (.error (.unknownPacketType (header.getD dir.off 0 &&& 0xf)))
    | some packetType =>
      .ok
        { direction := dir
          header := header
          content := data.drop dir.headerLen
          complete := by
            rw [List.length_take]
            exact Nat.min_eq_left (Nat.not_lt.mp h)
          packetType := packetType
          typed := ht }

end InPacket

/-- A packet to send. Its header is there, also when it is not filled yet. -/
structure OutPacket where
  dir : Direction
  data : List UInt8
  complete : dir.headerLen ≤ data.length

namespace OutPacket

def header (p : OutPacket) : List UInt8 := p.data.take p.dir.headerLen

def content (p : OutPacket) : List UInt8 := p.data.drop p.dir.headerLen

def fields (p : OutPacket) : Fields := headerFields p.dir p.data

theorem length_overwrite {data bytes : List UInt8} {i : Nat} (h : i + bytes.length ≤ data.length) :
    (overwrite data i bytes).length = data.length := by
  simp only [overwrite, List.length_append, List.length_take, List.length_drop]
  omega

/-- Writes over the header. -/
def write (p : OutPacket) (i : Nat) (bytes : List UInt8) (h : i + bytes.length ≤ p.dir.headerLen) :
    OutPacket where
  dir := p.dir
  data := overwrite p.data i bytes
  complete := by
    rw [length_overwrite (h.trans p.complete)]
    exact p.complete

/-- `mac`, which gives the bytes to write to. -/
def setMac (p : OutPacket) (mac : Bytes 8) : OutPacket :=
  p.write 0 mac.val (by rw [mac.2]; cases p.dir <;> decide)

def packetId (p : OutPacket) (packetId : UInt16) : OutPacket :=
  p.write 8 (writeU16 packetId) (by cases p.dir <;> simp [writeU16, Direction.headerLen])

/-- `client_id`, of a packet of a client. -/
def clientId (p : OutPacket) (clientId : UInt16) (h : p.dir = .c2s) : OutPacket :=
  p.write 10 (writeU16 clientId) (by rw [h]; simp [writeU16, Direction.headerLen])

def flags (p : OutPacket) (flags : Flags) : OutPacket :=
  p.write p.dir.off [p.data.getD p.dir.off 0 &&& 0xf ||| flags.bits]
    (by cases p.dir <;> exact Nat.le_refl _)

def packetType (p : OutPacket) (packetType : PacketType) : OutPacket :=
  p.write p.dir.off [p.data.getD p.dir.off 0 &&& 0xf0 ||| packetType.toU8]
    (by cases p.dir <;> exact Nat.le_refl _)

/-- Appends to the content. -/
def extend (p : OutPacket) (bytes : List UInt8) : OutPacket where
  dir := p.dir
  data := p.data ++ bytes
  complete := by
    rw [List.length_append]
    exact p.complete.trans (Nat.le_add_right _ _)

/-- `OutUdpPacket::packet_id`: an `Init` packet goes by its step. -/
def udpPacketId (p : OutPacket) : UInt16 :=
  if p.fields.packetType = some .init then
    match p.dir with
    | .s2c => (p.content.getD 0 0).toUInt16
    | .c2s => (p.content.getD 4 0).toUInt16
  else p.fields.packetId

/-- `new_with_dir`: a header of zeros with flags and a type. -/
def newWithDir (dir : Direction) (flags : Flags) (packetType : PacketType) : OutPacket :=
  let p : OutPacket :=
    { dir := dir
      data := List.replicate dir.headerLen 0
      complete := by rw [List.length_replicate] }
  (p.flags flags).packetType packetType

/-- Setters keep the direction. -/
theorem dir_filled (mac : Bytes 8) (id : UInt16) (flags : Flags) (packetType : PacketType) :
    (((newWithDir .c2s flags packetType).setMac mac).packetId id).dir = .c2s := rfl

/-- `OutPacket::new`. A packet with a client id goes to the server. -/
def new (mac : Bytes 8) (packetId : UInt16) (clientId : Option UInt16) (flags : Flags)
    (packetType : PacketType) : OutPacket :=
  match clientId with
  | none => ((newWithDir .s2c flags packetType).setMac mac).packetId packetId
  | some cid =>
    (((newWithDir .c2s flags packetType).setMac mac).packetId packetId).clientId cid
      (dir_filled mac packetId flags packetType)

end OutPacket

end Nek0.Protocol
