import Nek0.Protocol.Packets

/-!
# `Nek0.Protocol.Voice`: the contents of voice packets

`OutAudio::new` writes what is in an `AudioData`, and `AudioData::parse` reads it. The numbers of
channels and clients of a whisper are written as bytes. The new form of a whisper is told from the
old one by the flag `NEWPROTOCOL`, and only in packets of a client.
-/

set_option autoImplicit false

namespace Nek0.Protocol

/-- The forms of a voice packet, by who sends it and whether it is whispered. -/
inductive AudioData where
  | c2s (id : UInt16) (codec : CodecType) (data : List UInt8)
  | c2sWhisper (id : UInt16) (codec : CodecType) (channels : List UInt64) (clients : List UInt16)
      (data : List UInt8)
  /-- When the `Flags::NEWPROTOCOL` is set. -/
  | c2sWhisperNew (id : UInt16) (codec : CodecType) (whisperType target : UInt8)
      (targetId : UInt64) (data : List UInt8)
  | s2c (id fromId : UInt16) (codec : CodecType) (data : List UInt8)
  | s2cWhisper (id fromId : UInt16) (codec : CodecType) (data : List UInt8)
  deriving DecidableEq, Repr

namespace AudioData

/-- The codec at `i`. The error shows the byte at `shown`. -/
def readCodec (content : List UInt8) (i shown : Nat) : Except Failure CodecType := do
  let c ← index content i
  match CodecType.fromU8 c with
  | some codec => .ok codec
  | none => do
    let c ← index content shown
    .error (.error (.invalidCodec c))

/-- `AudioData::parse`. -/
def parse (packetType : PacketType) (newprotocol : Bool) (dir : Direction) (content : List UInt8) :
    Except Failure AudioData := do
  let id ← readU16 content
  if packetType = .voice then
    if dir = .s2c then
      if content.length < 5 then tooShort content
      else do
        let fromId ← readU16 (← sliceFrom content 2)
        let codec ← readCodec content 4 4
        return .s2c id fromId codec (← sliceFrom content 5)
    else if content.length < 3 then tooShort content
    else do
      let codec ← readCodec content 2 4
      return .c2s id codec (← sliceFrom content 3)
  else if dir = .s2c then
    if content.length < 5 then tooShort content
    else do
      let fromId ← readU16 (← sliceFrom content 2)
      let codec ← readCodec content 4 4
      return .s2cWhisper id fromId codec (← sliceFrom content 5)
  else if content.length < 3 then tooShort content
  else do
    let codec ← readCodec content 2 4
    -- A whisper to a group.
    if newprotocol then
      if content.length < 14 then tooShort content
      else do
        let whisperType ← index content 3
        let target ← index content 4
        let targetId ← readU64 (← sliceFrom content 5)
        return .c2sWhisperNew id codec whisperType target targetId (← sliceFrom content 13)
    -- A whisper to lists of channels and clients. Their numbers say how long it is.
    else if content.length < 5 then tooShort content
    else do
      let channelCount := (← index content 3).toNat
      let clientCount := (← index content 4).toNat
      let channelOff := 5
      let clientOff := channelOff + channelCount * 8
      let off := clientOff + clientCount * 2
      if content.length < off then tooShort content
      else do
        let channels ← (List.range channelCount).mapM fun i => do
          readU64 (← sliceFrom content (channelOff + i * 8))
        let clients ← (List.range clientCount).mapM fun i => do
          readU16 (← sliceFrom content (clientOff + i * 2))
        return .c2sWhisper id codec channels clients (← sliceFrom content off)

def direction : AudioData → Direction
  | c2s .. => .c2s
  | c2sWhisper .. => .c2s
  | c2sWhisperNew .. => .c2s
  | s2c .. => .s2c
  | s2cWhisper .. => .s2c

def packetType : AudioData → PacketType
  | c2s .. => .voice
  | c2sWhisper .. => .voiceWhisper
  | c2sWhisperNew .. => .voiceWhisper
  | s2c .. => .voice
  | s2cWhisper .. => .voiceWhisper

def flags : AudioData → Flags
  | c2s .. => .empty
  | c2sWhisper .. => .empty
  | c2sWhisperNew .. => { Flags.empty with newprotocol := true }
  | s2c .. => .empty
  | s2cWhisper .. => .empty

/-- What `OutAudio::new` writes behind the header. -/
def bytes : AudioData → List UInt8
  | c2s id codec data => writeU16 id ++ codec.toU8 :: data
  | c2sWhisper id codec channels clients data =>
    writeU16 id ++ codec.toU8 :: UInt8.ofNat channels.length :: UInt8.ofNat clients.length ::
      (channels.flatMap writeU64 ++ (clients.flatMap writeU16 ++ data))
  | c2sWhisperNew id codec whisperType target targetId data =>
    writeU16 id ++ codec.toU8 :: whisperType :: target :: (writeU64 targetId ++ data)
  | s2c id fromId codec data => writeU16 id ++ (writeU16 fromId ++ codec.toU8 :: data)
  | s2cWhisper id fromId codec data => writeU16 id ++ (writeU16 fromId ++ codec.toU8 :: data)

end AudioData

/-- `OutAudio::new`. -/
def outAudio (data : AudioData) : OutPacket :=
  (OutPacket.newWithDir data.direction data.flags data.packetType).extend data.bytes

/-- `InPacket::into_audio`. -/
def InPacket.intoAudio (p : InPacket) : Except Failure AudioData :=
  AudioData.parse p.packetType p.fields.flags.newprotocol p.direction p.content

end Nek0.Protocol
