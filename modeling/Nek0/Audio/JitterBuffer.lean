import Mathlib
import Nek0.Native.Roster

/-!
# `Nek0.Audio.JitterBuffer`: the per-client jitter buffer

The receive side of `native/src/api.rs`. `decodeToClientBuffer` is the writer: it maps a
packet's `u16` sequence number into the `u32` sequence space (`unwrapSeq`), discards strays,
realigns the mapping when the reader has overtaken the writer, and writes the decoded frame
into a ring of `jitterSlots` slots. `takeFrame` is the reader: phase A of the mixing callback
for one client. `mixSlot` runs it over the `ACTIVE_CLIENT_IDS` snapshot.

Integers have the widths of the source, with the source's wrapping operators. A frame is opaque
(`Frame`): the ring moves frames and never looks into them. The Opus decoder is outside this
repository, so a packet comes with the frame it decodes to, or with `none` for a decode error.
`usize` is 64 bits wide on both Android targets.

Left out: the decoder tables, `talking_clients` and the arithmetic of the mix itself.
-/

set_option autoImplicit false

namespace Nek0.Audio

open Nek0.Native (Instant TsClient)

/-- `JITTER_SLOTS`: ring slots of one client's buffer. -/
def jitterSlots : Nat := 64

/-- `FRAME_SIZE`: samples in one play slot. -/
def frameSize : UInt64 := 960

/-- `TARGET_DELAY`: play slots between the first packet and its playback. -/
def targetDelay : UInt64 := 6

/-- `REBASE_LEAD`: frames the reader must be ahead before the writer realigns. -/
def rebaseLead : UInt64 := 4

/-- A linear gain. `ofDecibel v` is `10 ^ (v / 20)`, kept as an exact function of `v`. -/
inductive Gain where
  | unity
  | ofDecibel (v : ℚ)
  deriving DecidableEq, Repr

/-- `ClientJitterBuffer`. `basePair` packs `base_seq << 32 | base_slot`. -/
structure ClientJitterBuffer (Frame : Type) where
  slots : Fin jitterSlots → Option Frame
  writeSeq : UInt32
  basePair : UInt64
  lastPacket : Option Instant
  framePool : List Frame
  volume : Gain

/-- What the audio path shares: `CLIENT_BUFFERS`, `PLAYED_SAMPLES`, `ACTIVE_CLIENT_IDS`, and
the two fields of `STATE` a new buffer's volume comes from. -/
structure AudioState (Frame : Type) where
  clientBuffers : UInt16 → Option (ClientJitterBuffer Frame)
  playedSamples : UInt64
  activeClientIds : List UInt16
  clients : List TsClient
  clientVolumes : String → Option ℚ

/-- `unwrap_seq`. -/
def unwrapSeq (seq base : UInt16) : UInt32 :=
  let baseU32 := base.toUInt32
  let delta := (seq - base).toInt16.toInt32
  if delta ≥ 0 then baseU32 + delta.toUInt32
  else if delta > -32768 then
    -- Forward wrap: the forward distance is 65536 + delta.
    baseU32 + (65536 + delta.toUInt32)
  else
    -- delta is -32768, meant to fail the caller's sanity check.
    baseU32 + delta.toUInt32

/-- `(base_seq as u64) << 32 | base_slot`. -/
def packBase (baseSeq : UInt32) (baseSlot : UInt64) : UInt64 :=
  (baseSeq.toUInt64 <<< 32) ||| baseSlot

/-- The ring index of a distance from `base_seq`. -/
def ringIndex (dist : Nat) : Fin jitterSlots :=
  ⟨dist % jitterSlots, Nat.mod_lt _ (by decide)⟩

namespace ClientJitterBuffer

variable {Frame : Type}

/-- `ClientJitterBuffer::new`, with the gain a new buffer inherits. -/
def new (volume : Gain) : ClientJitterBuffer Frame where
  slots := fun _ => none
  writeSeq := 0
  basePair := 0
  lastPacket := none
  framePool := []
  volume := volume

/-- The high half of `base_pair`. -/
def baseSeq (buf : ClientJitterBuffer Frame) : UInt32 := (buf.basePair >>> 32).toUInt32

/-- The low half of `base_pair`. -/
def baseSlot (buf : ClientJitterBuffer Frame) : UInt64 := buf.basePair &&& 0xFFFFFFFF

/-- The baseline: the first packet plays `TARGET_DELAY` slots from now. -/
def initBase (buf : ClientJitterBuffer Frame) (seq : UInt16) (nowSlot : UInt64) :
    ClientJitterBuffer Frame :=
  if buf.basePair = 0 then
    { buf with basePair := packBase (unwrapSeq seq 0) (nowSlot + targetDelay) }
  else buf

/-- The sanity check: more than 1000 frames from the last accepted one. -/
def isStray (buf : ClientJitterBuffer Frame) (globalSeq : UInt32) : Bool :=
  buf.writeSeq != 0 &&
    decide (min (globalSeq - buf.writeSeq) (buf.writeSeq - globalSeq) > 1000)

/-- `behind`: how far the reader is past the packet. It wraps when the writer is ahead. -/
def behind (buf : ClientJitterBuffer Frame) (currentSlot : UInt64) (globalSeq : UInt32) :
    UInt64 :=
  currentSlot - buf.baseSlot + buf.baseSeq.toUInt64 - globalSeq.toUInt64

/-- The realign condition. -/
def needsRebase (buf : ClientJitterBuffer Frame) (currentSlot : UInt64) (globalSeq : UInt32) :
    Bool :=
  buf.writeSeq != 0 && decide (globalSeq > buf.writeSeq) &&
    decide (buf.behind currentSlot globalSeq ≥ rebaseLead) &&
    decide (buf.behind currentSlot globalSeq < 4096)

/-- One round of the rebase loop: slot `i` is emptied, and its frame goes to its slot under the
new base or to the pool. The frame's number is taken to be `old_base + i`. -/
def rehomeSlot (oldBase newBase : UInt32)
    (st : (Fin jitterSlots → Option Frame) × List Frame) (i : Fin jitterSlots) :
    (Fin jitterSlots → Option Frame) × List Frame :=
  match st.1 i with
  | none => st
  | some frame =>
    let slots := Function.update st.1 i none
    let dist := (oldBase + UInt32.ofNat i.val - newBase).toNat
    if h : dist < jitterSlots then
      (Function.update slots ⟨dist, h⟩ (some frame), st.2 ++ (slots ⟨dist, h⟩).toList)
    else (slots, st.2 ++ [frame])

/-- The non-destructive rebase onto `newBase`, played `TARGET_DELAY` slots from now. -/
def rebase (buf : ClientJitterBuffer Frame) (currentSlot : UInt64) (newBase : UInt32) :
    ClientJitterBuffer Frame :=
  let st := (List.finRange jitterSlots).foldl (rehomeSlot buf.baseSeq newBase)
    (buf.slots, buf.framePool)
  { buf with
      slots := st.1
      framePool := st.2
      basePair := packBase newBase (currentSlot + targetDelay) }

/-- The write under a base: evict the slot's old frame into the pool, take a buffer from the pool
(or allocate one), fill it and publish it. -/
def writeFrame (buf : ClientJitterBuffer Frame) (now : Instant) (baseSeq globalSeq : UInt32)
    (frame : Frame) : ClientJitterBuffer Frame :=
  let idx := ringIndex (globalSeq - baseSeq).toNat
  { buf with
      slots := Function.update buf.slots idx (some frame)
      framePool := (buf.framePool ++ (buf.slots idx).toList).tail
      writeSeq := globalSeq
      lastPacket := some now }

/-- What `decode_to_client_buffer` does to the buffer once the packet is decoded. -/
def accept (buf : ClientJitterBuffer Frame) (currentSlot : UInt64) (now : Instant)
    (seq : UInt16) (frame : Frame) : ClientJitterBuffer Frame :=
  let buf := buf.initBase seq currentSlot
  let globalSeq := unwrapSeq seq buf.baseSeq.toUInt16
  if buf.isStray globalSeq then buf
  else if buf.needsRebase currentSlot globalSeq then
    -- The new base is kept beside the pair, and not read from it again.
    let newBaseSeq := globalSeq
    (buf.rebase currentSlot newBaseSeq).writeFrame now newBaseSeq globalSeq frame
  else buf.writeFrame now buf.baseSeq globalSeq frame

/-- Phase A of the mixing callback for one client at play slot `slot`: the frame it takes, if
any. A taken frame's buffer goes back to the pool. -/
def takeFrame (buf : ClientJitterBuffer Frame) (slot : UInt64) :
    ClientJitterBuffer Frame × Option Frame :=
  -- Before the first packet there is no baseline.
  if buf.baseSeq = 0 then (buf, none)
  else
    let expectedSeq := slot - buf.baseSlot + buf.baseSeq.toUInt64
    if buf.writeSeq.toUInt64 ≥ expectedSeq then
      let idx := ringIndex (expectedSeq - buf.baseSeq.toUInt64).toNat
      -- The packet of the slot is missing.
      match buf.slots idx with
      | none => (buf, none)
      | some frame =>
        ({ buf with
            slots := Function.update buf.slots idx none
            framePool := buf.framePool ++ [frame] }, some frame)
    else (buf, none)

/-- No packet for more than 10 s. -/
def isIdle (buf : ClientJitterBuffer Frame) (now : Instant) : Bool :=
  match buf.lastPacket with
  | none => false
  | some last => decide (10000 < now - last)

end ClientJitterBuffer

namespace AudioState

variable {Frame : Type}

/-- The gain a new buffer inherits: the persisted volume of the client's UID, else unity. -/
def inheritedGain (s : AudioState Frame) (fromId : UInt16) : Gain :=
  match (s.clients.find? fun c => c.id.toUInt16 == fromId).bind (·.uid) with
  | none => .unity
  | some uid =>
    match s.clientVolumes uid with
    | none => .unity
    | some db => .ofDecibel db

/-- `decode_to_client_buffer`. -/
def decodeToClientBuffer (s : AudioState Frame) (now : Instant) (fromId seq : UInt16)
    (decoded : Option Frame) : AudioState Frame :=
  match decoded with
  | none => s
  | some frame =>
    let buf := (s.clientBuffers fromId).getD (.new (s.inheritedGain fromId))
    let buf := buf.accept (s.playedSamples / frameSize) now seq frame
    { s with clientBuffers := Function.update s.clientBuffers fromId (some buf) }

/-- The clean-up of `spawn_maintenance_task`: the idle buffers are removed. -/
def cleanUp (s : AudioState Frame) (now : Instant) : AudioState Frame :=
  { s with clientBuffers := fun id => (s.clientBuffers id).filter fun buf => !buf.isIdle now }

/-- What `restart_output_stream` clears. -/
def restart (s : AudioState Frame) : AudioState Frame :=
  { s with clientBuffers := fun _ => none, playedSamples := 0, activeClientIds := [] }

/-- One client's turn in phase A: the frame it adds to the mix. -/
def mixClient (slot : UInt64)
    (st : AudioState Frame × List (UInt16 × Frame)) (clientId : UInt16) :
    AudioState Frame × List (UInt16 × Frame) :=
  match st.1.clientBuffers clientId with
  | none => st
  | some buf =>
    let r := buf.takeFrame slot
    ({ st.1 with clientBuffers := Function.update st.1.clientBuffers clientId (some r.1) },
      st.2 ++ (r.2.map fun frame => (clientId, frame)).toList)

/-- Phase A of the mixing callback at play slot `slot`: one frame from each active client. -/
def mixSlot (s : AudioState Frame) (slot : UInt64) :
    AudioState Frame × List (UInt16 × Frame) :=
  s.activeClientIds.foldl (mixClient slot) (s, [])

end AudioState

end Nek0.Audio
