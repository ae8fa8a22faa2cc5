import Nek0.Audio.JitterBuffer
import Nek0.Lib.System

/-!
# `Nek0.Audio.FrameTraffic`: the frame buffers of one client, swap by swap

`decode_to_client_buffer` (the writer), the mixing callback (the reader) and the clean-up of
`spawn_maintenance_task` move frame buffers between the slots of the ring and the pool. A step is
one swap of a slot, one push or pop of the pool, or the loads and stores between two of them. A
buffer is known by its number, in the order of allocation, and what it contains is left out.

One writer is in a client's entry at a time (`DashMap::entry` gives an exclusive guard), and one
reader, the output callback. The guard also keeps the reader out while the writer is in. This is not
used: their steps may come in any order. An entry is removed only while nobody holds a guard of it.
The clean-up removes it some time after it was found idle, so any entry may go.
-/

set_option autoImplicit false

namespace Nek0.Audio

open Nek0.Lib (System)
open Nek0.Native (Instant)

/-- A frame buffer, by the order of allocation. -/
abbrev BufferId := Nat

/-- A `ClientJitterBuffer` and the number of frame buffers that were allocated for it. -/
structure FrameRing where
  buffer : ClientJitterBuffer BufferId
  allocated : Nat

namespace FrameRing

/-- `ClientJitterBuffer::new`. -/
def new (volume : Gain) : FrameRing where
  buffer := .new volume
  allocated := 0

/-- `slot.swap(value)`. What was in the slot is dropped, unless the caller has kept it. -/
def swap (r : FrameRing) (i : Fin jitterSlots) (value : Option BufferId) : FrameRing :=
  { r with buffer := { r.buffer with slots := Function.update r.buffer.slots i value } }

/-- `frame_pool.push(frame)`. -/
def push (r : FrameRing) (b : BufferId) : FrameRing :=
  { r with buffer := { r.buffer with framePool := r.buffer.framePool ++ [b] } }

end FrameRing

/-- The local variables of a call of `decode_to_client_buffer`, once the packet is not a stray. -/
structure WriteCall where
  baseSeq : UInt32
  globalSeq : UInt32
  newBaseSlot : UInt64
  now : Instant

/-- What the writer does next. The arguments are the frame buffers in its hands, and where they
go. -/
inductive WriterStep where
  /-- The rebase loop looks at slot `i`, or is over. -/
  | rebase (i : Nat)
  | makeRoom (i : Nat) (frame : BufferId) (dist : Fin jitterSlots)
  | giveBack (i : Nat) (frame : BufferId) (dist : Fin jitterSlots) (old : BufferId)
  | rehome (i : Nat) (frame : BufferId) (dist : Fin jitterSlots)
  | free (i : Nat) (frame : BufferId)
  | evict (idx : Fin jitterSlots)
  | recycle (idx : Fin jitterSlots) (old : BufferId)
  /-- Takes a frame buffer from the pool, or allocates one. -/
  | acquire (idx : Fin jitterSlots)
  | publish (idx : Fin jitterSlots) (frame : BufferId)
  | finish

/-- What the writer holds. -/
def WriterStep.hands : WriterStep → List BufferId
  | .makeRoom _ frame _ => [frame]
  | .giveBack _ frame _ old => [old, frame]
  | .rehome _ frame _ => [frame]
  | .free _ frame => [frame]
  | .recycle _ old => [old]
  | .publish _ frame => [frame]
  | _ => []

/-- The slot that the writer has emptied and is about to fill. -/
def WriterStep.target : WriterStep → Option (Fin jitterSlots)
  | .giveBack _ _ dist _ => some dist
  | .rehome _ _ dist => some dist
  | .recycle idx _ => some idx
  | .acquire idx => some idx
  | .publish idx _ => some idx
  | _ => none

/-- One step of the writer, and what it does next, if anything. -/
def WriterStep.run (c : WriteCall) (r : FrameRing) : WriterStep → FrameRing × Option WriterStep
  | .rebase i =>
    if h : i < jitterSlots then
      match r.buffer.slots ⟨i, h⟩ with
      | none => (r, some (.rebase (i + 1)))
      | some frame =>
        let dist := (c.baseSeq + UInt32.ofNat i - c.globalSeq).toNat
        -- A frame that is still within the ring moves to its new slot.
        if hdist : dist < jitterSlots then
          (r.swap ⟨i, h⟩ none, some (.makeRoom i frame ⟨dist, hdist⟩))
        -- The others go back to the pool.
        else
          (r.swap ⟨i, h⟩ none, some (.free i frame))
    else
      ({ r with buffer := { r.buffer with basePair := packBase c.globalSeq c.newBaseSlot } },
        some (.evict (ringIndex 0)))
  | .makeRoom i frame dist =>
    -- The slot that a frame moves to can hold another one.
    match r.buffer.slots dist with
    | none => (r, some (.rehome i frame dist))
    | some old => (r.swap dist none, some (.giveBack i frame dist old))
  | .giveBack i frame dist old => (r.push old, some (.rehome i frame dist))
  | .rehome i frame dist => (r.swap dist (some frame), some (.rebase (i + 1)))
  | .free i frame => (r.push frame, some (.rebase (i + 1)))
  | .evict idx =>
    match r.buffer.slots idx with
    | none => (r, some (.acquire idx))
    | some old => (r.swap idx none, some (.recycle idx old))
  | .recycle idx old => (r.push old, some (.acquire idx))
  | .acquire idx =>
    -- Without a pooled buffer a new one is made.
    match r.buffer.framePool with
    | [] => ({ r with allocated := r.allocated + 1 }, some (.publish idx r.allocated))
    | frame :: pool =>
      ({ r with buffer := { r.buffer with framePool := pool } }, some (.publish idx frame))
  | .publish idx frame => (r.swap idx (some frame), some .finish)
  | .finish =>
    ({ r with buffer := { r.buffer with writeSeq := c.globalSeq, lastPacket := some c.now } }, none)

/-- The writer comes in with a packet: it sets the baseline, and returns at once for a stray.
`nowSlot` and `currentSlot` are two loads of `PLAYED_SAMPLES`. -/
def FrameRing.beginWrite (r : FrameRing) (seq : UInt16) (nowSlot currentSlot : UInt64)
    (now : Instant) :
    FrameRing × Option (WriteCall × WriterStep) :=
  let buffer := r.buffer.initBase seq nowSlot
  let globalSeq := unwrapSeq seq buffer.baseSeq.toUInt16
  let call : WriteCall :=
    { baseSeq := buffer.baseSeq
      globalSeq := globalSeq
      newBaseSlot := currentSlot + targetDelay
      now := now }
  ({ r with buffer := buffer },
    if buffer.isStray globalSeq then none
    else if buffer.needsRebase currentSlot globalSeq then some (call, .rebase 0)
    else some (call, .evict (ringIndex (globalSeq - buffer.baseSeq).toNat)))

/-- What the reader does next. -/
inductive ReaderStep where
  /-- `base_pair` was loaded. -/
  | compare (slot basePair : UInt64)
  | take (idx : Fin jitterSlots)
  /-- The frame was mixed. -/
  | giveBack (frame : BufferId)

/-- What the reader holds. -/
def ReaderStep.hands : ReaderStep → List BufferId
  | .giveBack frame => [frame]
  | _ => []

/-- One step of the reader, and what it does next, if anything. -/
def ReaderStep.run (r : FrameRing) : ReaderStep → FrameRing × Option ReaderStep
  | .compare slot basePair =>
    -- Before the first packet there is no baseline.
    let baseSeq := (basePair >>> 32).toUInt32
    if baseSeq = 0 then (r, none)
    else
      let expectedSeq := slot - (basePair &&& 0xFFFFFFFF) + baseSeq.toUInt64
      -- The writer has reached the slot that is due.
      if r.buffer.writeSeq.toUInt64 ≥ expectedSeq then
        (r, some (.take (ringIndex (expectedSeq - baseSeq.toUInt64).toNat)))
      else (r, none)
  | .take idx =>
    match r.buffer.slots idx with
    | none => (r, none)
    | some frame => (r.swap idx none, some (.giveBack frame))
  | .giveBack frame => (r.push frame, none)

/-- What the clean-up does next with the buffer that it has removed. -/
inductive CleanerStep where
  /-- The loop looks at slot `i`, or is over. -/
  | drain (i : Nat)
  | keep (i : Nat) (frame : BufferId)

/-- What the clean-up holds. -/
def CleanerStep.hands : CleanerStep → List BufferId
  | .keep _ frame => [frame]
  | .drain _ => []

/-- One step of the clean-up. At the end the buffer is dropped. -/
def CleanerStep.run (r : FrameRing) : CleanerStep → Option (FrameRing × CleanerStep)
  | .drain i =>
    if h : i < jitterSlots then
      match r.buffer.slots ⟨i, h⟩ with
      | none => some (r, .drain (i + 1))
      | some frame => some (r.swap ⟨i, h⟩ none, .keep i frame)
    else none
  | .keep i frame => some (r.push frame, .drain (i + 1))

/-- One client's frame buffers. `live` is the entry of `CLIENT_BUFFERS`, and `removed` what the
clean-up works on. -/
structure FrameTraffic where
  live : Option FrameRing
  writer : Option (WriteCall × WriterStep)
  reader : Option ReaderStep
  removed : Option (FrameRing × CleanerStep)

namespace FrameTraffic

/-- What the writer and the reader hold. -/
def hands (s : FrameTraffic) : List BufferId :=
  (s.writer.elim [] fun w => w.2.hands) ++ s.reader.elim [] ReaderStep.hands

/-- What can happen next. -/
inductive Event where
  | packet (volume : Gain) (seq : UInt16) (nowSlot currentSlot : UInt64) (now : Instant)
  | writerRuns
  | mix (slot : UInt64)
  | readerRuns
  | remove
  | cleanerRuns
  | clear

/-- What an event does. -/
def next : Event → FrameTraffic → Option FrameTraffic
  | .packet volume seq nowSlot currentSlot now, s =>
    -- Packets are decoded one after the other.
    match s.writer with
    | none =>
      let r := (s.live.getD (.new volume)).beginWrite seq nowSlot currentSlot now
      some { s with live := some r.1, writer := r.2 }
    | some _ => none
  | .writerRuns, s =>
    match s.live, s.writer with
    | some ring, some (call, step) =>
      let r := step.run call ring
      some { s with live := some r.1, writer := r.2.map fun step => (call, step) }
    | _, _ => none
  | .mix slot, s =>
    match s.live, s.reader with
    | some ring, none => some { s with reader := some (.compare slot ring.buffer.basePair) }
    | _, _ => none
  | .readerRuns, s =>
    match s.live, s.reader with
    | some ring, some step =>
      let r := step.run ring
      some { s with live := some r.1, reader := r.2 }
    | _, _ => none
  | .remove, s =>
    -- The cleanup takes a buffer out while neither side is using it.
    match s.live, s.writer, s.reader, s.removed with
    | some ring, none, none, none =>
      some { s with live := none, removed := some (ring, .drain 0) }
    | _, _, _, _ => none
  | .cleanerRuns, s =>
    match s.removed with
    | some (ring, step) => some { s with removed := step.run ring }
    | none => none
  | .clear, s =>
    match s.writer, s.reader with
    | none, none => some { s with live := none }
    | _, _ => none

/-- Nobody has talked yet. -/
def initial : FrameTraffic where
  live := none
  writer := none
  reader := none
  removed := none

/-- Packets, mixed slots and clean-ups of one client, in any order of steps. -/
def system : System FrameTraffic Event where
  init := fun s => s = initial
  next := next

end FrameTraffic

end Nek0.Audio
