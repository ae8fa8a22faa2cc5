import Nek0.Audio.JitterBuffer
import Nek0.Lib.System

/-!
# `Nek0.Audio.Reception`: any packets of one client against the mixing callback

A `Reception` is the audio state while one client's packets arrive in any order, late, twice or not
at all. The buffer is cleaned up after 10 s without a packet, and a restart of the output stream
clears everything. A step is one decoded packet or one mixed slot, as in `Nek0.Audio.Playback`.

The frames are `Numbered`: each carries the sequence number it is written for. The code never looks
into a frame, so the numbers do not change what it does.
-/

set_option autoImplicit false

namespace Nek0.Audio

open Nek0.Lib (System)
open Nek0.Native (Instant)

/-- A frame, and the number in the `u32` sequence space that it is written for. -/
structure Numbered (Frame : Type) where
  number : UInt32
  frame : Frame
  deriving DecidableEq, Repr

/-- A frame that the callback took from the client: at which play slot, and under which mapping. -/
structure Take (Frame : Type) where
  slot : Nat
  baseSeq : UInt32
  baseSlot : UInt64
  frame : Numbered Frame
  deriving DecidableEq, Repr

/-- One client's packets in progress. The slots below `nextSlot` are mixed. `accepted` are the
numbers of the packets written since the buffer was made. -/
structure Reception (Frame : Type) where
  audio : AudioState (Numbered Frame)
  nextSlot : Nat
  accepted : List UInt32
  taken : List (Take Frame)

namespace Reception

variable {Frame : Type}

/-- The buffer that a packet of the client goes to. -/
def entry (client : UInt16) (audio : AudioState (Numbered Frame)) :
    ClientJitterBuffer (Numbered Frame) :=
  (audio.clientBuffers client).getD (.new (audio.inheritedGain client))

/-- The number of a packet under the mapping in force, which the first packet sets. -/
def number (client seq : UInt16) (currentSlot : UInt64) (audio : AudioState (Numbered Frame)) :
    UInt32 :=
  unwrapSeq seq ((entry client audio).initBase seq currentSlot).baseSeq.toUInt16

/-- A packet of client `from_` is decoded while `PLAYED_SAMPLES` is `played`. -/
def decode (from_ seq : UInt16) (played : UInt64) (now : Instant) (decoded : Option Frame)
    (audio : AudioState (Numbered Frame)) : AudioState (Numbered Frame) :=
  { audio with playedSamples := played }.decodeToClientBuffer now from_ seq
    (decoded.map fun frame => ⟨number from_ seq (played / frameSize) audio, frame⟩)

/-- Is the packet written? -/
def isAccepted (client seq : UInt16) (currentSlot : UInt64) (decoded : Option Frame)
    (audio : AudioState (Numbered Frame)) : Bool :=
  decoded.isSome && !((entry client audio).initBase seq currentSlot).isStray
    (number client seq currentSlot audio)

/-- What can happen next. -/
inductive Event (Frame : Type) where
  | packet (seq : UInt16) (played : UInt64) (now : Instant) (decoded : Option Frame)
  | otherPacket (from_ seq : UInt16) (played : UInt64) (now : Instant) (decoded : Option Frame)
  | mix (ids : List UInt16)
  | cleanUp (now : Instant)
  | restart

/-- What an event does. A packet is decoded no earlier than the slot that is being played, and the
snapshot lists each client once. -/
def next (client : UInt16) : Event Frame → Reception Frame → Option (Reception Frame)
  | .packet seq played now decoded, p =>
      if (played / frameSize).toNat ≤ p.nextSlot then
        some
          { p with
              audio := decode client seq played now decoded p.audio
              accepted :=
                if isAccepted client seq (played / frameSize) decoded p.audio then
                  p.accepted ++ [number client seq (played / frameSize) p.audio]
                else p.accepted }
      else none
  | .otherPacket from_ seq played now decoded, p =>
      -- A packet of another client goes through the same code.
      if from_ = client then none
      else some { p with audio := decode from_ seq played now decoded p.audio }
  | .mix ids, p =>
      -- The counter of the played samples has not wrapped.
      if ids.Nodup ∧ p.nextSlot * frameSize.toNat < 2 ^ 64 then
        let r := { p.audio with activeClientIds := ids }.mixSlot (UInt64.ofNat p.nextSlot)
        let mapping := entry client p.audio
        some
          { p with
              audio := r.1
              nextSlot := p.nextSlot + 1
              taken := p.taken ++ (r.2.filter fun x => x.1 == client).map fun x =>
                ⟨p.nextSlot, mapping.baseSeq, mapping.baseSlot, x.2⟩ }
      else none
  | .cleanUp now, p =>
      let audio := p.audio.cleanUp now
      some
        { p with
            audio := audio
            accepted := if (audio.clientBuffers client).isNone then [] else p.accepted }
  | .restart, p => some { p with audio := p.audio.restart, nextSlot := 0, accepted := [] }

/-- No buffer is there, and nothing was played yet. -/
structure Silent (client : UInt16) (p : Reception Frame) : Prop where
  noBuffer : p.audio.clientBuffers client = none
  accepted_eq : p.accepted = []
  taken_eq : p.taken = []

/-- The reception of one client's packets. -/
def system (client : UInt16) : System (Reception Frame) (Event Frame) where
  init := Silent client
  next := next client

end Reception

end Nek0.Audio
