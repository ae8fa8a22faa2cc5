import Nek0.Audio.JitterBuffer
import Nek0.Lib.System

/-!
# `Nek0.Audio.Playback`: one talking client against the mixing callback

A `Playback` is the audio state together with a stream of one client's packets. The packets carry
consecutive sequence numbers from `s0` on, modulo 65536, and packet `k` decodes to `frames k`.
`packet` decodes the next one, at a given value of `PLAYED_SAMPLES`. `mix` runs phase A of the
callback for the next play slot, with a given `ACTIVE_CLIENT_IDS` snapshot, and records the frames
taken from the client with the slot they play in. `system` runs the two in any order, together
with packets of other clients.

A packet and a mixed slot do not overlap in time here: each of the two is one step.
-/

set_option autoImplicit false

namespace Nek0.Audio

open Nek0.Lib (System)
open Nek0.Native (Instant)

/-- One client's stream in progress: packets `0 .. sent - 1` are decoded, and the slots below
`nextSlot` are mixed. -/
structure Playback (Frame : Type) where
  audio : AudioState Frame
  sent : Nat
  nextSlot : Nat
  taken : List (Nat × Frame)

/-- The stream's parameters: the client, its first sequence number and its decoded frames. -/
structure Stream (Frame : Type) where
  client : UInt16
  firstSeq : UInt16
  frames : Nat → Frame

namespace Playback

variable {Frame : Type}

/-- The next packet of the stream is decoded while `PLAYED_SAMPLES` is `played`. -/
def packet (st : Stream Frame) (played : UInt64) (now : Instant) (p : Playback Frame) :
    Playback Frame :=
  { p with
      audio := { p.audio with playedSamples := played }.decodeToClientBuffer now st.client
        (st.firstSeq + UInt16.ofNat p.sent) (some (st.frames p.sent))
      sent := p.sent + 1 }

/-- A packet of another client is decoded. -/
def otherPacket (client seq : UInt16) (played : UInt64) (now : Instant)
    (decoded : Option Frame) (p : Playback Frame) : Playback Frame :=
  { p with
      audio := { p.audio with playedSamples := played }.decodeToClientBuffer now client seq
        decoded }

/-- The callback mixes the next play slot over the snapshot `ids`. -/
def mix (st : Stream Frame) (ids : List UInt16) (p : Playback Frame) : Playback Frame :=
  let r := { p.audio with activeClientIds := ids }.mixSlot (UInt64.ofNat p.nextSlot)
  { p with
      audio := r.1
      nextSlot := p.nextSlot + 1
      taken := p.taken ++
        (r.2.filter fun x => x.1 == st.client).map fun x => (p.nextSlot, x.2) }

/-- The talking client's jitter buffer. -/
def buffer (st : Stream Frame) (p : Playback Frame) : Option (ClientJitterBuffer Frame) :=
  p.audio.clientBuffers st.client

/-- What can happen next. -/
inductive Event (Frame : Type) where
  | packet (played : UInt64) (now : Instant)
  | otherPacket (client seq : UInt16) (played : UInt64) (now : Instant) (decoded : Option Frame)
  | mix (ids : List UInt16)

/-- What an event does. -/
def next (st : Stream Frame) : Event Frame → Playback Frame → Playback Frame
  | .packet played now, p => p.packet st played now
  | .otherPacket client seq played now decoded, p => p.otherPacket client seq played now decoded
  | .mix ids, p => p.mix st ids

/-- The client starts to talk at play slot `nowSlot`. It has no buffer yet. -/
structure Starts (st : Stream Frame) (nowSlot : Nat) (p : Playback Frame) : Prop where
  noBuffer : p.buffer st = none
  sent_eq : p.sent = 0
  nextSlot_eq : p.nextSlot = nowSlot
  taken_eq : p.taken = []

/-- The playback of one stream, from the slot the client starts to talk in. -/
def system (st : Stream Frame) (nowSlot : Nat) : System (Playback Frame) (Event Frame) where
  init := Starts st nowSlot
  next := fun e p => some (p.next st e)

/-- The step condition of an in-order stream of `n` packets. Packet `k` is decoded in play slot
`nowSlot + k`, before slot `nowSlot + 6 + k` is mixed. The callback mixes no slot earlier than
the current one, and the client is in its snapshot. -/
def InOrder (st : Stream Frame) (nowSlot n : Nat) (p : Playback Frame) : Event Frame → Prop
  | .packet played _ =>
      p.sent < n ∧ (played / frameSize).toNat = nowSlot + p.sent ∧
        nowSlot + p.sent ≤ p.nextSlot ∧ p.nextSlot ≤ nowSlot + targetDelay.toNat + p.sent
  | .otherPacket client _ _ _ _ => client ≠ st.client
  | .mix ids =>
      st.client ∈ ids ∧ ids.Nodup ∧ p.nextSlot * frameSize.toNat < 2 ^ 64 ∧
        (p.sent = n ∨ p.nextSlot < nowSlot + targetDelay.toNat + p.sent)

/-- Every packet whose slot is mixed was taken, once, in sending order, packet `k` at slot
`nowSlot + 6 + k`. Nothing else was taken. -/
def PlayedInOrder (st : Stream Frame) (nowSlot n : Nat) (p : Playback Frame) : Prop :=
  p.taken = (List.range (min n (p.nextSlot - (nowSlot + targetDelay.toNat)))).map fun k =>
    (nowSlot + targetDelay.toNat + k, st.frames k)

end Playback

end Nek0.Audio
