import Nek0.Audio.JitterBuffer
import Nek0.Audio.Sending

/-!
# `Nek0.Audio.OutputStream`: the mixing callback

The cpal callback that `restart_output_stream` of `native/src/api.rs` makes. `callback` fills an
output buffer of any length. It walks through logical frames of `FRAME_SIZE` samples: when it enters
a new one it mixes it (`mixFrame`, phases A to C) and keeps it in `current_mix_buf`, and it copies
from there what fits.

`f32` is `Float32`. What other threads own can change between any two frames: `Shared` is what the
callback reads of it, and the frame number says which `Shared` a frame is mixed from. A decoded
frame is opaque as in the jitter buffer, so `Voice` says what its samples and gains are as `f32`.
`mixed` is there for the specification: the frames in the order they were mixed, with their slots.

Left out: the counters of `CB_STATS`.
-/

set_option autoImplicit false

namespace Nek0.Audio

/-- The samples of a decoded frame, `frame[i] as f32`, and a gain as `f32`. -/
structure Voice (Frame : Type) where
  sample : Frame → Nat → Float32
  linear : Gain → Float32

/-- `SfxSlot`. Kind 0 means idle. -/
structure SfxSlot where
  kind : UInt8
  pos : Nat
  deriving DecidableEq, Repr

/-- The samples of a logical frame. -/
abbrev MixBuf := Vector Float32 frameSize.toNat

/-- What the callback shares with the other threads: the audio state, `SFX_QUEUE` and
`SFX_SAMPLES`. -/
structure Shared (Frame : Type) where
  audio : AudioState Frame
  sfxQueue : List UInt8
  sfxSamples : List (Option (List Float32))

/-! ### One logical frame -/

section

variable {Frame : Type} (v : Voice Frame) (sh : Shared Frame)

/-- Phase A: the frames that the clients give for `slot`, each times the gain of its client. -/
def voices (slot : UInt64) : List (Nat → Float32) :=
  let r := sh.audio.mixSlot slot
  r.2.map fun (clientId, frame) =>
    let gain := ((r.1.clientBuffers clientId).map (·.volume)).getD .unity
    fun i => v.sample frame i * v.linear gain

/-- Phase B: the sum of the voices, attenuated. -/
def attenuated (voices : List (Nat → Float32)) (i : Nat) : Float32 :=
  let atten := if voices.length > 0 then 1 / (Float32.ofNat voices.length).sqrt else 1
  clamp (-32768) 32767 (voices.foldl (fun s voice => s + voice i) 0 * atten) / 32768

/-- A queued request is started in the first idle slot. It is dropped if there is none. -/
def startSfx : List SfxSlot → UInt8 → List SfxSlot
  | [], _ => []
  | slot :: slots, kind =>
    if slot.kind = 0 then { kind := kind, pos := 0 } :: slots else slot :: startSfx slots kind

/-- The samples of a request. -/
def sfxSource (slot : SfxSlot) : List Float32 :=
  ((sh.sfxSamples[slot.kind.toNat - 1]?).getD none).getD []

/-- A slot is advanced by one frame. -/
def advanceSfx (slot : SfxSlot) : SfxSlot :=
  if slot.kind = 0 then slot
  else if slot.pos ≥ (sfxSource sh slot).length then { slot with kind := 0 }
  else
    let pos := min (slot.pos + frameSize.toNat) (sfxSource sh slot).length
    { kind := if pos ≥ (sfxSource sh slot).length then 0 else slot.kind, pos := pos }

/-- What a slot adds to sample `i`. -/
def addSfx (i : Nat) (s : Float32) (slot : SfxSlot) : Float32 :=
  if slot.kind = 0 then s
  else
    match (sfxSource sh slot)[slot.pos + i]? with
    | none => s
    | some x => s + x * 0.5

/-- The mix of a play slot, and the sfx slots after it. -/
def mixFrame (sfxSlots : List SfxSlot) (slot : UInt64) : MixBuf × List SfxSlot :=
  let playing := sh.sfxQueue.foldl startSfx sfxSlots
  (Vector.ofFn fun i => clamp (-1) 1
      (playing.foldl (addSfx sh i) (attenuated (voices v sh slot) i)),
    playing.map (advanceSfx sh))

end

/-! ### The callback -/

/-- `PLAYED_SAMPLES` and what the callback keeps between two calls. -/
structure OutputStream where
  playedSamples : UInt64
  currentMixSlot : UInt64
  currentMixBuf : MixBuf
  sfxSlots : List SfxSlot
  mixed : List (UInt64 × MixBuf)

namespace OutputStream

/-- A stream that was just built. No slot has the number `u64::MAX`. -/
def new : OutputStream where
  playedSamples := 0
  currentMixSlot := UInt64.ofNat (2 ^ 64 - 1)
  currentMixBuf := Vector.replicate _ 0
  sfxSlots := [{ kind := 0, pos := 0 }, { kind := 0, pos := 0 }]
  mixed := []

variable {Frame : Type}

/-- The frame of `slot` is mixed, unless it is the current one. -/
def enterFrame (v : Voice Frame) (shared : Nat → Shared Frame) (slot : UInt64)
    (st : OutputStream) : OutputStream :=
  if slot ≠ st.currentMixSlot then
    let r := mixFrame v (shared st.mixed.length) st.sfxSlots slot
    { st with
        currentMixSlot := slot
        currentMixBuf := r.1
        sfxSlots := r.2
        mixed := st.mixed ++ [(slot, r.1)] }
  else st

/-- The loop: `remaining` samples are to be written, from `offset` of the frame of `slot` on. -/
def copyLoop (v : Voice Frame) (shared : Nat → Shared Frame) (remaining : Nat) (slot : UInt64)
    (offset : Fin frameSize.toNat) (st : OutputStream) : OutputStream × List Float32 :=
  if remaining = 0 then (st, [])
  else
    let st := st.enterFrame v shared slot
    let copy := min remaining (frameSize.toNat - offset)
    let out := (st.currentMixBuf.toList.drop offset).take copy
    let r :=
      if h : offset.val + copy ≥ frameSize.toNat then
        copyLoop v shared (remaining - copy) (slot + 1) ⟨0, by decide⟩ st
      else copyLoop v shared (remaining - copy) slot ⟨offset + copy, Nat.lt_of_not_ge h⟩ st
    (r.1, out ++ r.2)
termination_by remaining
decreasing_by all_goals omega

/-- The callback, for an output buffer of `len` samples. -/
def callback (v : Voice Frame) (shared : Nat → Shared Frame) (len : UInt64) (st : OutputStream) :
    OutputStream × List Float32 :=
  let slot := st.playedSamples / frameSize
  let offset : Fin frameSize.toNat :=
    ⟨(st.playedSamples % frameSize).toNat, Nat.mod_lt _ (by decide)⟩
  let r := st.copyLoop v shared len.toNat slot offset
  ({ r.1 with playedSamples := r.1.playedSamples + len }, r.2)

/-- The callbacks of one stream: its state and everything that was written. -/
def play (v : Voice Frame) (shared : Nat → Shared Frame) (lens : List UInt64) :
    OutputStream × List Float32 :=
  lens.foldl (fun r len =>
    let r' := r.1.callback v shared len
    (r'.1, r.2 ++ r'.2)) (new, [])

end OutputStream

end Nek0.Audio
