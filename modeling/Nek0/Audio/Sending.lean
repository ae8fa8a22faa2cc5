import Mathlib

/-!
# `Nek0.Audio.Sending`: the microphone's way to the server

The `SendAudio` command of `event_loop` in `native/src/api.rs`. `sendAudio` appends a chunk of
samples to `pcm_in` and takes whole frames from its front. Each of them passes the voice detection
(`vadDrop`), the microphone's gain (`gained`) and the encoder, and goes out under the next sequence
number.

`f32` is `Float32`. The Opus encoder and the connection are outside this repository, so a `Backend`
stands for them. `sent` is there for the specification: the packets that were given to `send_audio`,
in order. The lock on `STATE` is not held over the loop, but nobody else touches `pcm_in` except
`ts_start_audio` and `ts_stop_audio`.
-/

set_option autoImplicit false

namespace Nek0.Audio

/-- `FRAME`: samples in one packet. -/
def sendFrame : Nat := 960

/-- `HOLD_FRAMES`: frames that are sent after the last loud one. -/
def holdFrames : UInt32 := 10

/-- `AudioData::C2S`. The codec is always `OpusVoice`. -/
structure OutAudio where
  id : UInt16
  data : List UInt8
  deriving DecidableEq, Repr

/-- `OpusEncoder::new(48000, 1, Voip)` and `encode`, and `con.send_audio`. -/
structure Backend (Enc Con : Type) where
  newEncoder : Option Enc
  encode : Enc → List Float32 → Enc × Except String (List UInt8)
  sendAudio : Con → OutAudio → Con × Except String Unit

/-- The fields of `STATE` that belong to the microphone. -/
structure MicState (Enc : Type) where
  pcmIn : List Float32
  audioEncoder : Option Enc
  audioSeq : UInt16
  vadThreshold : Float32
  vadEnabled : Bool
  vadHold : UInt32
  voiceActive : Bool
  micGain : Float32

/-- The event loop's view: `STATE`, the connection, and what was sent over it. -/
structure Sender (Enc Con : Type) where
  state : MicState Enc
  con : Con
  sent : List OutAudio

/-- `f32::clamp`. -/
def clamp (lo hi x : Float32) : Float32 := if x < lo then lo else if hi < x then hi else x

/-- The root mean square of a frame. -/
def rms (frame : List Float32) : Float32 :=
  ((frame.map fun s => s * s).foldl (· + ·) 0 / 960).sqrt

/-- The microphone's gain. A gain next to 1 leaves the frame as it is. -/
def gained (gain : Float32) (frame : List Float32) : List Float32 :=
  if (gain - 1).abs > 0.001 then frame.map fun s => clamp (-1) 1 (s * gain) else frame

namespace MicState

variable {Enc Con : Type}

/-- `AppState::new`. -/
def new : MicState Enc where
  pcmIn := []
  audioEncoder := none
  audioSeq := 0
  vadThreshold := 0
  vadEnabled := false
  vadHold := 0
  voiceActive := false
  micGain := 1

/-- `ts_start_audio`. -/
def startAudio (b : Backend Enc Con) (s : MicState Enc) : MicState Enc × UInt8 :=
  match b.newEncoder with
  | none => (s, 0)
  | some encoder => ({ s with audioEncoder := some encoder, pcmIn := [], audioSeq := 0 }, 1)

/-- The frame is at or above the threshold. -/
def loud (s : MicState Enc) (frame : List Float32) : Bool := decide (rms frame ≥ s.vadThreshold)

/-- `vad_drop`, with the new hold count. -/
def vadDrop (s : MicState Enc) (frame : List Float32) : MicState Enc × Bool :=
  if s.vadEnabled then
    if s.loud frame then ({ s with vadHold := holdFrames }, false)
    else if s.vadHold > 0 then ({ s with vadHold := s.vadHold - 1 }, false)
    else (s, true)
  else (s, false)

/-- `encode_result` of a frame that is not dropped. -/
def encodeFrame (b : Backend Enc Con) (s : MicState Enc) (frame : List Float32) :
    MicState Enc × Option OutAudio :=
  match s.audioEncoder with
  | none => ({ s with pcmIn := [] }, none)
  | some encoder =>
    let r := b.encode encoder (gained s.micGain frame)
    match r.2 with
    | .error _ => ({ s with audioEncoder := some r.1 }, none)
    | .ok data =>
      ({ s with audioEncoder := some r.1, audioSeq := s.audioSeq + 1 },
        some { id := s.audioSeq, data := data })

/-- `encode_result` of a frame. -/
def encodeResult (b : Backend Enc Con) (s : MicState Enc) (frame : List Float32) :
    MicState Enc × Option OutAudio :=
  let r := s.vadDrop frame
  if r.2 then (r.1, none) else r.1.encodeFrame b frame

end MicState

namespace Sender

variable {Enc Con : Type}

/-- `con.send_audio` with the packet of a frame, if there is one. -/
def sendPacket (b : Backend Enc Con) (s : Sender Enc Con) (packet : OutAudio) : Sender Enc Con :=
  let r := b.sendAudio s.con packet
  { state := match r.2 with
      | .ok _ => { s.state with voiceActive := true }
      | .error _ => s.state
    con := r.1
    sent := s.sent ++ [packet] }

/-- One round of the loop: the frame at the front of `pcm_in`. -/
def sendBlock (b : Backend Enc Con) (s : Sender Enc Con) (frame : List Float32) : Sender Enc Con :=
  let r := s.state.encodeResult b frame
  match r.2 with
  | none => { s with state := r.1 }
  | some packet => { s with state := r.1 }.sendPacket b packet

/-- The frame is taken out of `pcm_in`. -/
def drainFrame (s : Sender Enc Con) : Sender Enc Con :=
  { s with state := { s.state with pcmIn := s.state.pcmIn.drop sendFrame } }

/-- A round never puts samples into `pcm_in`. -/
theorem length_pcmIn_sendBlock_le (b : Backend Enc Con) (s : Sender Enc Con)
    (frame : List Float32) :
    (s.sendBlock b frame).state.pcmIn.length ≤ s.state.pcmIn.length := by
  have hvad : (s.state.vadDrop frame).1.pcmIn = s.state.pcmIn := by
    unfold MicState.vadDrop
    split
    · split
      · rfl
      · split <;> rfl
    · rfl
  have hencode (m : MicState Enc) : (m.encodeFrame b frame).1.pcmIn.length ≤ m.pcmIn.length := by
    unfold MicState.encodeFrame
    split
    · exact Nat.zero_le _
    · simp only
      split <;> exact Nat.le_refl _
  have hresult : (s.state.encodeResult b frame).1.pcmIn.length ≤ s.state.pcmIn.length := by
    unfold MicState.encodeResult
    simp only
    split
    · rw [hvad]
    · exact (hencode _).trans_eq (congrArg List.length hvad)
  unfold sendBlock sendPacket
  simp only
  split
  · exact hresult
  · simp only
    split <;> exact hresult

/-- The loop. -/
def sendLoop (b : Backend Enc Con) (s : Sender Enc Con) : Sender Enc Con :=
  if s.state.pcmIn.length < sendFrame then s
  else sendLoop b (s.drainFrame.sendBlock b (s.state.pcmIn.take sendFrame))
termination_by s.state.pcmIn.length
decreasing_by
  have hle := length_pcmIn_sendBlock_le b s.drainFrame (s.state.pcmIn.take sendFrame)
  have hdrain : s.drainFrame.state.pcmIn.length = s.state.pcmIn.length - sendFrame :=
    List.length_drop
  have hpos : 0 < sendFrame := by decide
  omega

/-- `SendAudio`. -/
def sendAudio (b : Backend Enc Con) (s : Sender Enc Con) (data : List Float32) : Sender Enc Con :=
  { s with state := { s.state with pcmIn := s.state.pcmIn ++ data } }.sendLoop b

end Sender

end Nek0.Audio
