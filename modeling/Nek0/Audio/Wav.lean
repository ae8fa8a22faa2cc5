import Mathlib
import Nek0.Lib.LittleEndian

/-!
# `Nek0.Audio.Wav`: `parse_wav_pcm`

The parser of sound-effect files in `native/src/lib.rs`, and `ts_set_sfx_sample`, which installs
what it gives. The file is an arbitrary list of bytes. An access out of range is `stuck`, and so is
the walk over the chunks if it has used up its fuel.

The arithmetic of `f32` is a parameter: a `Codec` for what the samples of a file become, and an
`Interpolation` for the resampling. The `f64` computations (the length limit, the output length and
the positions) are over the rational numbers.
-/

set_option autoImplicit false

namespace Nek0.Audio

open Nek0.Lib.LittleEndian

/-- Why a file is rejected. The texts are those of the source. -/
inductive WavError where
  /-- "not a RIFF/WAVE file" -/
  | notRiffWave
  /-- "bad chunk size" -/
  | badChunkSize
  /-- "fmt chunk too short" -/
  | fmtTooShort
  /-- "bad sample rate" -/
  | badSampleRate
  /-- "missing fmt chunk" -/
  | missingFmt
  /-- "invalid sample rate 0" -/
  | zeroRate
  /-- "unsupported channel count {}" -/
  | channelCount (channels : Nat)
  /-- "bad float sample" -/
  | badFloatSample
  /-- "unsupported WAV encoding format={} bits={} (expected PCM 16-bit or float32)" -/
  | encoding (format bits : Nat)
  /-- "no audio data" -/
  | noAudioData
  /-- "audio too long ({:.3}s > {:.0}s)" -/
  | tooLong (frames rate : Nat)
  deriving DecidableEq, Repr

/-- How parsing ends. -/
inductive Parsed (α : Type) where
  | ok (a : α)
  | err (e : WavError)
  | stuck
  deriving DecidableEq, Repr

namespace Parsed

variable {α β : Type}

/-- What comes after an `ok`. -/
protected def bind : Parsed α → (α → Parsed β) → Parsed β
  | ok a, f => f a
  | err e, _ => err e
  | stuck, _ => stuck

instance : Monad Parsed where
  pure := ok
  bind := Parsed.bind

end Parsed

/-- `data[a..b]`. -/
def slice (data : List UInt8) (a b : Nat) : Parsed (List UInt8) :=
  if a ≤ b ∧ b ≤ data.length then .ok ((data.drop a).take (b - a)) else .stuck

/-- `data[i]`. -/
def byteAt (data : List UInt8) (i : Nat) : Parsed UInt8 :=
  match data[i]? with
  | some b => .ok b
  | none => .stuck

/-- `bytes.try_into()`, to an array of `n` bytes. -/
def tryInto (n : Nat) (bytes : List UInt8) (e : WavError) : Parsed (List UInt8) :=
  if bytes.length = n then .ok bytes else .err e

/-- The arithmetic of `f32` that decodes: `as f32`, `from_le_bytes`, `0.0`, `+=`, and `/` by the
channel count or 32768. -/
structure Codec (F : Type) where
  ofInt : Int → F
  ofBits : Nat → F
  zero : F
  add : F → F → F
  div : F → Nat → F

/-- The arithmetic of `f32` that resamples. -/
structure Interpolation (F : Type) where
  zero : F
  add : F → F → F
  sub : F → F → F
  mul : F → F → F
  ofRat : ℚ → F

/-- `fmt`: format, channels, rate, bits. -/
structure Fmt where
  format : Nat
  channels : Nat
  rate : Nat
  bits : Nat
  deriving DecidableEq, Repr

/-- `b"RIFF"`, `b"WAVE"`, `b"fmt "` and `b"data"`. -/
def riffId : List UInt8 := [0x52, 0x49, 0x46, 0x46]
def waveId : List UInt8 := [0x57, 0x41, 0x56, 0x45]
def fmtId : List UInt8 := [0x66, 0x6D, 0x74, 0x20]
def dataId : List UInt8 := [0x64, 0x61, 0x74, 0x61]

/-- `TARGET_RATE`. -/
def targetRate : Nat := 48000

/-- `MAX_SECONDS`. -/
def maxSeconds : ℚ := 2

/-! ### The chunks -/

/-- The variables of the walk over the chunks. -/
structure Walk where
  fmt : Option Fmt
  dataChunks : List (List UInt8)
  off : Nat
  deriving DecidableEq, Repr

/-- `b"fmt "`. -/
def readFmt (chunk : List UInt8) : Parsed Fmt :=
  if chunk.length < 16 then .err .fmtTooShort
  else do
    let format := fromLe [← byteAt chunk 0, ← byteAt chunk 1]
    let channels := fromLe [← byteAt chunk 2, ← byteAt chunk 3]
    let rate := fromLe (← tryInto 4 (← slice chunk 4 8) .badSampleRate)
    let bits := fromLe [← byteAt chunk 14, ← byteAt chunk 15]
    pure ⟨format, channels, rate, bits⟩

/-- `match id`. -/
def readChunk (w : Walk) (id chunk : List UInt8) : Parsed Walk :=
  if id = fmtId then do
    let fmt ← readFmt chunk
    pure { w with fmt := some fmt }
  else if id = dataId then pure { w with dataChunks := w.dataChunks ++ [chunk] }
  else pure w

/-- A round of the loop. It is `none` when the loop ends. -/
def walkStep (data : List UInt8) (w : Walk) : Parsed (Option Walk) :=
  if w.off + 8 ≤ data.length then do
    let id ← slice data w.off (w.off + 4)
    let size := fromLe (← tryInto 4 (← slice data (w.off + 4) (w.off + 8)) .badChunkSize)
    let chunkStart := w.off + 8
    if size > data.length - chunkStart then pure none
    else do
      let chunk ← slice data chunkStart (chunkStart + size)
      let w' ← readChunk w id chunk
      pure (some { w' with off := chunkStart + size + size % 2 })
  else pure none

/-- The loop. -/
def walk (data : List UInt8) : Nat → Walk → Parsed Walk
  | 0, _ => .stuck
  | fuel + 1, w => do
    match ← walkStep data w with
    | none => pure w
    | some w' => walk data fuel w'

/-! ### The samples -/

variable {F : Type}

/-- A frame of PCM 16-bit. -/
def frame16 (codec : Codec F) (channels : Nat) (chunk : List UInt8) (f : Nat) : Parsed F := do
  let base := f * (channels * 2)
  let sum ← (List.range channels).foldlM (fun (sum : Int) ch => do
    let idx := base + ch * 2
    let v := fromLeSigned [← byteAt chunk idx, ← byteAt chunk (idx + 1)]
    pure (sum + v)) 0
  pure (codec.div (codec.div (codec.ofInt sum) channels) 32768)

/-- A frame of IEEE float32. -/
def frame32 (codec : Codec F) (channels : Nat) (chunk : List UInt8) (f : Nat) : Parsed F := do
  let base := f * (channels * 4)
  let sum ← (List.range channels).foldlM (fun sum ch => do
    let idx := base + ch * 4
    let v := codec.ofBits (fromLe (← tryInto 4 (← slice chunk idx (idx + 4)) .badFloatSample))
    pure (codec.add sum v)) codec.zero
  pure (codec.div sum channels)

/-- `decode`. -/
def decode (codec : Codec F) (fmt : Fmt) (chunk : List UInt8) : Parsed (List F) :=
  if fmt.format = 1 ∧ fmt.bits = 16 then
    (List.range (chunk.length / (fmt.channels * 2))).mapM (frame16 codec fmt.channels chunk)
  else if fmt.format = 3 ∧ fmt.bits = 32 then
    (List.range (chunk.length / (fmt.channels * 4))).mapM (frame32 codec fmt.channels chunk)
  else .err (.encoding fmt.format fmt.bits)

/-- `parse_wav_pcm` up to the resampling: the decoded frames, and the rate. -/
def decodeWav (codec : Codec F) (data : List UInt8) : Parsed (List F × Nat) :=
  if data.length < 12 then .err .notRiffWave
  else do
    -- The header of the container.
    if (← slice data 0 4) ≠ riffId then .err .notRiffWave
    else if (← slice data 8 12) ≠ waveId then .err .notRiffWave
    else do
      let w ← walk data data.length ⟨none, [], 12⟩
      -- The chunks were walked, in any order. The last `fmt ` chunk counts.
      match w.fmt with
      | none => .err .missingFmt
      | some fmt =>
        if fmt.rate = 0 then .err .zeroRate
        else if fmt.channels ≠ 1 ∧ fmt.channels ≠ 2 then .err (.channelCount fmt.channels)
        else do
          -- All data chunks are decoded in the format, and joined.
          let pcm := (← w.dataChunks.mapM (decode codec fmt)).flatten
          if pcm.isEmpty then .err .noAudioData
          else if (pcm.length : ℚ) / fmt.rate > maxSeconds then .err (.tooLong pcm.length fmt.rate)
          else pure (pcm, fmt.rate)

/-- A sample of the output: the two samples around its position in the input, and what is between
them. -/
def resampledAt (interp : Interpolation F) (pcm : List F) (ratio : ℚ) (i : Nat) : F :=
  let pos := i * ratio
  let idx := ⌊pos⌋.toNat
  let frac := pos - idx
  let a := pcm[idx]?.getD interp.zero
  let b := pcm[idx + 1]?.getD a
  interp.add a (interp.mul (interp.sub b a) (interp.ofRat frac))

/-- The linear resampling to 48 kHz. -/
def resample (interp : Interpolation F) (pcm : List F) (rate : Nat) : List F :=
  let ratio : ℚ := rate / targetRate
  let outLen := ⌈(pcm.length : ℚ) * targetRate / rate⌉.toNat
  (List.range outLen).map (resampledAt interp pcm ratio)

/-- `parse_wav_pcm`. -/
def parseWavPcm (codec : Codec F) (interp : Interpolation F) (data : List UInt8) :
    Parsed (List F) := do
  let (pcm, rate) ← decodeWav codec data
  if rate = targetRate then pure pcm else pure (resample interp pcm rate)

/-! ### The encoders of the tests -/

/-- The bytes of a file with one `fmt ` chunk and one `data` chunk. The samples are bytes already.
-/
def wavBytes (format bits rate channels : Nat) (samples : List (List UInt8)) : List UInt8 :=
  let blockAlign := channels * bits / 8
  let byteRate := rate * blockAlign
  let dataLen := samples.length * (bits / 8)
  riffId ++ toLe 4 (36 + dataLen) ++ waveId ++ fmtId ++ toLe 4 16 ++ toLe 2 format ++
    toLe 2 channels ++ toLe 4 rate ++ toLe 4 byteRate ++ toLe 2 blockAlign ++ toLe 2 bits ++
    dataId ++ toLe 4 dataLen ++ samples.flatten

/-- `wav_pcm16`. -/
def wavPcm16 (rate channels : Nat) (samples : List Int16) : List UInt8 :=
  wavBytes 1 16 rate channels (samples.map fun s => toLe 2 s.toUInt16.toNat)

/-- `wav_f32`. The samples are given by their bits. -/
def wavF32 (rate channels : Nat) (samples : List UInt32) : List UInt8 :=
  wavBytes 3 32 rate channels (samples.map fun s => toLe 4 s.toNat)

/-! ### Installing a sample -/

/-- `SFX_SAMPLES`, by index. -/
abbrev SfxSamples (F : Type) := Nat → Option (List F)

/-- `ts_set_sfx_sample`: the samples after it, and what it returns. The data is `none` for the null
pointer. -/
def tsSetSfxSample (codec : Codec F) (interp : Interpolation F) (samples : SfxSamples F)
    (kind : UInt8) (data : Option (List UInt8)) : SfxSamples F × Int :=
  -- An unknown sound.
  if ¬ (1 ≤ kind.toNat ∧ kind.toNat ≤ 37) then (samples, 1)
  else
    match data with
    | none => (samples, 3)
    | some bytes =>
      -- An empty file and one without sound have a code of their own.
      if bytes.length = 0 then (samples, 3)
      else
        match parseWavPcm codec interp bytes with
        | .ok sample => (Function.update samples (kind.toNat - 1) (some sample), 0)
        | .err .noAudioData => (samples, 3)
        | .err (.tooLong _ _) => (samples, 3)
        | _ => (samples, 2)

end Nek0.Audio
