import Nek0.Lib.Binary32
import Nek0.Proofs.Audio.WavFrames

/-!
# `Nek0.Proofs.Audio.WavFiles`: `parse_wav_pcm` decodes what an encoder wrote

A `WavFile` is a file as a list of chunks: the pad bytes, unknown chunks, several `fmt ` and `data`
chunks in any order, and a truncated end. It carries the proofs that the parser supports it.

* `walk_chunks`: the offset loop finds the chunks, one after the other;
* `parseWavPcm_bytes`: what is parsed is decoded from the complete data chunks, by the last `fmt `
  chunk;
* `channelAverage_decodedFrame`: a frame is decoded to the average of its channels;
* `parseWavPcm_encoded`: all of it together, with the encoders of the tests.
-/

set_option autoImplicit false

namespace Nek0.Proofs.Audio

open Nek0.Lib Nek0.Lib.LittleEndian Nek0.Lib.Blocks Nek0.Audio

variable {F : Type}

/-! ### Files -/

/-- A complete chunk. -/
structure RiffChunk where
  id : List UInt8
  body : List UInt8
  pad : UInt8
  length_id : id.length = 4
  length_body : body.length < 2 ^ 32

namespace RiffChunk

/-- A body of odd length has a pad byte. -/
def padding (c : RiffChunk) : List UInt8 := if c.body.length % 2 = 1 then [c.pad] else []

/-- The bytes of a chunk. -/
def bytes (c : RiffChunk) : List UInt8 := c.id ++ (toLe 4 c.body.length ++ (c.body ++ c.padding))

/-- What a `fmt ` chunk says. -/
def fmt (c : RiffChunk) : Fmt where
  format := fromLe (c.body.take 2)
  channels := fromLe ((c.body.drop 2).take 2)
  rate := fromLe ((c.body.drop 4).take 4)
  bits := fromLe ((c.body.drop 14).take 2)

/-- The chunk as the walk takes it. -/
def read (c : RiffChunk) (w : Walk) : Walk where
  fmt := if c.id = fmtId then some c.fmt else w.fmt
  dataChunks := if c.id = dataId then w.dataChunks ++ [c.body] else w.dataChunks
  off := w.off + c.bytes.length

end RiffChunk

/-- The chunks as the walk takes them. -/
def readAll (chunks : List RiffChunk) (w : Walk) : Walk := chunks.foldl (fun w c => c.read w) w

/-- The end of a file: too short for a chunk header, or a chunk that is longer than what is left. -/
inductive Truncated : List UInt8 → Prop
  | header (tail : List UInt8) (h : tail.length < 8) : Truncated tail
  | body (id body : List UInt8) (size : Nat) (hid : id.length = 4) (hsize : size < 2 ^ 32)
      (h : body.length < size) : Truncated (id ++ (toLe 4 size ++ body))

/-- The `data` chunks among the chunks. -/
def dataBodies (chunks : List RiffChunk) : List (List UInt8) :=
  (chunks.filter (·.id = dataId)).map RiffChunk.body

/-- A file at 48 kHz that the parser supports. -/
structure WavFile where
  size : List UInt8
  chunks : List RiffChunk
  tail : List UInt8
  fmt : Fmt
  length_size : size.length = 4
  long_fmt : ∀ c ∈ chunks, c.id = fmtId → 16 ≤ c.body.length
  last_fmt : (chunks.filter (·.id = fmtId)).getLast?.map RiffChunk.fmt = some fmt
  truncated : Truncated tail
  rate : fmt.rate = 48000
  supported : Supported fmt
  channels : fmt.channels = 1 ∨ fmt.channels = 2
  some_frame : 1 ≤ ((dataBodies chunks).map fun b => b.length / frameBytes fmt).sum
  two_seconds : ((dataBodies chunks).map fun b => b.length / frameBytes fmt).sum ≤ 96000

namespace WavFile

/-- The bytes of the file. -/
def bytes (f : WavFile) : List UInt8 :=
  riffId ++ (f.size ++ (waveId ++ (f.chunks.flatMap RiffChunk.bytes ++ f.tail)))

/-- The frames of the complete data chunks, as bytes. -/
def frames (f : WavFile) : List (List UInt8) :=
  (dataBodies f.chunks).flatMap (blocks (frameBytes f.fmt))

end WavFile

/-! ### The walk over the chunks -/

/-- An access behind a prefix. -/
theorem slice_append {pre x : List UInt8} {a b off : Nat} (hoff : off = pre.length) (hab : a ≤ b)
    (hb : b ≤ x.length) :
    slice (pre ++ x) (off + a) (off + b) = .ok ((x.drop a).take (b - a)) := by
  subst hoff
  rw [slice_ok (by omega) (by rw [List.length_append]; omega), Nat.add_sub_add_left,
    List.drop_length_add_append]

/-- A `fmt ` chunk that is long enough is read. -/
theorem readFmt_ok {c : RiffChunk} (h : 16 ≤ c.body.length) : readFmt c.body = .ok c.fmt := by
  unfold readFmt
  rw [if_neg (by omega), byteAt_ok (show 0 < _ by omega), byteAt_ok (show 1 < _ by omega),
    byteAt_ok (show 2 < _ by omega), byteAt_ok (show 3 < _ by omega),
    slice_ok (by decide) (by omega), byteAt_ok (show 14 < _ by omega),
    byteAt_ok (show 15 < _ by omega)]
  simp only [ok_bind]
  rw [tryInto_ok (by rw [List.length_take, List.length_drop]; omega)]
  simp only [ok_bind, pure_eq_ok]
  have h0 : c.body.take 2 = _ := take_two (show 0 + 1 < _ by omega)
  rw [RiffChunk.fmt, h0, take_two (show 2 + 1 < _ by omega), take_two (show 14 + 1 < _ by omega)]

/-- A chunk is read for what it is. -/
theorem readChunk_ok {c : RiffChunk} (hlong : c.id = fmtId → 16 ≤ c.body.length) (w : Walk) :
    readChunk w c.id c.body = .ok { c.read w with off := w.off } := by
  unfold readChunk RiffChunk.read
  by_cases hfmt : c.id = fmtId
  · have hdata : c.id ≠ dataId := by
      rw [hfmt]
      decide
    rw [if_pos hfmt, readFmt_ok (hlong hfmt), if_pos hfmt, if_neg hdata]
    rfl
  · by_cases hdata : c.id = dataId
    · rw [if_neg hfmt, if_pos hdata, if_neg hfmt, if_pos hdata]
      rfl
    · rw [if_neg hfmt, if_neg hdata, if_neg hfmt, if_neg hdata]
      rfl

/-- A chunk has its header, its body, and a byte of padding if the body is odd. -/
theorem length_bytes (c : RiffChunk) :
    c.bytes.length = 8 + c.body.length + c.body.length % 2 := by
  have hpad : c.padding.length = c.body.length % 2 := by
    unfold RiffChunk.padding
    split
    · rename_i h
      rw [h]
      rfl
    · simp only [List.length_nil]
      omega
  rw [RiffChunk.bytes]
  simp only [List.length_append, length_toLe, c.length_id, hpad]
  omega

/-- A round of the loop takes the chunk at the offset. -/
theorem walkStep_chunk {pre rest : List UInt8} {c : RiffChunk} {w : Walk}
    (hlong : c.id = fmtId → 16 ≤ c.body.length) (hoff : w.off = pre.length) :
    walkStep (pre ++ (c.bytes ++ rest)) w = .ok (some (c.read w)) := by
  have hlength := length_bytes c
  have hid := c.length_id
  have hroom : 8 + c.body.length ≤ (c.bytes ++ rest).length := by
    rw [List.length_append]
    omega
  have h0 : slice (pre ++ (c.bytes ++ rest)) w.off (w.off + 4) = .ok c.id := by
    rw [← Nat.add_zero w.off, Nat.add_assoc, slice_append hoff (by decide) (by omega)]
    simp [RiffChunk.bytes, hid]
  have h4 : slice (pre ++ (c.bytes ++ rest)) (w.off + 4) (w.off + 8) =
      .ok (toLe 4 c.body.length) := by
    rw [slice_append hoff (by decide) (by omega)]
    simp [RiffChunk.bytes, hid]
  have h8 : slice (pre ++ (c.bytes ++ rest)) (w.off + 8) (w.off + 8 + c.body.length) =
      .ok c.body := by
    have hbytes : c.bytes ++ rest =
        (c.id ++ toLe 4 c.body.length) ++ (c.body ++ (c.padding ++ rest)) := by
      simp [RiffChunk.bytes]
    rw [Nat.add_assoc w.off, slice_append hoff (by omega) (by omega), hbytes,
      List.drop_left' (by rw [List.length_append, hid, length_toLe]), Nat.add_sub_cancel_left,
      List.take_left]
  have hsize : fromLe (toLe 4 c.body.length) = c.body.length := fromLe_toLe_of_lt c.length_body
  have hfits : ¬ c.body.length > (pre ++ (c.bytes ++ rest)).length - (w.off + 8) := by
    rw [List.length_append, ← hoff]
    omega
  unfold walkStep
  rw [if_pos (by rw [List.length_append]; omega), h0, h4]
  simp only [ok_bind, tryInto_ok (length_toLe 4 _), hsize]
  rw [if_neg hfits, h8, ok_bind, readChunk_ok hlong, ok_bind, RiffChunk.read, hlength]
  simp only [pure_eq_ok, Nat.add_assoc]

/-- The loop ends at a truncated chunk. -/
theorem walkStep_truncated {pre tail : List UInt8} (h : Truncated tail) {w : Walk}
    (hoff : w.off = pre.length) : walkStep (pre ++ tail) w = .ok none := by
  unfold walkStep
  cases h with
  | header tail h =>
      rw [if_neg (by rw [List.length_append]; omega)]
      rfl
  | body id body size hid hsize h =>
      have hlength : (id ++ (toLe 4 size ++ body)).length = 8 + body.length := by
        simp only [List.length_append, length_toLe, hid]
        omega
      have h0 : slice (pre ++ (id ++ (toLe 4 size ++ body))) w.off (w.off + 4) = .ok id := by
        rw [← Nat.add_zero w.off, Nat.add_assoc, slice_append hoff (by decide) (by omega)]
        simp [hid]
      have h4 : slice (pre ++ (id ++ (toLe 4 size ++ body))) (w.off + 4) (w.off + 8) =
          .ok (toLe 4 size) := by
        rw [slice_append hoff (by decide) (by omega)]
        simp [hid]
      rw [if_pos (by rw [List.length_append]; omega), h0, h4]
      simp only [ok_bind, tryInto_ok (length_toLe 4 _), fromLe_toLe_of_lt (n := 4) hsize]
      rw [if_pos (by rw [List.length_append, hlength]; omega)]
      rfl

/-- The walk takes the chunks one after the other, and ends at the truncated end. -/
theorem walk_chunks {chunks : List RiffChunk} {tail : List UInt8}
    (hlong : ∀ c ∈ chunks, c.id = fmtId → 16 ≤ c.body.length) (htail : Truncated tail)
    {fuel : Nat} (hfuel : chunks.length < fuel) {pre : List UInt8} {w : Walk}
    (hoff : w.off = pre.length) :
    walk (pre ++ (chunks.flatMap RiffChunk.bytes ++ tail)) fuel w =
      .ok (readAll chunks w) := by
  induction chunks generalizing fuel pre w with
  | nil =>
      obtain ⟨fuel, rfl⟩ : ∃ n, fuel = n + 1 := ⟨fuel - 1, by omega⟩
      rw [walk, List.flatMap_nil, List.nil_append, walkStep_truncated htail hoff]
      rfl
  | cons c chunks ih =>
      obtain ⟨fuel, rfl⟩ : ∃ n, fuel = n + 1 := ⟨fuel - 1, by omega⟩
      have hoff' : (c.read w).off = (pre ++ c.bytes).length := by
        rw [List.length_append, ← hoff, RiffChunk.read]
      have hrest := ih (fun c' hc' => hlong c' (List.mem_cons_of_mem c hc'))
        (Nat.lt_of_succ_lt_succ hfuel) hoff'
      rw [walk, List.flatMap_cons, List.append_assoc,
        walkStep_chunk (hlong c List.mem_cons_self) hoff, ok_bind, ← List.append_assoc]
      exact hrest

/-- After the walk, the format is that of the last `fmt ` chunk. -/
theorem fmt_readAll (chunks : List RiffChunk) (w : Walk) :
    (readAll chunks w).fmt =
      ((chunks.filter (·.id = fmtId)).getLast?.map RiffChunk.fmt).or w.fmt := by
  -- The last chunk decides, so the chunks are taken from the end.
  induction chunks using List.reverseRecOn with
  | nil => rfl
  | append_singleton chunks c ih =>
      rw [readAll] at ih
      rw [readAll, List.foldl_append, List.foldl_cons, List.foldl_nil, RiffChunk.read,
        List.filter_append]
      by_cases hfmt : c.id = fmtId
      · simp [hfmt]
      · simp [hfmt, ih]

/-- After the walk, the data chunks are there in their order. -/
theorem dataChunks_readAll (chunks : List RiffChunk) (w : Walk) :
    (readAll chunks w).dataChunks = w.dataChunks ++ dataBodies chunks := by
  induction chunks generalizing w with
  | nil => exact (List.append_nil _).symm
  | cons c chunks ih =>
      have hstep : readAll (c :: chunks) w = readAll chunks (c.read w) := rfl
      rw [hstep, ih, RiffChunk.read, dataBodies, dataBodies]
      by_cases hdata : c.id = dataId
      · simp [hdata]
      · simp [hdata]

/-! ### The file -/

/-- A chunk is not empty. -/
theorem length_le_flatMap (chunks : List RiffChunk) :
    chunks.length ≤ (chunks.flatMap RiffChunk.bytes).length := by
  induction chunks with
  | nil => exact le_rfl
  | cons c chunks ih =>
      rw [List.flatMap_cons, List.length_append, length_bytes, List.length_cons]
      omega

/-- The walk over a file reads all of its chunks. -/
theorem walk_bytes (f : WavFile) :
    walk f.bytes f.bytes.length ⟨none, [], 12⟩ =
      .ok (readAll f.chunks ⟨none, [], 12⟩) := by
  have hpre : (riffId ++ (f.size ++ waveId)).length = 12 := by
    simp [riffId, waveId, f.length_size]
  have hbytes : f.bytes =
      (riffId ++ (f.size ++ waveId)) ++ (f.chunks.flatMap RiffChunk.bytes ++ f.tail) := by
    simp [WavFile.bytes]
  have hfuel : f.chunks.length < f.bytes.length := by
    have := length_le_flatMap f.chunks
    rw [hbytes, List.length_append, hpre, List.length_append]
    omega
  have hwalk := walk_chunks f.long_fmt f.truncated hfuel (w := ⟨none, [], 12⟩) hpre.symm
  rwa [← hbytes] at hwalk

/-- The frames of a file are those of its data chunks. -/
theorem flatten_decodedFrames (codec : Codec F) (f : WavFile) :
    ((dataBodies f.chunks).map (decodedFrames codec f.fmt)).flatten =
      f.frames.map (decodedFrame codec f.fmt) := by
  rw [WavFile.frames, List.map_flatMap, List.flatMap_def]
  rfl

theorem length_frames (f : WavFile) :
    f.frames.length = ((dataBodies f.chunks).map fun b => b.length / frameBytes f.fmt).sum := by
  rw [WavFile.frames, List.length_flatMap]
  simp only [length_blocks]

/-- The file is decoded from the complete data chunks. -/
theorem decodeWav_bytes (codec : Codec F) (f : WavFile) :
    decodeWav codec f.bytes = .ok (f.frames.map (decodedFrame codec f.fmt), 48000) := by
  -- The header is there,
  have hlength : 12 ≤ f.bytes.length := by
    simp only [WavFile.bytes, List.length_append, f.length_size, riffId, waveId, List.length_cons,
      List.length_nil]
    omega
  have hriff : slice f.bytes 0 4 = .ok riffId := by
    rw [slice_ok (by decide) (by omega)]
    simp [WavFile.bytes, riffId]
  have hwave : slice f.bytes 8 12 = .ok waveId := by
    rw [slice_ok (by decide) (by omega)]
    simp [WavFile.bytes, riffId, waveId, f.length_size]
  -- the walk finds the last format and all data,
  have hfmt : (readAll f.chunks ⟨none, [], 12⟩).fmt = some f.fmt := by
    rw [fmt_readAll, f.last_fmt]
    rfl
  have hdata : (readAll f.chunks ⟨none, [], 12⟩).dataChunks =
      dataBodies f.chunks := dataChunks_readAll f.chunks _
  -- each chunk is decoded,
  have hdecode : (dataBodies f.chunks).mapM (decode codec f.fmt) =
      .ok ((dataBodies f.chunks).map (decodedFrames codec f.fmt)) :=
    mapM_ok fun chunk _ => decode_of_supported codec f.supported chunk
  have hcount := length_frames f
  have hsome := f.some_frame
  have hshort := f.two_seconds
  unfold decodeWav
  rw [if_neg (by omega), hriff, ok_bind, if_neg (by decide), hwave, ok_bind, if_neg (by decide),
    walk_bytes, ok_bind]
  simp only [hfmt]
  rw [if_neg (by rw [f.rate]; decide), if_neg (by have := f.channels; omega), hdata, hdecode,
    ok_bind]
  -- and no check of the samples fails.
  simp only [flatten_decodedFrames, f.rate]
  rw [if_neg, if_neg]
  · rfl
  · rw [not_lt, List.length_map, maxSeconds, div_le_iff₀ (by norm_num)]
    have : f.frames.length ≤ 96000 := by omega
    calc (f.frames.length : ℚ) ≤ (96000 : ℕ) := by exact_mod_cast this
      _ = 2 * (48000 : ℕ) := by norm_num
  · rw [List.isEmpty_iff, List.map_eq_nil_iff, ← List.length_eq_zero_iff]
    omega

/-- `parse_wav_pcm` does not resample at 48 kHz. -/
theorem parseWavPcm_bytes (codec : Codec F) (interp : Interpolation F) (f : WavFile) :
    parseWavPcm codec interp f.bytes = .ok (f.frames.map (decodedFrame codec f.fmt)) := by
  rw [parseWavPcm, decodeWav_bytes]
  rfl

/-! ### The samples as single-precision numbers -/

/-- Decoding with the arithmetic of `f32`. -/
def binary32Codec : Codec Binary32 where
  ofInt := .ofInt
  ofBits := .ofBits
  zero := .ofRat 0
  add := .add
  div := .divNat

/-- The average of the samples of one or two channels, in `f32`. -/
def average32 : List Binary32 → Binary32
  | [x] => x
  | [x, y] => (x.add y).divNat 2
  | _ => .nan

/-- The sample is the average of the channels of a frame, divided by 32768 for PCM 16-bit. -/
def ChannelAverage (fmt : Fmt) (frame : List UInt8) (x : Binary32) : Prop :=
  if fmt.bits = 16 then
    x.toRat = some (((samples16 frame).sum : ℚ) / fmt.channels / 32768)
  else x = average32 (samples32 binary32Codec frame)

/-- A sample of 16 bits is between its bounds. -/
theorem abs_fromLeSigned_le (bytes : List UInt8) (h : bytes.length = 2) :
    |fromLeSigned bytes| ≤ 2 ^ 15 := by
  rw [fromLeSigned, h]
  have hlow := Int.le_bmod (x := (fromLe bytes : ℤ)) (m := 256 ^ 2) (by decide)
  have hhigh := Int.bmod_lt (x := (fromLe bytes : ℤ)) (m := 256 ^ 2) (by decide)
  rw [abs_le]
  constructor <;> omega

/-- One channel, or the two. -/
theorem blocks_frame {frame : List UInt8} {channels n : Nat} (hn : 0 < n)
    (hchannels : channels = 1 ∨ channels = 2) (hframe : frame.length = channels * n) :
    channels = 1 ∧ blocks n frame = [frame] ∨
      channels = 2 ∧ blocks n frame = [frame.take n, frame.drop n] := by
  cases hchannels with
  | inl hone =>
      subst hone
      rw [Nat.one_mul] at hframe
      refine .inl ⟨rfl, ?_⟩
      rw [blocks_of_le hn hframe.ge, blocks_of_lt, List.take_of_length_le hframe.le]
      rw [List.length_drop]
      omega
  | inr htwo =>
      subst htwo
      have hdrop : (frame.drop n).length = n := by
        rw [List.length_drop]
        omega
      refine .inr ⟨rfl, ?_⟩
      rw [blocks_of_le hn (by omega), blocks_of_le hn hdrop.ge, blocks_of_lt,
        List.take_of_length_le hdrop.le]
      rw [List.length_drop]
      omega

/-- The sum of the channels has 24 significant bits, and so does its average over 32768. -/
theorem toRat_average16 {sum : ℤ} (hsum : |sum| ≤ 2 ^ 16) {channels : Nat}
    (hchannels : channels = 1 ∨ channels = 2) :
    (((Binary32.ofInt sum).divNat channels).divNat 32768).toRat =
      some ((sum : ℚ) / channels / 32768) := by
  have hm : |sum| < 2 ^ 24 := by omega
  obtain ⟨k, hk, hpow⟩ : ∃ k : Nat, k ≤ 1 ∧ channels = 2 ^ k := by
    cases hchannels with
    | inl h => exact ⟨0, by decide, h⟩
    | inr h => exact ⟨1, by decide, h⟩
  have hint : Binary32.ofInt sum = .ofRat (sum * (2 : ℚ) ^ (0 : ℤ)) := by
    rw [zpow_zero, mul_one]
    rfl
  rw [hint, hpow, Binary32.divNat_scaled hm (by decide) k (by omega),
    show 32768 = 2 ^ 15 from rfl, Binary32.divNat_scaled hm (by omega) 15 (by omega),
    Binary32.ofRat_of_representable (Binary32.representable_scaled hm (by omega) (by omega)),
    Binary32.toRat]
  congr 1
  rw [zero_sub, zpow_sub₀ (by norm_num), zpow_neg, zpow_natCast, zpow_natCast]
  push_cast
  ring

/-- A frame is decoded to the average of its channels. -/
theorem channelAverage_decodedFrame {fmt : Fmt} (hsupported : Supported fmt)
    (hchannels : fmt.channels = 1 ∨ fmt.channels = 2) {frame : List UInt8}
    (hframe : frame.length = frameBytes fmt) :
    ChannelAverage fmt frame (decodedFrame binary32Codec fmt frame) := by
  unfold ChannelAverage decodedFrame
  split
  · rename_i hbits
    rw [frameBytes, hbits] at hframe
    refine toRat_average16 ?_ hchannels
    cases blocks_frame (n := 2) (by decide) hchannels hframe with
    | inl h =>
        have hbound := abs_fromLeSigned_le frame (by omega)
        simp only [samples16, h.2, List.map_cons, List.map_nil, List.sum_cons, List.sum_nil,
          add_zero]
        omega
    | inr h =>
        have hfirst := abs_fromLeSigned_le (frame.take 2) (by rw [List.length_take]; omega)
        have hsecond := abs_fromLeSigned_le (frame.drop 2) (by rw [List.length_drop]; omega)
        rw [abs_le] at hfirst hsecond
        simp only [samples16, h.2, List.map_cons, List.map_nil, List.sum_cons, List.sum_nil]
        rw [abs_le]
        constructor <;> omega
  · rename_i hbits
    have h32 : fmt.bits = 32 := by
      cases hsupported with
      | inl h => exact absurd h.2 hbits
      | inr h => exact h.2
    rw [frameBytes, h32] at hframe
    cases blocks_frame (n := 4) (by decide) hchannels hframe with
    | inl h =>
        simp only [samples32, h.2, h.1, List.map_cons, List.map_nil, List.foldl_cons,
          List.foldl_nil, average32]
        exact (Binary32.divNat_one _).trans Binary32.add_zero_left
    | inr h =>
        simp only [samples32, h.2, h.1, List.map_cons, List.map_nil, List.foldl_cons,
          List.foldl_nil, average32]
        exact congrArg (fun x => (Binary32.add x _).divNat 2) Binary32.add_zero_left

/-! ### The encoders -/

/-- The `fmt ` chunk of the encoders. -/
def encodedFmt (format bits channels : Nat) : RiffChunk where
  id := fmtId
  body := toLe 2 format ++ (toLe 2 channels ++ (toLe 4 48000 ++
    (toLe 4 (48000 * (channels * bits / 8)) ++ (toLe 2 (channels * bits / 8) ++ toLe 2 bits))))
  pad := 0
  length_id := rfl
  length_body := by simp

/-- A number in front is dropped. -/
theorem drop_toLe (n v m : Nat) (rest : List UInt8) :
    (toLe n v ++ rest).drop (n + m) = rest.drop m := by
  rw [← List.drop_drop, List.drop_left' (length_toLe n v)]

/-- The format that was written is read. -/
theorem fmt_encodedFmt {format bits channels : Nat} (hformat : format < 2 ^ 16)
    (hbits : bits < 2 ^ 16) (hchannels : channels < 2 ^ 16) :
    (encodedFmt format bits channels).fmt = ⟨format, channels, 48000, bits⟩ := by
  have hle : ∀ {n v : Nat}, v < 256 ^ n → fromLe (toLe n v) = v := fun h => fromLe_toLe_of_lt h
  have h2 : (encodedFmt format bits channels).body.drop 2 = toLe 2 channels ++ _ :=
    drop_toLe 2 format 0 _
  have h4 : (encodedFmt format bits channels).body.drop 4 = toLe 4 48000 ++ _ :=
    (drop_toLe 2 format 2 _).trans (drop_toLe 2 channels 0 _)
  have h14 : (encodedFmt format bits channels).body.drop 14 = toLe 2 bits :=
    (drop_toLe 2 format 12 _).trans ((drop_toLe 2 channels 10 _).trans
      ((drop_toLe 4 48000 6 _).trans ((drop_toLe 4 _ 2 _).trans (drop_toLe 2 _ 0 _))))
  rw [RiffChunk.fmt, Fmt.mk.injEq, h2, h4, h14]
  refine ⟨?_, ?_, ?_, ?_⟩
  · rw [encodedFmt, List.take_left' (length_toLe 2 _), hle hformat]
  · rw [List.take_left' (length_toLe 2 _), hle hchannels]
  · rw [List.take_left' (length_toLe 4 _), hle (by norm_num)]
  · rw [List.take_of_length_le (length_toLe 2 _).le, hle hbits]

/-- The bytes of the `fmt ` chunk. -/
theorem bytes_encodedFmt (format bits channels : Nat) :
    (encodedFmt format bits channels).bytes =
      fmtId ++ (toLe 4 16 ++ (encodedFmt format bits channels).body) := by
  have hlength : (encodedFmt format bits channels).body.length = 16 := by simp [encodedFmt]
  rw [RiffChunk.bytes, RiffChunk.padding, hlength, if_neg (by decide), List.append_nil]
  rfl

/-- The `data` chunk of the encoders. -/
def encodedData (bytes : List UInt8) (h : bytes.length < 2 ^ 32) : RiffChunk where
  id := dataId
  body := bytes
  pad := 0
  length_id := rfl
  length_body := h

/-- The bytes of the `data` chunk. -/
theorem bytes_encodedData {bytes : List UInt8} (h : bytes.length < 2 ^ 32)
    (heven : bytes.length % 2 = 0) :
    (encodedData bytes h).bytes = dataId ++ (toLe 4 bytes.length ++ bytes) := by
  have hodd : ¬ bytes.length % 2 = 1 := by omega
  have hpad : (encodedData bytes h).padding = [] := if_neg hodd
  rw [RiffChunk.bytes, hpad, List.append_nil]
  rfl

/-- A sample of 16 or 32 bits. -/
theorem supported_fmt {format bits : Nat}
    (h : (format = 1 ∧ bits = 16) ∨ (format = 3 ∧ bits = 32)) :
    format < 2 ^ 16 ∧ bits < 2 ^ 16 ∧ 0 < bits / 8 ∧ bits / 8 ≤ 4 ∧ bits / 8 % 2 = 0 := by
  omega

/-- What an encoder wrote is a file that the parser supports. -/
theorem exists_wavFile {α : Type} {format bits channels : Nat}
    (hsupported : (format = 1 ∧ bits = 16) ∨ (format = 3 ∧ bits = 32))
    (hchannels : channels = 1 ∨ channels = 2) {g : α → List UInt8}
    (hg : ∀ a, (g a).length = bits / 8) {samples : List α}
    (hsome : 1 ≤ samples.length / channels) (hshort : samples.length / channels ≤ 96000) :
    ∃ f : WavFile, f.bytes = wavBytes format bits 48000 channels (samples.map g) ∧
      f.fmt = ⟨format, channels, 48000, bits⟩ ∧
      f.frames = (blocks channels samples).map fun frame => frame.flatMap g := by
  obtain ⟨hformat, hbits, hpos, hsmall, heven⟩ := supported_fmt hsupported
  have hlength := length_flatMap_of_length hg samples
  -- Two seconds at 48000 Hz are few samples, so every length fits into its field.
  have hcount : samples.length < 2 ^ 18 := by
    have := Nat.lt_mul_of_div_lt (Nat.lt_succ_of_le hshort) (by omega : 0 < channels)
    have hle : channels * 96001 ≤ 2 * 96001 := Nat.mul_le_mul_right _ (by omega)
    rw [Nat.mul_comm] at this
    omega
  have hbody : (samples.flatMap g).length < 2 ^ 32 := by
    rw [hlength]
    calc samples.length * (bits / 8) ≤ 2 ^ 18 * 4 := Nat.mul_le_mul hcount.le hsmall
      _ < 2 ^ 32 := by decide
  have hframes : (samples.flatMap g).length / (channels * (bits / 8)) =
      samples.length / channels := by
    rw [hlength, Nat.mul_div_mul_right _ _ hpos]
  have hdata : dataBodies [encodedFmt format bits channels, encodedData (samples.flatMap g) hbody] =
      [samples.flatMap g] := rfl
  have hfmt : (encodedFmt format bits channels).fmt = ⟨format, channels, 48000, bits⟩ :=
    fmt_encodedFmt hformat hbits (by omega)
  have heven' : (samples.flatMap g).length % 2 = 0 := by
    rw [hlength, Nat.mul_mod, heven, Nat.mul_zero, Nat.zero_mod]
  have hbytes : riffId ++ (toLe 4 (36 + samples.length * (bits / 8)) ++ (waveId ++
      ([encodedFmt format bits channels, encodedData (samples.flatMap g) hbody].flatMap
        RiffChunk.bytes ++ []))) = wavBytes format bits 48000 channels (samples.map g) := by
    rw [List.flatMap_cons, List.flatMap_singleton, bytes_encodedFmt,
      bytes_encodedData hbody heven', hlength]
    simp [wavBytes, encodedFmt, List.flatMap_def]
  -- The file: a `fmt ` chunk, a `data` chunk, and nothing behind them.
  refine ⟨{
    size := toLe 4 (36 + samples.length * (bits / 8))
    chunks := [encodedFmt format bits channels, encodedData (samples.flatMap g) hbody]
    tail := []
    fmt := ⟨format, channels, 48000, bits⟩
    length_size := length_toLe 4 _
    long_fmt := ?_
    last_fmt := ?_
    truncated := .header [] (by decide)
    rate := rfl
    supported := hsupported
    channels := hchannels
    some_frame := ?_
    two_seconds := ?_ }, ?_, rfl, ?_⟩
  -- The only chunk with the id of the format is the first one.
  · intro c hc hid
    cases List.mem_cons.mp hc with
    | inl h =>
        rw [h]
        simp [encodedFmt]
    | inr h =>
        rw [List.mem_singleton.mp h] at hid
        exact absurd (show dataId = fmtId from hid) (by decide)
  · rw [← hfmt]
    rfl
  · rw [hdata, List.map_singleton, List.sum_singleton, frameBytes, hframes]
    exact hsome
  · rw [hdata, List.map_singleton, List.sum_singleton, frameBytes, hframes]
    exact hshort
  · exact hbytes
  · have hblocks : [samples.flatMap g].flatMap (blocks (channels * (bits / 8))) =
        (blocks channels samples).map fun frame => frame.flatMap g := by
      rw [List.flatMap_singleton, blocks_flatMap hpos hg]
    exact hblocks

theorem two_bytes : (256 ^ 2 : Nat) = 2 ^ 16 := by norm_num

/-- The two bytes of a sample give the sample back. -/
theorem fromLeSigned_toLe (s : Int16) : fromLeSigned (toLe 2 s.toUInt16.toNat) = s.toInt := by
  have hlt : s.toUInt16.toNat < 256 ^ 2 := lt_of_lt_of_eq s.toUInt16.toNat_lt two_bytes.symm
  have hbytes : fromLeSigned (toLe 2 s.toUInt16.toNat) =
      (s.toUInt16.toNat : ℤ).bmod (256 ^ 2) := by
    rw [fromLeSigned, length_toLe, fromLe_toLe_of_lt hlt]
  calc fromLeSigned (toLe 2 s.toUInt16.toNat)
      = (s.toUInt16.toNat : ℤ).bmod (256 ^ 2) := hbytes
    _ = (s.toUInt16.toNat : ℤ).bmod (2 ^ 16) := by rw [two_bytes]
    _ = s.toInt := (BitVec.toInt_eq_toNat_bmod s.toBitVec).symm

/-- Samples of 16 bits are read back. -/
theorem samples16_encoded (frame : List Int16) :
    samples16 (frame.flatMap fun s => toLe 2 s.toUInt16.toNat) = frame.map Int16.toInt := by
  rw [samples16, blocks_flatMap_self (by decide) (fun s => length_toLe 2 _), List.map_map]
  refine List.map_congr_left fun s _ => ?_
  rw [Function.comp_apply, fromLeSigned_toLe]

/-- So are samples of 32 bits. -/
theorem samples32_encoded (frame : List UInt32) :
    samples32 binary32Codec (frame.flatMap fun s => toLe 4 s.toNat) =
      frame.map fun s => .ofBits s.toNat := by
  rw [samples32, blocks_flatMap_self (by decide) (fun s => length_toLe 4 _), List.map_map]
  refine List.map_congr_left fun s _ => ?_
  rw [Function.comp_apply, fromLe_toLe_of_lt s.toNat_lt]
  rfl

/-- The frames of a file have the bytes of a frame. -/
theorem length_of_mem_blocks {n : Nat} {l b : List UInt8} (h : b ∈ blocks n l) : b.length = n := by
  obtain ⟨i, hi, rfl⟩ := List.mem_map.mp h
  have hi := List.mem_range.mp hi
  have hle : n * (i + 1) ≤ l.length :=
    (Nat.mul_le_mul_left n hi).trans (Nat.mul_div_le l.length n)
  rw [Nat.mul_succ] at hle
  rw [List.length_take, List.length_drop]
  omega

/-- Each frame of a supported file is decoded to the average of the channels. -/
theorem channelAverage_of_mem {f : WavFile} {frame : List UInt8} (h : frame ∈ f.frames) :
    ChannelAverage f.fmt frame (decodedFrame binary32Codec f.fmt frame) := by
  obtain ⟨body, -, hmem⟩ := List.mem_flatMap.mp h
  exact channelAverage_decodedFrame f.supported f.channels (length_of_mem_blocks hmem)

/-- `wav_pcm16`. -/
theorem parseWavPcm_wavPcm16 (interp : Interpolation Binary32) {channels : Nat}
    {samples : List Int16} (hchannels : channels = 1 ∨ channels = 2)
    (hsome : 1 ≤ samples.length / channels) (hshort : samples.length / channels ≤ 96000) :
    ∃ out, parseWavPcm binary32Codec interp (wavPcm16 48000 channels samples) = .ok out ∧
      out.map Binary32.toRat = (blocks channels samples).map fun frame =>
        some (((frame.map Int16.toInt).sum : ℚ) / channels / 32768) := by
  obtain ⟨f, hbytes, hfmt, hframes⟩ := exists_wavFile (.inl ⟨rfl, rfl⟩) hchannels
    (fun s : Int16 => length_toLe 2 s.toUInt16.toNat) hsome hshort
  refine ⟨_, by rw [wavPcm16, ← hbytes, parseWavPcm_bytes], ?_⟩
  have haverage : ∀ frame ∈ f.frames, (decodedFrame binary32Codec f.fmt frame).toRat =
      some (((samples16 frame).sum : ℚ) / channels / 32768) := by
    intro frame hframe
    have h := channelAverage_of_mem hframe
    have hbits : f.fmt.bits = 16 := by rw [hfmt]
    have hsame : f.fmt.channels = channels := by rw [hfmt]
    rwa [ChannelAverage, if_pos hbits, hsame] at h
  rw [List.map_map, List.map_congr_left (f := Binary32.toRat ∘ _) haverage, hframes, List.map_map]
  refine List.map_congr_left fun frame _ => ?_
  rw [Function.comp_apply, samples16_encoded]

/-- `wav_f32`. -/
theorem parseWavPcm_wavF32 (interp : Interpolation Binary32) {channels : Nat}
    {samples : List UInt32} (hchannels : channels = 1 ∨ channels = 2)
    (hsome : 1 ≤ samples.length / channels) (hshort : samples.length / channels ≤ 96000) :
    parseWavPcm binary32Codec interp (wavF32 48000 channels samples) =
      .ok ((blocks channels samples).map fun frame =>
        average32 (frame.map fun s => .ofBits s.toNat)) := by
  obtain ⟨f, hbytes, hfmt, hframes⟩ := exists_wavFile (.inr ⟨rfl, rfl⟩) hchannels
    (fun s : UInt32 => length_toLe 4 s.toNat) hsome hshort
  have haverage : ∀ frame ∈ f.frames, decodedFrame binary32Codec f.fmt frame =
      average32 (samples32 binary32Codec frame) := by
    intro frame hframe
    have h := channelAverage_of_mem hframe
    have hbits : f.fmt.bits = 32 := by rw [hfmt]
    rwa [ChannelAverage, if_neg (by rw [hbits]; decide)] at h
  rw [wavF32, ← hbytes, parseWavPcm_bytes, List.map_congr_left haverage, hframes, List.map_map]
  congr 1
  refine List.map_congr_left fun frame _ => ?_
  rw [Function.comp_apply, samples32_encoded]

/-- `parse_wav_pcm` decodes what an encoder wrote. A supported file at 48 kHz is decoded to one
sample for each frame of its complete data chunks, the average of the channels. What `wav_pcm16` and
`wav_f32` wrote is decoded to the averages of their samples, and with one channel to the samples. -/
theorem parseWavPcm_encoded (interp : Interpolation Binary32) :
    (∀ f : WavFile, ∃ out, parseWavPcm binary32Codec interp f.bytes = .ok out ∧
      List.Forall₂ (ChannelAverage f.fmt) f.frames out) ∧
    (∀ (channels : Nat) (samples : List Int16), channels = 1 ∨ channels = 2 →
      1 ≤ samples.length / channels → samples.length / channels ≤ 96000 →
      ∃ out, parseWavPcm binary32Codec interp (wavPcm16 48000 channels samples) = .ok out ∧
        out.map Binary32.toRat = (blocks channels samples).map fun frame =>
          some (((frame.map Int16.toInt).sum : ℚ) / channels / 32768)) ∧
    (∀ (channels : Nat) (samples : List UInt32), channels = 1 ∨ channels = 2 →
      1 ≤ samples.length / channels → samples.length / channels ≤ 96000 →
      parseWavPcm binary32Codec interp (wavF32 48000 channels samples) =
        .ok ((blocks channels samples).map fun frame =>
          average32 (frame.map fun s => .ofBits s.toNat))) ∧
    ∀ samples : List UInt32, 1 ≤ samples.length → samples.length ≤ 96000 →
      parseWavPcm binary32Codec interp (wavF32 48000 1 samples) =
        .ok (samples.map fun s => .ofBits s.toNat) := by
  refine ⟨?_, ?_, ?_, ?_⟩
  · intro f
    refine ⟨_, parseWavPcm_bytes _ _ f, ?_⟩
    rw [List.forall₂_map_right_iff, List.forall₂_same]
    exact fun frame hframe => channelAverage_of_mem hframe
  · exact fun channels samples => parseWavPcm_wavPcm16 interp
  · exact fun channels samples => parseWavPcm_wavF32 interp
  · intro samples hsome hshort
    rw [parseWavPcm_wavF32 interp (.inl rfl) (by rwa [Nat.div_one]) (by rwa [Nat.div_one]),
      blocks_one, List.map_map]
    rfl

/-- A file with the chunks in another order, an unknown chunk of odd size and a truncated end. -/
def mixedFile : WavFile where
  size := [0, 0, 0, 0]
  chunks := [encodedData (toLe 2 16384) (by decide),
    { id := [0x4C, 0x49, 0x53, 0x54], body := [1], pad := 0, length_id := rfl,
      length_body := by decide },
    encodedFmt 1 16 1]
  tail := dataId ++ (toLe 4 2 ++ [0])
  fmt := ⟨1, 1, 48000, 16⟩
  length_size := rfl
  long_fmt := by decide
  last_fmt := by decide
  truncated := .body dataId [0] 2 rfl (by decide) (by decide)
  rate := rfl
  supported := .inl ⟨rfl, rfl⟩
  channels := .inl rfl
  some_frame := by decide
  two_seconds := by decide

/-- Nothing is resampled at 48 kHz. -/
def unusedInterpolation : Interpolation Binary32 where
  zero := .ofRat 0
  add x _ := x
  sub x _ := x
  mul x _ := x
  ofRat := .ofRat

/-- The frame of its complete data chunk is decoded. -/
theorem parseWavPcm_mixedFile :
    ∃ out, parseWavPcm binary32Codec unusedInterpolation mixedFile.bytes = .ok out ∧
      List.Forall₂ (ChannelAverage ⟨1, 1, 48000, 16⟩) [toLe 2 16384] out :=
  (parseWavPcm_encoded unusedInterpolation).1 mixedFile

end Nek0.Proofs.Audio
