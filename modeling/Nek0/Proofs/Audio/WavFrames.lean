import Nek0.Audio.Wav
import Nek0.Lib.Blocks

/-!
# `Nek0.Proofs.Audio.WavFrames`: what a data chunk is decoded to

The loops of `decode` access a chunk by index. `decode_of_supported` says what comes out: one sample
for each whole frame of the chunk, from the samples of its channels. No access is out of range.
-/

set_option autoImplicit false

namespace Nek0.Proofs.Audio

open Nek0.Lib.LittleEndian Nek0.Lib.Blocks Nek0.Audio

variable {α β F : Type}

/-! ### Outcomes -/

@[simp]
theorem ok_bind (a : α) (f : α → Parsed β) : (Parsed.ok a >>= f) = f a := rfl

@[simp]
theorem pure_eq_ok (a : α) : (pure a : Parsed α) = .ok a := rfl

instance : LawfulMonad Parsed :=
  LawfulMonad.mk' Parsed (fun x => by cases x <;> rfl) (fun _ _ => rfl)
    (fun x _ _ => by cases x <;> rfl)

/-- A loop whose rounds succeed maps. -/
theorem mapM_ok {f : α → Parsed β} {g : α → β} {l : List α} (h : ∀ a ∈ l, f a = .ok (g a)) :
    l.mapM f = .ok (l.map g) := by
  induction l with
  | nil => rfl
  | cons a l ih =>
      rw [List.mapM_cons, h a List.mem_cons_self, ok_bind,
        ih fun b hb => h b (List.mem_cons_of_mem a hb)]
      rfl

/-- A loop whose rounds succeed folds. -/
theorem foldlM_ok {f : β → α → Parsed β} {g : β → α → β} {l : List α}
    (h : ∀ a ∈ l, ∀ b, f b a = .ok (g b a)) (b : β) : l.foldlM f b = .ok (l.foldl g b) := by
  induction l generalizing b with
  | nil => rfl
  | cons a l ih =>
      rw [List.foldlM_cons, h a List.mem_cons_self, ok_bind,
        ih fun b hb => h b (List.mem_cons_of_mem a hb)]
      rfl

/-! ### Accesses -/

theorem slice_ok {data : List UInt8} {a b : Nat} (hab : a ≤ b) (hb : b ≤ data.length) :
    slice data a b = .ok ((data.drop a).take (b - a)) := if_pos ⟨hab, hb⟩

theorem byteAt_ok {data : List UInt8} {i : Nat} (h : i < data.length) :
    byteAt data i = .ok data[i] := by
  rw [byteAt, List.getElem?_eq_getElem h]

theorem tryInto_ok {n : Nat} {bytes : List UInt8} (h : bytes.length = n) (e : WavError) :
    tryInto n bytes e = .ok bytes := if_pos h

theorem take_two {data : List UInt8} {i : Nat} (h : i + 1 < data.length) :
    (data.drop i).take 2 = [data[i], data[i + 1]] := by
  rw [List.drop_eq_getElem_cons (by omega), List.drop_eq_getElem_cons h]
  rfl

/-- A part of a block is a part of the list. -/
theorem drop_take_drop {data : List UInt8} {a n j k : Nat} (h : j + k ≤ n) :
    (((data.drop a).take n).drop j).take k = (data.drop (a + j)).take k := by
  rw [List.drop_take, List.take_take, List.drop_drop, min_eq_left (by omega)]

/-! ### Frames -/

/-- The samples of a frame of PCM 16-bit, one for each channel. -/
def samples16 (block : List UInt8) : List Int := (blocks 2 block).map fromLeSigned

/-- The samples of a frame of float32. -/
def samples32 (codec : Codec F) (block : List UInt8) : List F :=
  (blocks 4 block).map fun b => codec.ofBits (fromLe b)

/-- What a frame is decoded to. -/
def decodedFrame (codec : Codec F) (fmt : Fmt) (block : List UInt8) : F :=
  if fmt.bits = 16 then
    codec.div (codec.div (codec.ofInt (samples16 block).sum) fmt.channels) 32768
  else codec.div ((samples32 codec block).foldl codec.add codec.zero) fmt.channels

/-- The bytes of a frame. -/
def frameBytes (fmt : Fmt) : Nat := fmt.channels * (fmt.bits / 8)

/-- What a chunk is decoded to. -/
def decodedFrames (codec : Codec F) (fmt : Fmt) (chunk : List UInt8) : List F :=
  (blocks (frameBytes fmt) chunk).map (decodedFrame codec fmt)

/-- PCM 16-bit or IEEE float32. -/
def Supported (fmt : Fmt) : Prop :=
  (fmt.format = 1 ∧ fmt.bits = 16) ∨ (fmt.format = 3 ∧ fmt.bits = 32)

/-- The blocks of a block of `channels * n` bytes. -/
theorem blocks_block {data : List UInt8} {a channels n : Nat} (hn : 0 < n)
    (h : a + channels * n ≤ data.length) :
    blocks n ((data.drop a).take (channels * n)) =
      (List.range channels).map fun ch => (data.drop (a + n * ch)).take n := by
  have hlength : ((data.drop a).take (channels * n)).length = channels * n := by
    rw [List.length_take, List.length_drop]
    omega
  rw [blocks, hlength, Nat.mul_div_cancel _ hn]
  refine List.map_congr_left fun ch hch => drop_take_drop ?_
  have hch := List.mem_range.mp hch
  calc n * ch + n = n * (ch + 1) := (Nat.mul_succ n ch).symm
    _ ≤ n * channels := Nat.mul_le_mul_left n hch
    _ = channels * n := Nat.mul_comm n channels

/-- A frame of 16 bits inside of the chunk is decoded. -/
theorem frame16_ok (codec : Codec F) {fmt : Fmt} {chunk : List UInt8} {f : Nat}
    (hbits : fmt.bits = 16) (hf : f * (fmt.channels * 2) + fmt.channels * 2 ≤ chunk.length) :
    frame16 codec fmt.channels chunk f = .ok (decodedFrame codec fmt
      ((chunk.drop (f * (fmt.channels * 2))).take (fmt.channels * 2))) := by
  have hsum : (List.range fmt.channels).foldlM (fun (sum : Int) ch => do
      let v := fromLeSigned [← byteAt chunk (f * (fmt.channels * 2) + ch * 2),
        ← byteAt chunk (f * (fmt.channels * 2) + ch * 2 + 1)]
      pure (sum + v)) 0 =
      .ok ((samples16 ((chunk.drop (f * (fmt.channels * 2))).take (fmt.channels * 2))).sum) := by
    rw [foldlM_ok (g := fun (sum : Int) ch => sum +
      fromLeSigned ((chunk.drop (f * (fmt.channels * 2) + 2 * ch)).take 2))]
    · rw [samples16, blocks_block (by decide) hf, List.sum_eq_foldl, List.foldl_map, List.foldl_map]
    · intro ch hch sum
      have hch := List.mem_range.mp hch
      have hlast : f * (fmt.channels * 2) + ch * 2 + 1 < chunk.length := by omega
      rw [byteAt_ok (by omega), byteAt_ok hlast, Nat.mul_comm 2 ch, take_two hlast]
      rfl
  rw [decodedFrame, if_pos hbits]
  exact congrArg (· >>= _) hsum

/-- So is a frame of 32 bits. -/
theorem frame32_ok (codec : Codec F) {fmt : Fmt} {chunk : List UInt8} {f : Nat}
    (hbits : fmt.bits ≠ 16) (hf : f * (fmt.channels * 4) + fmt.channels * 4 ≤ chunk.length) :
    frame32 codec fmt.channels chunk f = .ok (decodedFrame codec fmt
      ((chunk.drop (f * (fmt.channels * 4))).take (fmt.channels * 4))) := by
  have hsum : (List.range fmt.channels).foldlM (fun sum ch => do
      let v := codec.ofBits (fromLe (← tryInto 4 (← slice chunk (f * (fmt.channels * 4) + ch * 4)
        (f * (fmt.channels * 4) + ch * 4 + 4)) .badFloatSample))
      pure (codec.add sum v)) codec.zero =
      .ok ((samples32 codec ((chunk.drop (f * (fmt.channels * 4))).take (fmt.channels * 4))).foldl
        codec.add codec.zero) := by
    rw [foldlM_ok (g := fun sum ch => codec.add sum
      (codec.ofBits (fromLe ((chunk.drop (f * (fmt.channels * 4) + 4 * ch)).take 4))))]
    · rw [samples32, blocks_block (by decide) hf, List.foldl_map, List.foldl_map]
    · intro ch hch sum
      have hch := List.mem_range.mp hch
      rw [slice_ok (by omega) (by omega), ok_bind, tryInto_ok, Nat.mul_comm 4 ch,
        Nat.add_sub_cancel_left]
      · rfl
      · rw [List.length_take, List.length_drop]
        omega
  rw [decodedFrame, if_neg hbits]
  exact congrArg (· >>= _) hsum

/-- The frames that are decoded one by one are the blocks of the chunk. -/
theorem mapM_frames {g : List UInt8 → F} {frame : List UInt8 → Nat → Parsed F}
    {chunk : List UInt8} {n : Nat}
    (h : ∀ f, f * n + n ≤ chunk.length → frame chunk f = .ok (g ((chunk.drop (f * n)).take n))) :
    (List.range (chunk.length / n)).mapM (frame chunk) = .ok ((blocks n chunk).map g) := by
  rw [mapM_ok (g := fun f => g ((chunk.drop (n * f)).take n)), blocks, List.map_map]
  · rfl
  · intro f hf
    rw [Nat.mul_comm n f]
    refine h f ?_
    calc f * n + n = (f + 1) * n := (Nat.succ_mul f n).symm
      _ ≤ chunk.length / n * n := Nat.mul_le_mul_right n (List.mem_range.mp hf)
      _ ≤ chunk.length := Nat.div_mul_le_self _ _

/-- A chunk of a supported encoding is decoded frame by frame. -/
theorem decode_of_supported (codec : Codec F) {fmt : Fmt} (h : Supported fmt)
    (chunk : List UInt8) : decode codec fmt chunk = .ok (decodedFrames codec fmt chunk) := by
  unfold decode
  cases h with
  | inl h =>
      rw [if_pos h, decodedFrames, frameBytes, h.2]
      exact mapM_frames fun f hf => frame16_ok codec h.2 hf
  | inr h =>
      have hbits : fmt.bits ≠ 16 := by omega
      rw [if_neg (fun h16 => hbits h16.2), if_pos h, decodedFrames, frameBytes, h.2]
      exact mapM_frames fun f hf => frame32_ok codec hbits hf

/-- A format that is not supported is an error. -/
theorem decode_of_not_supported (codec : Codec F) {fmt : Fmt} (h : ¬ Supported fmt)
    (chunk : List UInt8) :
    decode codec fmt chunk = .err (.encoding fmt.format fmt.bits) := by
  rw [Supported, not_or] at h
  rw [decode, if_neg h.1, if_neg h.2]

end Nek0.Proofs.Audio
