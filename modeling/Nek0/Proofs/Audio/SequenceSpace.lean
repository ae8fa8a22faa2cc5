import Nek0.Audio.JitterBuffer

/-!
# `Nek0.Proofs.Audio.SequenceSpace`: the sequence arithmetic in `Nat`

The jitter buffer computes in `u16`, `u32` and `u64` with wrapping operators. This module
states each computation as a fact about `toNat`, so that later proofs are linear arithmetic.

* `unwrapSeq_toNat`: `unwrapSeq` adds the forward distance, except at distance 32768.
* `baseSeq_packBase` / `baseSlot_packBase`: the packed base reads back, when the slot fits in 32
  bits.
-/

set_option autoImplicit false

namespace Nek0.Proofs.Audio

open Nek0.Audio

/-- The sign-extended distance: below 32768 it is the distance, from 32768 on it is negative. -/
private theorem signedDelta_toInt (x : UInt16) :
    x.toInt16.toInt32.toInt
      = if x.toNat < 32768 then (x.toNat : Int) else (x.toNat : Int) - 65536 := by
  have hlt := x.toNat_lt
  rw [Int16.toInt_toInt32]
  show x.toBitVec.toInt = _
  rw [BitVec.toInt_eq_toNat_cond, show x.toBitVec.toNat = x.toNat from rfl]
  split <;> split <;> omega

/-- A signed 32-bit integer read as unsigned. -/
private theorem int32_toUInt32_toNat (x : Int32) :
    (x.toUInt32.toNat : Int) = if 0 ≤ x.toInt then x.toInt else x.toInt + 2 ^ 32 := by
  have hlt := x.toBitVec.isLt
  rw [show x.toUInt32.toNat = x.toBitVec.toNat from rfl,
    show x.toInt = x.toBitVec.toInt from rfl, BitVec.toInt_eq_toNat_cond]
  split <;> split <;> omega

/-- `unwrapSeq` places a packet at its forward distance from the base. The one exception is the
distance 32768, which lands 32768 below the base. -/
theorem unwrapSeq_toNat (seq base : UInt16) :
    (unwrapSeq seq base).toNat =
      if (seq - base).toNat = 32768 then (base.toNat + (2 ^ 32 - 32768)) % 2 ^ 32
      else base.toNat + (seq - base).toNat := by
  have hdelta := signedDelta_toInt (seq - base)
  have hcast := int32_toUInt32_toNat (seq - base).toInt16.toInt32
  have hlt := (seq - base).toNat_lt
  have hbase := base.toNat_lt
  have h0 : (0 : Int32).toInt = 0 := rfl
  have hm : (-32768 : Int32).toInt = -32768 := rfl
  have h65536 : (65536 : UInt32).toNat = 65536 := rfl
  unfold unwrapSeq
  simp only [ge_iff_le, gt_iff_lt, Int32.le_iff_toInt_le, Int32.lt_iff_toInt_lt, h0, hm]
  split
  · rw [UInt32.toNat_add, UInt16.toNat_toUInt32]
    split at hdelta <;> split at hcast <;> split <;> omega
  · split
    · rw [UInt32.toNat_add, UInt32.toNat_add, UInt16.toNat_toUInt32, h65536]
      split at hdelta <;> split at hcast <;> split <;> omega
    · rw [UInt32.toNat_add, UInt16.toNat_toUInt32]
      split at hdelta <;> split at hcast <;> split <;> omega

/-- The `u16` difference of two truncated sequence numbers, when the first is ahead by less than
65536. -/
theorem toNat_ofNat_sub_ofNat {a b : Nat} (hba : b ≤ a) (hlt : a - b < 65536) :
    (UInt16.ofNat a - UInt16.ofNat b).toNat = a - b := by
  rw [UInt16.toNat_sub, UInt16.toNat_ofNat', UInt16.toNat_ofNat']
  omega

/-! ### The packed base -/

/-- `packBase` as a number: the two halves, or-ed. -/
theorem packBase_toNat (seq : UInt32) (slot : UInt64) :
    (packBase seq slot).toNat = seq.toNat * 2 ^ 32 ||| slot.toNat := by
  have hseq := seq.toNat_lt
  unfold packBase
  rw [UInt64.toNat_or, UInt64.toNat_shiftLeft, UInt32.toNat_toUInt64,
    show (32 : UInt64).toNat % 64 = 32 from rfl, Nat.shiftLeft_eq]
  congr 1
  exact Nat.mod_eq_of_lt (by omega)

/-- With a slot of at most 32 bits the halves do not overlap. -/
theorem packBase_toNat_of_lt (seq : UInt32) {slot : UInt64} (h : slot.toNat < 2 ^ 32) :
    (packBase seq slot).toNat = seq.toNat * 2 ^ 32 + slot.toNat := by
  rw [packBase_toNat, Nat.mul_comm, Nat.two_pow_add_eq_or_of_lt h]

section
variable {Frame : Type}

/-- The high half of the base, as a number. -/
theorem baseSeq_toNat (buf : ClientJitterBuffer Frame) :
    buf.baseSeq.toNat = buf.basePair.toNat / 2 ^ 32 := by
  have hlt := buf.basePair.toNat_lt
  unfold ClientJitterBuffer.baseSeq
  rw [UInt64.toNat_toUInt32, UInt64.toNat_shiftRight, show (32 : UInt64).toNat % 64 = 32 from rfl,
    Nat.shiftRight_eq_div_pow]
  exact Nat.mod_eq_of_lt (by omega)

/-- The low half of the base, as a number. -/
theorem baseSlot_toNat (buf : ClientJitterBuffer Frame) :
    buf.baseSlot.toNat = buf.basePair.toNat % 2 ^ 32 := by
  unfold ClientJitterBuffer.baseSlot
  rw [UInt64.toNat_and, show (0xFFFFFFFF : UInt64).toNat = 2 ^ 32 - 1 from rfl,
    Nat.and_two_pow_sub_one_eq_mod]

/-- The sequence half of a base packed with a 32-bit slot. -/
theorem baseSeq_packBase {buf : ClientJitterBuffer Frame} {seq : UInt32} {slot : UInt64}
    (hpair : buf.basePair = packBase seq slot) (h : slot.toNat < 2 ^ 32) :
    buf.baseSeq.toNat = seq.toNat := by
  rw [baseSeq_toNat, hpair, packBase_toNat_of_lt seq h]
  omega

/-- The slot half of a base packed with a 32-bit slot. -/
theorem baseSlot_packBase {buf : ClientJitterBuffer Frame} {seq : UInt32} {slot : UInt64}
    (hpair : buf.basePair = packBase seq slot) (h : slot.toNat < 2 ^ 32) :
    buf.baseSlot.toNat = slot.toNat := by
  rw [baseSlot_toNat, hpair, packBase_toNat_of_lt seq h]
  omega

end

end Nek0.Proofs.Audio
