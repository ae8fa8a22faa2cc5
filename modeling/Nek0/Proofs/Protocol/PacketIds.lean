import Nek0.Protocol.Codec

/-!
# `Nek0.Proofs.Protocol.PacketIds`: packet ids are numbers

Packets are numbered on. An id and a generation are the lower and the upper part of the number
(`ofNumber`). For numbers below 2 ^ 48 an id that is in the receive window with the right generation
belongs to one of the next 32767 packets, and each of these is in the window
(`inReceiveWindow_iff`).
-/

set_option autoImplicit false

namespace Nek0.Proofs.Protocol

open Nek0.Protocol

/-- The id of the packet with this number. -/
def ofNumber (n : Nat) : PartialPacketId := ⟨.ofNat (n / 2 ^ 16), .ofNat n⟩

/-- The numbers whose generations do not wrap, nor those of the window behind them. -/
def numberLimit : Nat := 2 ^ 48 - 2 ^ 16

theorem toNat_packetId (n : Nat) : (ofNumber n).packetId.toNat = n % 2 ^ 16 := UInt16.toNat_ofNat'

theorem toNat_generationId {n : Nat} (h : n < 2 ^ 48) :
    (ofNumber n).generationId.toNat = n / 2 ^ 16 := by
  show (UInt32.ofNat (n / 2 ^ 16)).toNat = _
  rw [UInt32.toNat_ofNat', Nat.mod_eq_of_lt (by omega)]

/-- The next number has the next id. -/
theorem ofNumber_add_one {n : Nat} (h : n < numberLimit) :
    (ofNumber n).add 1 = ofNumber (n + 1) := by
  have hlt : n < 2 ^ 48 := h.trans (by decide)
  have hid := toNat_packetId n
  have hone : (1 : UInt16).toNat = 1 := rfl
  rw [PartialPacketId.add, hid, hone]
  have hpacket : (ofNumber n).packetId + 1 = (ofNumber (n + 1)).packetId := by
    apply UInt16.toNat_inj.mp
    rw [UInt16.toNat_add, hid, hone, toNat_packetId]
    omega
  have hgen : (if n % 2 ^ 16 + 1 < 2 ^ 16 then (ofNumber n).generationId
      else (ofNumber n).generationId + 1) = (ofNumber (n + 1)).generationId := by
    apply UInt32.toNat_inj.mp
    have hnext : n + 1 < 2 ^ 48 := by
      rw [numberLimit] at h
      omega
    rw [toNat_generationId hnext]
    split
    · rw [toNat_generationId hlt]
      omega
    · rw [UInt32.toNat_add, toNat_generationId hlt]
      show (n / 2 ^ 16 + 1) % 2 ^ 32 = _
      rw [numberLimit] at h
      omega
  rw [hpacket, hgen]

/-- Equal ids of numbers that are close are ids of equal numbers. -/
theorem packetId_inj {n m : Nat} (h : (ofNumber n).packetId = (ofNumber m).packetId)
    (hle : n ≤ m) (hclose : m < n + 2 ^ 16) : n = m := by
  have hmod := congrArg UInt16.toNat h
  rw [toNat_packetId, toNat_packetId] at hmod
  omega

/-- Ids in a range of less than half of the ids, by how far they are from its start. -/
theorem inRange_iff (cur n : Nat) {len : UInt16} (h : len.toNat < 2 ^ 15) :
    inRange (ofNumber cur).packetId len (ofNumber n).packetId = true ↔
      (n % 2 ^ 16 + 2 ^ 16 - cur % 2 ^ 16) % 2 ^ 16 < len.toNat := by
  have hcur := toNat_packetId cur
  have hid := toNat_packetId n
  have hlimit : ((ofNumber cur).packetId + len).toNat = (cur % 2 ^ 16 + len.toNat) % 2 ^ 16 := by
    rw [UInt16.toNat_add, hcur]
  have hge : ((ofNumber n).packetId ≥ (ofNumber cur).packetId) ↔
      cur % 2 ^ 16 ≤ n % 2 ^ 16 := by
    rw [ge_iff_le, UInt16.le_iff_toNat_le, hcur, hid]
  have hlt : ((ofNumber n).packetId < (ofNumber cur).packetId + len) ↔
      n % 2 ^ 16 < (cur % 2 ^ 16 + len.toNat) % 2 ^ 16 := by
    rw [UInt16.lt_iff_toNat_lt, hlimit, hid]
  simp only [inRange, limitOf, hcur, decide_eq_decide.mpr hge, decide_eq_decide.mpr hlt]
  have hcurlt := Nat.mod_lt cur (by decide : 0 < 2 ^ 16)
  have hnlt := Nat.mod_lt n (by decide : 0 < 2 ^ 16)
  -- The rest is about the two remainders.
  clear hcur hid hlimit hge hlt
  generalize cur % 2 ^ 16 = c at *
  generalize n % 2 ^ 16 = k at *
  by_cases hnext : 2 ^ 16 ≤ c + len.toNat
  · simp only [decide_eq_true hnext, Bool.not_true, Bool.false_and, Bool.false_or, Bool.true_and,
      Bool.or_eq_true, decide_eq_true_eq]
    omega
  · simp only [decide_eq_false hnext, Bool.not_false, Bool.false_and, Bool.or_false, Bool.true_and,
      Bool.and_eq_true, decide_eq_true_eq]
    omega

/-- A packet of a close number is in a range if its number is. -/
theorem inRange_iff_of_window {cur n : Nat} {len : UInt16} (h : len.toNat < 2 ^ 15) (hle : cur ≤ n)
    (hclose : n < cur + 2 ^ 15) :
    inRange (ofNumber cur).packetId len (ofNumber n).packetId = true ↔ n < cur + len.toNat := by
  rw [inRange_iff cur n h]
  omega

/-- The packets that pass the window and are decrypted with their own generation are the next 32767
ones. -/
theorem inReceiveWindow_iff {cur n : Nat} (hcur : cur < numberLimit) (hn : n < numberLimit) :
    inReceiveWindow (ofNumber cur) (ofNumber n).packetId = (true, (ofNumber n).generationId) ↔
      cur ≤ n ∧ n < cur + 32767 := by
  -- Half of the ids are in the window. The ids wrap, so both sides are compared as remainders.
  have hlen : (0xffff / 2 : UInt16).toNat = 32767 := rfl
  have hrange := @inRange_iff cur n (0xffff / 2) (by decide)
  rw [hlen] at hrange
  have hlimit : ((ofNumber cur).packetId + 0xffff / 2).toNat = (cur % 2 ^ 16 + 32767) % 2 ^ 16 := by
    rw [UInt16.toNat_add, toNat_packetId, hlen]
  have hlt : ((ofNumber n).packetId < (ofNumber cur).packetId + 0xffff / 2) ↔
      n % 2 ^ 16 < (cur % 2 ^ 16 + 32767) % 2 ^ 16 := by
    rw [UInt16.lt_iff_toNat_lt, hlimit, toNat_packetId]
  have hgencur := toNat_generationId (n := cur) (by rw [numberLimit] at hcur; omega)
  have hgenn := toNat_generationId (n := n) (by rw [numberLimit] at hn; omega)
  have hgensucc : ((ofNumber cur).generationId + 1).toNat = cur / 2 ^ 16 + 1 := by
    rw [UInt32.toNat_add, hgencur]
    show (cur / 2 ^ 16 + 1) % 2 ^ 32 = _
    rw [numberLimit] at hcur
    omega
  -- The generation is a comparison of numbers, too.
  have hgen : (if decide (2 ^ 16 ≤ cur % 2 ^ 16 + 32767) &&
        decide ((ofNumber n).packetId < (ofNumber cur).packetId + 0xffff / 2) then
        (ofNumber cur).generationId + 1 else (ofNumber cur).generationId) =
        (ofNumber n).generationId ↔
      (if 2 ^ 16 ≤ cur % 2 ^ 16 + 32767 ∧ n % 2 ^ 16 < (cur % 2 ^ 16 + 32767) % 2 ^ 16 then
        cur / 2 ^ 16 + 1 else cur / 2 ^ 16) = n / 2 ^ 16 := by
    rw [← UInt32.toNat_inj, hgenn, apply_ite UInt32.toNat, hgencur, hgensucc]
    simp only [Bool.and_eq_true, decide_eq_true_eq, hlt]
  rw [inReceiveWindow]
  simp only [limitOf, toNat_packetId, hlen, Prod.mk.injEq]
  constructor
  -- The id is in the window and its generation is the right one: the numbers are that close.
  · rintro ⟨hin, hg⟩
    rw [if_pos hin] at hg
    have hd := hrange.mp hin
    have hg' := hgen.mp hg
    split at hg' <;> omega
  · rintro ⟨hle, hclose⟩
    have hin := hrange.mpr (by omega)
    refine ⟨hin, ?_⟩
    rw [if_pos hin]
    refine hgen.mpr ?_
    split <;> omega

end Nek0.Proofs.Protocol
