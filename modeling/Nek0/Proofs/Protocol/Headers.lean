import Nek0.Protocol.Init
import Nek0.Protocol.Voice
import Mathlib.Data.List.GetD

/-!
# `Nek0.Proofs.Protocol.Headers`: header fields are independent of each other

Each setter of `OutPacket` changes its own field of the header and no other one (`fields_packetId`
and so on): flags and type share a byte. What is sent is received with the same fields and content
(`tryNew_data`).
-/

set_option autoImplicit false

namespace Nek0.Proofs.Protocol

open Nek0.Protocol
open Nek0.Lib.BigEndian

/-! ### Halves of a byte -/

/-- Bits outside of a mask do not count. -/
theorem or_and_of_and_eq_zero {a b mask : UInt8} (h : a &&& mask = 0) :
    (a ||| b) &&& mask = b &&& mask := by
  apply UInt8.eq_of_toBitVec_eq
  have ha : a.toBitVec &&& mask.toBitVec = 0 := congrArg UInt8.toBitVec h
  show (a.toBitVec ||| b.toBitVec) &&& mask.toBitVec = b.toBitVec &&& mask.toBitVec
  rw [BitVec.and_or_distrib_right, ha]
  exact BitVec.zero_or

theorem and_and_eq_zero (a : UInt8) {b mask : UInt8} (h : b &&& mask = 0) :
    a &&& b &&& mask = 0 := by
  rw [UInt8.and_assoc, h, UInt8.and_zero]

@[simp]
theorem packetTypeFromU8_toU8 (t : PacketType) : PacketType.fromU8 t.toU8 = some t := by
  cases t <;> rfl

@[simp]
theorem codecTypeFromU8_toU8 (c : CodecType) : CodecType.fromU8 c.toU8 = some c := by
  cases c <;> rfl

/-- Flags are the bits of a byte under four masks. -/
theorem fromBits_congr {a b : UInt8} (h80 : a &&& 0x80 = b &&& 0x80) (h40 : a &&& 0x40 = b &&& 0x40)
    (h20 : a &&& 0x20 = b &&& 0x20) (h10 : a &&& 0x10 = b &&& 0x10) :
    Flags.fromBits a = Flags.fromBits b := by
  rw [Flags.fromBits, Flags.fromBits, h80, h40, h20, h10]

theorem fromBits_bits (f : Flags) : Flags.fromBits f.bits = f := by
  obtain ⟨u, c, n, g⟩ := f
  revert u c n g
  decide

theorem fromBits_or_bits (b : UInt8) (f : Flags) : Flags.fromBits (b &&& 0xf ||| f.bits) = f := by
  have hlow : ∀ {mask : UInt8}, (0xf : UInt8) &&& mask = 0 →
      (b &&& 0xf ||| f.bits) &&& mask = f.bits &&& mask :=
    fun h => or_and_of_and_eq_zero (and_and_eq_zero b h)
  exact (fromBits_congr (hlow rfl) (hlow rfl) (hlow rfl) (hlow rfl)).trans (fromBits_bits f)

/-- The bits of the flags and of the packet type do not overlap. -/
theorem and_lower_or_bits (b : UInt8) (f : Flags) :
    (b &&& 0xf ||| f.bits) &&& 0xf = b &&& 0xf := by
  have hbits : f.bits &&& 0xf = 0 := by
    obtain ⟨u, c, n, g⟩ := f
    revert u c n g
    decide
  rw [UInt8.or_comm, or_and_of_and_eq_zero hbits, UInt8.and_assoc]
  rfl

/-- The packet type does not touch the flags. -/
theorem fromBits_or_toU8 (b : UInt8) (t : PacketType) :
    Flags.fromBits (b &&& 0xf0 ||| t.toU8) = Flags.fromBits b := by
  -- A type has no bit in the upper half.
  have hup : ∀ {mask : UInt8}, t.toU8 &&& mask = 0 → (0xf0 : UInt8) &&& mask = mask →
      (b &&& 0xf0 ||| t.toU8) &&& mask = b &&& mask := by
    intro mask ht hmask
    rw [UInt8.or_comm, or_and_of_and_eq_zero ht, UInt8.and_assoc, hmask]
  exact fromBits_congr (hup (by cases t <;> rfl) rfl) (hup (by cases t <;> rfl) rfl)
    (hup (by cases t <;> rfl) rfl) (hup (by cases t <;> rfl) rfl)

theorem and_lower_or_toU8 (b : UInt8) (t : PacketType) :
    (b &&& 0xf0 ||| t.toU8) &&& 0xf = t.toU8 := by
  rw [or_and_of_and_eq_zero (and_and_eq_zero b rfl)]
  cases t <;> rfl

/-! ### Bytes that are written over others -/

section Overwrite

variable {data bytes : List UInt8} {i j : Nat}

theorem getD_overwrite_of_lt (hj : j < i) (h : i ≤ data.length) :
    (overwrite data i bytes).getD j 0 = data.getD j 0 := by
  rw [overwrite, List.append_assoc, List.getD_append _ _ _ _ (by rw [List.length_take]; omega),
    List.getD_eq_getElem?_getD, List.getElem?_take_of_lt hj, List.getD_eq_getElem?_getD]

/-- Behind the overwritten bytes nothing changes. -/
theorem getD_overwrite_of_ge (hj : i + bytes.length ≤ j) (h : i ≤ data.length) :
    (overwrite data i bytes).getD j 0 = data.getD j 0 := by
  have hlen : (data.take i ++ bytes).length = i + bytes.length := by
    rw [List.length_append, List.length_take, Nat.min_eq_left h]
  rw [overwrite, List.getD_append_right _ _ _ _ (by omega), hlen, List.getD_eq_getElem?_getD,
    List.getElem?_drop, List.getD_eq_getElem?_getD, Nat.add_sub_cancel' hj]

theorem getD_overwrite_add (hj : j < bytes.length) (h : i ≤ data.length) :
    (overwrite data i bytes).getD (i + j) 0 = bytes.getD j 0 := by
  have hlen : (data.take i).length = i := by rw [List.length_take, Nat.min_eq_left h]
  rw [overwrite, List.append_assoc, List.getD_append_right _ _ _ _ (by omega), hlen,
    Nat.add_sub_cancel_left, List.getD_append _ _ _ _ hj]

theorem take_overwrite (hj : j ≤ i) (h : i ≤ data.length) :
    (overwrite data i bytes).take j = data.take j := by
  rw [overwrite, List.append_assoc,
    List.take_append_of_le_length (by rw [List.length_take]; omega), List.take_take,
    Nat.min_eq_left hj]

theorem take_overwrite_zero (h : bytes.length = j) : (overwrite data 0 bytes).take j = bytes := by
  rw [overwrite, List.take_zero, List.nil_append, List.take_left' h]

end Overwrite

/-- The two bytes of a number, read one by one. -/
theorem ofNat_fromBe_writeU16 (v : UInt16) :
    UInt16.ofNat (fromBe [(writeU16 v).getD 0 0, (writeU16 v).getD 1 0]) = v := by
  have hbytes : [(writeU16 v).getD 0 0, (writeU16 v).getD 1 0] = toBe 2 v.toNat := rfl
  rw [hbytes, fromBe_toBe_of_lt v.toNat_lt, UInt16.ofNat_toNat]

/-! ### Setters -/

section Setters

variable (p : OutPacket)

/-- Setting the mac changes this field of the header, and no other. -/
theorem fields_setMac (mac : Bytes 8) :
    (p.setMac mac).fields = { p.fields with mac := mac.val } := by
  have hlen := p.complete
  have hmac : mac.val.length = 8 := mac.2
  have hkeep : ∀ j, 8 ≤ j → (overwrite p.data 0 mac.val).getD j 0 = p.data.getD j 0 :=
    fun j hj => getD_overwrite_of_ge (by omega) (Nat.zero_le _)
  have htake : (overwrite p.data 0 mac.val).take 8 = mac.val := take_overwrite_zero hmac
  show headerFields p.dir (overwrite p.data 0 mac.val) = _
  cases hdir : p.dir <;>
    simp only [headerFields, OutPacket.fields, Direction.off, hdir, htake, hkeep 8 (by omega),
      hkeep 9 (by omega), hkeep 10 (by omega), hkeep 11 (by omega), hkeep 12 (by omega)]

/-- Setting the packet id changes this field of the header, and no other. -/
theorem fields_packetId (id : UInt16) :
    (p.packetId id).fields = { p.fields with packetId := id } := by
  have hlen : 11 ≤ p.data.length :=
    (by cases p.dir <;> decide : 11 ≤ p.dir.headerLen).trans p.complete
  -- The bytes behind the id stay.
  have hkeep : ∀ j, 10 ≤ j → (overwrite p.data 8 (writeU16 id)).getD j 0 = p.data.getD j 0 :=
    fun j hj => getD_overwrite_of_ge (by simpa [writeU16] using hj) (by omega)
  have h8 : (overwrite p.data 8 (writeU16 id)).getD 8 0 = (writeU16 id).getD 0 0 :=
    getD_overwrite_add (j := 0) (by simp [writeU16]) (by omega)
  have h9 : (overwrite p.data 8 (writeU16 id)).getD 9 0 = (writeU16 id).getD 1 0 :=
    getD_overwrite_add (j := 1) (by simp [writeU16]) (by omega)
  show headerFields p.dir (overwrite p.data 8 (writeU16 id)) = _
  cases hdir : p.dir <;>
    simp only [headerFields, OutPacket.fields, Direction.off, hdir, h8, h9, ofNat_fromBe_writeU16,
      take_overwrite (Nat.le_refl 8) (by omega : 8 ≤ p.data.length), hkeep 10 (by omega),
      hkeep 11 (by omega), hkeep 12 (by omega)]

/-- Setting the client id changes this field of the header, and no other. Only a client has it. -/
theorem fields_clientId (id : UInt16) (h : p.dir = .c2s) :
    (p.clientId id h).fields = { p.fields with clientId := some id } := by
  have hlen : 13 ≤ p.data.length := by
    have := p.complete
    rwa [h] at this
  have h10 : (overwrite p.data 10 (writeU16 id)).getD 10 0 = (writeU16 id).getD 0 0 :=
    getD_overwrite_add (j := 0) (by simp [writeU16]) (by omega)
  have h11 : (overwrite p.data 10 (writeU16 id)).getD 11 0 = (writeU16 id).getD 1 0 :=
    getD_overwrite_add (j := 1) (by simp [writeU16]) (by omega)
  have h12 : (overwrite p.data 10 (writeU16 id)).getD 12 0 = p.data.getD 12 0 :=
    getD_overwrite_of_ge (by simp [writeU16]) (by omega)
  have hkeep : ∀ j, j < 10 → (overwrite p.data 10 (writeU16 id)).getD j 0 = p.data.getD j 0 :=
    fun j hj => getD_overwrite_of_lt hj (by omega)
  show headerFields p.dir (overwrite p.data 10 (writeU16 id)) = _
  simp only [headerFields, OutPacket.fields, Direction.off, h, h10, h11, h12,
    ofNat_fromBe_writeU16, take_overwrite (by omega : 8 ≤ 10) (by omega : 10 ≤ p.data.length),
    hkeep 8 (by omega), hkeep 9 (by omega)]

/-- The byte with the flags and the type is the last one of the header. -/
theorem fields_overwrite_off (b : UInt8) :
    headerFields p.dir (overwrite p.data p.dir.off [b]) =
      { p.fields with flags := .fromBits b, packetType := PacketType.fromU8 (b &&& 0xf) } := by
  have hlen := p.complete
  have hoff : p.dir.off + 1 = p.dir.headerLen := by cases p.dir <;> rfl
  have hlast : (overwrite p.data p.dir.off [b]).getD p.dir.off 0 = b :=
    getD_overwrite_add (j := 0) (by simp) (by omega)
  have hkeep : ∀ j, j < p.dir.off → (overwrite p.data p.dir.off [b]).getD j 0 = p.data.getD j 0 :=
    fun j hj => getD_overwrite_of_lt hj (by omega)
  have hmac : (overwrite p.data p.dir.off [b]).take 8 = p.data.take 8 :=
    take_overwrite (by cases p.dir <;> decide) (by omega)
  have h8 := hkeep 8 (by cases p.dir <;> decide)
  have h9 := hkeep 9 (by cases p.dir <;> decide)
  simp only [headerFields, OutPacket.fields, hlast, hmac, h8, h9]
  cases hdir : p.dir with
  | s2c => rfl
  | c2s =>
      have h10 := hkeep 10 (by rw [hdir]; decide)
      have h11 := hkeep 11 (by rw [hdir]; decide)
      rw [hdir] at h10 h11
      simp only [h10, h11]

theorem fields_flags (f : Flags) : (p.flags f).fields = { p.fields with flags := f } := by
  refine (fields_overwrite_off p _).trans ?_
  rw [fromBits_or_bits, and_lower_or_bits]
  rfl

theorem fields_packetType (t : PacketType) :
    (p.packetType t).fields = { p.fields with packetType := some t } := by
  refine (fields_overwrite_off p _).trans ?_
  rw [fromBits_or_toU8, and_lower_or_toU8, packetTypeFromU8_toU8]
  rfl

end Setters

/-! ### Sent and received -/

section Received

variable (p : OutPacket)

/-- The fields are those of the header, whatever the content. -/
theorem headerFields_take {dir : Direction} {data : List UInt8} :
    headerFields dir (data.take dir.headerLen) = headerFields dir data := by
  have hkeep : ∀ j, j < dir.headerLen → (data.take dir.headerLen).getD j 0 = data.getD j 0 := by
    intro j hj
    rw [List.getD_eq_getElem?_getD, List.getElem?_take_of_lt hj, List.getD_eq_getElem?_getD]
  have hmac : (data.take dir.headerLen).take 8 = data.take 8 := by
    rw [List.take_take, Nat.min_eq_left (by cases dir <;> decide)]
  cases dir with
  | s2c => simp only [headerFields, Direction.off, hmac, hkeep 8 (by decide), hkeep 9 (by decide),
      hkeep 10 (by decide)]
  | c2s => simp only [headerFields, Direction.off, hmac, hkeep 8 (by decide), hkeep 9 (by decide),
      hkeep 10 (by decide), hkeep 11 (by decide), hkeep 12 (by decide)]

theorem fields_extend (bytes : List UInt8) : (p.extend bytes).fields = p.fields := by
  show headerFields p.dir (p.data ++ bytes) = headerFields p.dir p.data
  rw [← headerFields_take, List.take_append_of_le_length p.complete, headerFields_take]

theorem content_extend (bytes : List UInt8) : (p.extend bytes).content = p.content ++ bytes :=
  List.drop_append_of_le_length p.complete

/-- A packet of a known type is received with its fields and its content. -/
theorem tryNew_data {t : PacketType} (ht : p.fields.packetType = some t) :
    ∃ q, InPacket.tryNew p.dir p.data = .ok q ∧ q.direction = p.dir ∧ q.fields = p.fields ∧
      q.packetType = t ∧ q.content = p.content ∧ q.header = p.header := by
  have hfields : headerFields p.dir (p.data.take p.dir.headerLen) = p.fields := headerFields_take
  rw [InPacket.tryNew, dif_neg (Nat.not_lt.mpr p.complete)]
  dsimp only
  split
  · next hnone =>
      rw [hfields, ht] at hnone
      cases hnone
  · next u hsome =>
      refine ⟨_, rfl, rfl, hfields, ?_, rfl, rfl⟩
      rw [hfields, ht] at hsome
      cases hsome
      rfl

/-- The header of a new packet: flags and type are set, everything else is zero. -/
theorem fields_newWithDir (dir : Direction) (f : Flags) (t : PacketType) :
    (OutPacket.newWithDir dir f t).fields =
      { mac := List.replicate 8 0
        packetId := 0
        clientId := if dir = .c2s then some 0 else none
        flags := f
        packetType := some t } := by
  rw [OutPacket.newWithDir, fields_packetType, fields_flags]
  cases dir <;> rfl

/-- The content stays as it is when the header is written. -/
@[simp]
theorem content_write (i : Nat) (bytes : List UInt8) (h : i + bytes.length ≤ p.dir.headerLen) :
    (p.write i bytes h).content = p.content := by
  have hlen := p.complete
  have hleft : (p.data.take i ++ bytes).length = i + bytes.length := by
    rw [List.length_append, List.length_take, Nat.min_eq_left (by omega)]
  show (overwrite p.data i bytes).drop p.dir.headerLen = p.data.drop p.dir.headerLen
  rw [overwrite, List.drop_append, List.drop_of_length_le (by omega), List.nil_append, hleft,
    List.drop_drop, Nat.add_sub_cancel' h]

theorem content_newWithDir (dir : Direction) (f : Flags) (t : PacketType) :
    (OutPacket.newWithDir dir f t).content = [] := by
  rw [OutPacket.newWithDir, OutPacket.packetType, content_write, OutPacket.flags, content_write]
  cases dir <;> rfl

/-- A packet with a content, as the other side receives it. -/
theorem tryNew_newWithDir (dir : Direction) (f : Flags) (t : PacketType) (bytes : List UInt8) :
    ∃ q, InPacket.tryNew dir ((OutPacket.newWithDir dir f t).extend bytes).data = .ok q ∧
      q.direction = dir ∧ q.fields.flags = f ∧ q.packetType = t ∧ q.content = bytes := by
  have hfields := fields_newWithDir dir f t
  have ht : ((OutPacket.newWithDir dir f t).extend bytes).fields.packetType = some t := by
    rw [fields_extend, hfields]
  obtain ⟨q, hq, hdir, hqf, htype, hcontent, -⟩ := tryNew_data _ ht
  refine ⟨q, hq, hdir, ?_, htype, ?_⟩
  · rw [hqf, fields_extend, hfields]
  · rw [hcontent, content_extend, content_newWithDir, List.nil_append]

end Received

/-- A packet is received with the header fields that it was made with, and with its content. -/
theorem received_new (mac : Bytes 8) (id : UInt16) (cid : Option UInt16) (f : Flags)
    (t : PacketType) (bytes : List UInt8) :
    ∃ q, InPacket.tryNew (if cid.isSome then .c2s else .s2c)
        ((OutPacket.new mac id cid f t).extend bytes).data = .ok q ∧
      q.fields = ⟨mac.val, id, cid, f, some t⟩ ∧ q.packetType = t ∧ q.content = bytes := by
  have hnew : (OutPacket.new mac id cid f t).fields = ⟨mac.val, id, cid, f, some t⟩ ∧
      (OutPacket.new mac id cid f t).dir = (if cid.isSome then .c2s else .s2c) ∧
      (OutPacket.new mac id cid f t).content = [] := by
    cases cid with
    | none =>
        refine ⟨?_, rfl, ?_⟩
        · rw [OutPacket.new, fields_packetId, fields_setMac, fields_newWithDir]
          rfl
        · rw [OutPacket.new, OutPacket.packetId, content_write, OutPacket.setMac, content_write,
            content_newWithDir]
    | some c =>
        refine ⟨?_, rfl, ?_⟩
        · rw [OutPacket.new, fields_clientId, fields_packetId, fields_setMac, fields_newWithDir]
        · rw [OutPacket.new, OutPacket.clientId, content_write, OutPacket.packetId, content_write,
            OutPacket.setMac, content_write, content_newWithDir]
  obtain ⟨hfields, hdir, hempty⟩ := hnew
  have ht : ((OutPacket.new mac id cid f t).extend bytes).fields.packetType = some t := by
    rw [fields_extend, hfields]
  obtain ⟨q, hq, -, hqf, htype, hcontent, -⟩ := tryNew_data _ ht
  refine ⟨q, ?_, ?_, htype, ?_⟩
  · rw [← hdir]
    exact hq
  · rw [hqf, fields_extend, hfields]
  · rw [hcontent, content_extend, hempty, List.nil_append]

end Nek0.Proofs.Protocol
