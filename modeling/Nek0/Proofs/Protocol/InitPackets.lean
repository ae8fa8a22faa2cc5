import Nek0.Proofs.Protocol.VoicePackets

/-!
# `Nek0.Proofs.Protocol.InitPackets`: the start of a connection, and acknowledgements

The packets that start a connection are read as they were written, and each acknowledges the one
before (`init_handshake`). `OutAck` acknowledges what it was made for (`ackPacket_outAck`).

A client reads any datagram without a panic (`client_never_panics`).
-/

set_option autoImplicit false

namespace Nek0.Proofs.Protocol

open Nek0.Protocol
open Nek0.Lib.BigEndian
open Nek0.Lib.Outcomes

/-- A packet that starts a connection, as the other side receives it. -/
theorem tryNew_newInit (dir : Direction) (bytes : List UInt8) :
    ∃ q, InPacket.tryNew dir ((newInit dir).extend bytes).data = .ok q ∧
      q.checkInit dir = .ok () ∧ q.direction = dir ∧ q.packetType = .init ∧
      q.content = bytes := by
  have hfields : ((newInit dir).extend bytes).fields =
      { (OutPacket.newWithDir dir .empty .init).fields with
        mac := initMac.val, packetId := 0x65 } := by
    rw [fields_extend, newInit, fields_packetId, fields_setMac]
  have ht : ((newInit dir).extend bytes).fields.packetType = some .init := by
    rw [hfields, fields_newWithDir]
  obtain ⟨q, hq, hdir, hqf, htype, hcontent, -⟩ := tryNew_data _ ht
  have hmac : q.fields.mac = initMac.val := by rw [hqf, hfields]
  have hdir' : q.direction = dir := hdir
  refine ⟨q, hq, ?_, hdir', htype, ?_⟩
  · rw [InPacket.checkInit, if_neg (not_not.mpr hdir'), if_neg (not_not.mpr htype),
      if_neg (not_not.mpr hmac)]
  · rw [hcontent, content_extend, newInit, OutPacket.packetId, content_write, OutPacket.setMac,
      content_write, content_newWithDir, List.nil_append]

/-! ### Packets of the server -/

section Server

variable (random1 : Bytes 16) (random0R : Bytes 4) (x n : Bytes 64) (level : UInt32)
  (random2 : Bytes 100)

/-- `Init1` is read back from its bytes: the step, 16 bytes of the first random value, 4 of the
other. -/
theorem read_init1 {q : InPacket} (hcheck : q.checkInit .s2c = .ok ())
    (hcontent : q.content = 1 :: (random1.val ++ random0R.val)) :
    q.intoS2CInit = .ok (.init1 random1 random0R) := by
  have hr1 : random1.val.length = 16 := random1.2
  have hr0 : random0R.val.length = 4 := random0R.2
  have hlen : ¬q.content.length < 21 := by
    rw [hcontent, List.length_cons, List.length_append]
    omega
  have hfirst : slice q.content 1 16 = .ok random1 := by
    rw [hcontent]
    exact slice_append [1] random0R.val random1 rfl
  have hsecond : slice q.content 17 4 = .ok random0R := by
    rw [hcontent, ← List.append_nil random0R.val]
    exact slice_append (1 :: random1.val) [] random0R (by rw [List.length_cons, hr1])
  have hstep : index q.content 0 = .ok 1 := by rw [hcontent]; rfl
  have hempty : q.content.isEmpty = false := by rw [hcontent]; rfl
  -- Every read succeeds, so the checks and binds reduce.
  simp only [InPacket.intoS2CInit, hcheck, ok_bind, hempty, hstep, hlen, hfirst, hsecond,
    if_true, if_false, Bool.false_eq_true]
  rfl

/-- `Init3` is read back: the puzzle, its level, and the random bytes of the server. -/
theorem read_init3 {q : InPacket} (hcheck : q.checkInit .s2c = .ok ())
    (hcontent : q.content = 3 :: (x.val ++ (n.val ++ (writeU32 level ++ random2.val)))) :
    q.intoS2CInit = .ok (.init3 x n level random2) := by
  have hx : x.val.length = 64 := x.2
  have hn : n.val.length = 64 := n.2
  have hlevel : (writeU32 level).length = 4 := by simp [writeU32]
  have hrandom : random2.val.length = 100 := random2.2
  have hlen : ¬q.content.length < 233 := by
    rw [hcontent, List.length_cons, List.length_append, List.length_append, List.length_append]
    omega
  have h1 : slice q.content 1 64 = .ok x := by
    rw [hcontent]
    exact slice_append [3] _ x rfl
  have h2 : slice q.content 65 64 = .ok n := by
    rw [hcontent]
    exact slice_append (3 :: x.val) _ n (by rw [List.length_cons, hx])
  -- The level is read from a slice that goes on to the end.
  have h3 : sliceFrom q.content 129 = .ok (writeU32 level ++ random2.val) := by
    rw [hcontent, ← List.append_assoc]
    have hfront : (3 :: (x.val ++ n.val)).length = 129 := by
      rw [List.length_cons, List.length_append, hx, hn]
    exact sliceFrom_append hfront
  have h4 : slice q.content 133 100 = .ok random2 := by
    rw [hcontent, ← List.append_assoc, ← List.append_assoc, ← List.append_nil random2.val]
    exact slice_append (3 :: (x.val ++ n.val ++ writeU32 level)) [] random2
      (by simp only [List.length_cons, List.length_append, hx, hn, hlevel])
  have hstep : index q.content 0 = .ok 3 := by rw [hcontent]; rfl
  have hempty : q.content.isEmpty = false := by rw [hcontent]; rfl
  simp only [InPacket.intoS2CInit, hcheck, ok_bind, hempty, hstep, hlen, h1, h2, h3,
    readU32_append, h4, if_true, if_false, Bool.false_eq_true]
  rfl

end Server

/-! ### Packets of the client -/

section Client

variable (version timestamp level : UInt32) (random0 random0R : Bytes 4) (random1 : Bytes 16)
  (x n y : Bytes 64) (random2 : Bytes 100) (command : List UInt8)

/-- What all three start with. -/
theorem read_version {content rest : List UInt8} {step : UInt8}
    (h : content = writeU32 version ++ step :: rest) :
    sliceFrom content 0 = .ok content ∧ readU32 content = .ok version ∧
      index content 4 = .ok step ∧ content.length = 5 + rest.length := by
  have hlen : (writeU32 version).length = 4 := by simp [writeU32]
  refine ⟨rfl, ?_, ?_, ?_⟩
  · rw [h]
    exact readU32_append version _
  · rw [h]
    exact index_append hlen
  · rw [h, List.length_append, List.length_cons, hlen]
    omega

/-- `Init0` is read back. The eight zero bytes at its end are not looked at. -/
theorem read_init0 {q : InPacket} (hcheck : q.checkInit .c2s = .ok ())
    (hcontent : q.content = writeU32 version ++ 0 :: (writeU32 timestamp ++ (random0.val ++
      List.replicate 8 0))) :
    q.intoC2SInit = .ok (.init0 version timestamp random0) := by
  obtain ⟨hstart, hversion, hstep, hlen⟩ := read_version version hcontent
  have hv : (writeU32 version).length = 4 := by simp [writeU32]
  have ht : (writeU32 timestamp).length = 4 := by simp [writeU32]
  have hr : random0.val.length = 4 := random0.2
  rw [List.length_append, List.length_append, ht, hr, List.length_replicate] at hlen
  have h1 : sliceFrom q.content 5 = .ok (writeU32 timestamp ++ (random0.val ++
      List.replicate 8 0)) := by
    rw [hcontent, List.append_cons]
    exact sliceFrom_append (by rw [List.length_append, hv]; rfl)
  have h2 : slice q.content 9 4 = .ok random0 := by
    rw [hcontent, List.append_cons, ← List.append_assoc]
    exact slice_append _ _ random0 (by rw [List.length_append, List.length_append, hv, ht]; rfl)
  have h5 : ¬5 + (4 + (4 + 8)) < 5 := by decide
  have h13 : ¬5 + (4 + (4 + 8)) < 13 := by decide
  simp only [InPacket.intoC2SInit, hcheck, ok_bind, hlen, h5, h13, hstart, hversion, hstep, h1,
    readU32_append, h2, if_true, if_false]
  rfl

/-- `Init2` is read back: it returns both random values of the server. -/
theorem read_init2 {q : InPacket} (hcheck : q.checkInit .c2s = .ok ())
    (hcontent : q.content = writeU32 version ++ 2 :: (random1.val ++ random0R.val)) :
    q.intoC2SInit = .ok (.init2 version random1 random0R) := by
  obtain ⟨hstart, hversion, hstep, hlen⟩ := read_version version hcontent
  have hv : (writeU32 version).length = 4 := by simp [writeU32]
  have hr1 : random1.val.length = 16 := random1.2
  have hr0 : random0R.val.length = 4 := random0R.2
  rw [List.length_append, hr1, hr0] at hlen
  have h1 : slice q.content 5 16 = .ok random1 := by
    rw [hcontent, List.append_cons]
    exact slice_append _ _ random1 (by rw [List.length_append, hv]; rfl)
  have h2 : slice q.content 21 4 = .ok random0R := by
    rw [hcontent, List.append_cons, ← List.append_assoc, ← List.append_nil random0R.val]
    exact slice_append _ [] random0R (by rw [List.length_append, List.length_append, hv, hr1]; rfl)
  have h5 : ¬5 + (16 + 4) < 5 := by decide
  have h25 : ¬5 + (16 + 4) < 25 := by decide
  have h02 : ¬(2 : UInt8) = 0 := by decide
  simp only [InPacket.intoC2SInit, hcheck, ok_bind, hlen, h5, h25, h02, hstart, hversion, hstep,
    h1, h2, if_true, if_false]
  rfl

/-- `Init4` is read back, with the solution of the puzzle and the command at its end. The source
demands 20 bytes of the command, whatever they are. -/
theorem read_init4 {q : InPacket} (hcheck : q.checkInit .c2s = .ok ())
    (hcontent : q.content = writeU32 version ++ 4 :: (x.val ++ (n.val ++ (writeU32 level ++
      (random2.val ++ (y.val ++ command))))))
    (hcommand : 20 ≤ command.length) :
    q.intoC2SInit = .ok (.init4 version x n level random2 y command) := by
  obtain ⟨hstart, hversion, hstep, hlen⟩ := read_version version hcontent
  have hv : (writeU32 version).length = 4 := by simp [writeU32]
  have hx : x.val.length = 64 := x.2
  have hn : n.val.length = 64 := n.2
  have hl : (writeU32 level).length = 4 := by simp [writeU32]
  have hr : random2.val.length = 100 := random2.2
  have hy : y.val.length = 64 := y.2
  simp only [List.length_append, hx, hn, hl, hr, hy] at hlen
  -- Each field is found behind the lengths of those before it.
  have h1 : slice q.content 5 64 = .ok x := by
    rw [hcontent, List.append_cons]
    exact slice_append _ _ x (by rw [List.length_append, hv]; rfl)
  have h2 : slice q.content 69 64 = .ok n := by
    rw [hcontent, List.append_cons, ← List.append_assoc]
    exact slice_append _ _ n (by simp only [List.length_append, hv, hx, List.length_singleton])
  have h3 : sliceFrom q.content 133 = .ok (writeU32 level ++ (random2.val ++ (y.val ++
      command))) := by
    rw [hcontent, List.append_cons, ← List.append_assoc, ← List.append_assoc]
    exact sliceFrom_append
      (by simp only [List.length_append, hv, hx, hn, List.length_singleton])
  have h4 : slice q.content 137 100 = .ok random2 := by
    rw [hcontent, List.append_cons, ← List.append_assoc, ← List.append_assoc, ← List.append_assoc]
    exact slice_append _ _ random2
      (by simp only [List.length_append, hv, hx, hn, hl, List.length_singleton])
  have h5 : slice q.content 237 64 = .ok y := by
    rw [hcontent, List.append_cons, ← List.append_assoc, ← List.append_assoc, ← List.append_assoc,
      ← List.append_assoc]
    exact slice_append _ _ y
      (by simp only [List.length_append, hv, hx, hn, hl, hr, List.length_singleton])
  have h6 : sliceFrom q.content (5 + 128 + 4 + 100 + 64) = .ok command := by
    rw [hcontent, List.append_cons, ← List.append_assoc, ← List.append_assoc, ← List.append_assoc,
      ← List.append_assoc, ← List.append_assoc]
    exact sliceFrom_append
      (by simp only [List.length_append, hv, hx, hn, hl, hr, hy, List.length_singleton])
  -- The content is long enough for the checks of the source.
  have hlong : ¬q.content.length < 5 := by omega
  have hlong' : ¬q.content.length < 5 + 128 + 4 + 100 + 64 + 20 := by omega
  have h40 : ¬(4 : UInt8) = 0 := by decide
  have h42 : ¬(4 : UInt8) = 2 := by decide
  simp only [InPacket.intoC2SInit, hcheck, ok_bind, hlong, hlong', h40, h42, hstart, hversion,
    hstep, h1, h2, h3, readU32_append, h4, h5, h6, if_true, if_false]
  rfl

end Client

/-! ### The whole start -/

/-- The id that an `Init` packet goes by. -/
theorem udpPacketId_newInit (dir : Direction) (bytes : List UInt8) :
    ((newInit dir).extend bytes).udpPacketId =
      match dir with
      | .s2c => (bytes.getD 0 0).toUInt16
      | .c2s => (bytes.getD 4 0).toUInt16 := by
  have hcontent : ((newInit dir).extend bytes).content = bytes := by
    rw [content_extend, newInit, OutPacket.packetId, content_write, OutPacket.setMac,
      content_write, content_newWithDir, List.nil_append]
  have ht : ((newInit dir).extend bytes).fields.packetType = some .init := by
    rw [fields_extend, newInit, fields_packetId, fields_setMac, fields_newWithDir]
  rw [OutPacket.udpPacketId, if_pos ht, hcontent]
  cases dir <;> rfl

/-- The packet is received as `data`, and acknowledges the packet with the id `acked`. -/
def IsRead {α : Type} (dir : Direction) (p : OutPacket) (read : InPacket → Except Failure α)
    (data : α) (acked : Option UInt16) : Prop :=
  ∃ q, InPacket.tryNew dir p.data = .ok q ∧ read q = .ok data ∧ q.ackPacket = .ok acked

/-- The client's steps acknowledge the step of the server before them. The first acknowledges
nothing. -/
theorem ackPacket_client {q : InPacket} {version : UInt32} {step : UInt8} {rest : List UInt8}
    {acked : Option UInt16} (htype : q.packetType = .init) (hdir : q.direction = .c2s)
    (hcontent : q.content = writeU32 version ++ step :: rest)
    (hstep : step = 0 ∧ acked = none ∨ step = 2 ∧ acked = some 1 ∨ step = 4 ∧ acked = some 3) :
    q.ackPacket = .ok acked := by
  -- The step is behind the version.
  have hbyte : InPacket.getByte q.content 4 = .ok step := by
    rw [InPacket.getByte, hcontent, List.getElem?_append_right (by simp [writeU32])]
    simp [writeU32]
  have hack : PacketType.init.isAck = false := by decide
  simp only [InPacket.ackPacket, htype, hdir, hack, hbyte, ok_bind, if_true, if_false,
    reduceCtorEq, Bool.false_eq_true]
  rcases hstep with ⟨rfl, rfl⟩ | ⟨rfl, rfl⟩ | ⟨rfl, rfl⟩ <;> rfl

/-- The server's steps acknowledge the step of the client that they answer. -/
theorem ackPacket_server {q : InPacket} {step : UInt8} {rest : List UInt8} {acked : UInt16}
    (htype : q.packetType = .init) (hdir : q.direction = .s2c) (hcontent : q.content = step :: rest)
    (hstep : step = 1 ∧ acked = 0 ∨ step = 3 ∧ acked = 2) : q.ackPacket = .ok (some acked) := by
  have hbyte : InPacket.getByte q.content 0 = .ok step := by
    rw [InPacket.getByte, hcontent]
    rfl
  have hack : PacketType.init.isAck = false := by decide
  simp only [InPacket.ackPacket, htype, hdir, hack, hbyte, ok_bind, if_true, if_false,
    Bool.false_eq_true]
  rcases hstep with ⟨rfl, rfl⟩ | ⟨rfl, rfl⟩ <;> rfl

/-- The command at the end of `Init4` is long enough, whatever the keys are. -/
theorem length_clientinitiv (alpha omega ip : List UInt8) :
    20 ≤ (clientinitiv alpha omega ip).length := by
  have hstart : (ascii "clientinitiv alpha=").length = 19 := by decide
  have hmiddle : (ascii " omega=").length = 7 := by decide
  simp only [clientinitiv, List.length_append, hstart, hmiddle]
  omega

/-- Every packet of the start is read as it was written, and acknowledges the packet of the other
side that it answers. -/
theorem init_handshake (version timestamp level : UInt32) (random0 random0R : Bytes 4)
    (random1 : Bytes 16) (x n y : Bytes 64) (random2 : Bytes 100)
    (alpha omega ip : List UInt8) :
    let p0 := outC2SInit0 version timestamp random0
    let p1 := outS2CInit1 random1 random0R
    let p2 := outC2SInit2 version random1 random0R
    let p3 := outS2CInit3 x n level random2
    let p4 := outC2SInit4 version x n level random2 y alpha omega ip
    IsRead .c2s p0 InPacket.intoC2SInit (.init0 version timestamp random0) none ∧
    IsRead .s2c p1 InPacket.intoS2CInit (.init1 random1 random0R) (some p0.udpPacketId) ∧
    IsRead .c2s p2 InPacket.intoC2SInit (.init2 version random1 random0R) (some p1.udpPacketId) ∧
    IsRead .s2c p3 InPacket.intoS2CInit (.init3 x n level random2) (some p2.udpPacketId) ∧
    IsRead .c2s p4 InPacket.intoC2SInit
      (.init4 version x n level random2 y (clientinitiv alpha omega ip)) (some p3.udpPacketId) := by
  -- The id of an Init packet is its step, which the client writes behind its version.
  have hstep : ∀ (step : UInt8) (rest : List UInt8),
      (writeU32 version ++ step :: rest).getD 4 0 = step := by
    intro step rest
    rw [List.getD_append_right _ _ _ _ (by simp [writeU32])]
    simp [writeU32]
  have hid0 : (outC2SInit0 version timestamp random0).udpPacketId = 0 := by
    rw [outC2SInit0, udpPacketId_newInit, hstep]
    rfl
  have hid1 : (outS2CInit1 random1 random0R).udpPacketId = 1 := by
    rw [outS2CInit1, udpPacketId_newInit]
    rfl
  have hid2 : (outC2SInit2 version random1 random0R).udpPacketId = 2 := by
    rw [outC2SInit2, udpPacketId_newInit, hstep]
    rfl
  have hid3 : (outS2CInit3 x n level random2).udpPacketId = 3 := by
    rw [outS2CInit3, udpPacketId_newInit]
    rfl
  -- Each packet is built, opened and read. Then its acknowledgement is compared with the id before.
  refine ⟨?_, ?_, ?_, ?_, ?_⟩
  · obtain ⟨q, hq, hcheck, hdir, htype, hcontent⟩ := tryNew_newInit .c2s
      (writeU32 version ++ 0 :: (writeU32 timestamp ++ (random0.val ++ List.replicate 8 0)))
    exact ⟨q, hq, read_init0 version timestamp random0 hcheck hcontent,
      ackPacket_client htype hdir hcontent (.inl ⟨rfl, rfl⟩)⟩
  · obtain ⟨q, hq, hcheck, hdir, htype, hcontent⟩ := tryNew_newInit .s2c
      (1 :: (random1.val ++ random0R.val))
    rw [hid0]
    exact ⟨q, hq, read_init1 random1 random0R hcheck hcontent,
      ackPacket_server htype hdir hcontent (.inl ⟨rfl, rfl⟩)⟩
  · obtain ⟨q, hq, hcheck, hdir, htype, hcontent⟩ := tryNew_newInit .c2s
      (writeU32 version ++ 2 :: (random1.val ++ random0R.val))
    rw [hid1]
    exact ⟨q, hq, read_init2 version random0R random1 hcheck hcontent,
      ackPacket_client htype hdir hcontent (.inr (.inl ⟨rfl, rfl⟩))⟩
  · obtain ⟨q, hq, hcheck, hdir, htype, hcontent⟩ := tryNew_newInit .s2c
      (3 :: (x.val ++ (n.val ++ (writeU32 level ++ random2.val))))
    rw [hid2]
    exact ⟨q, hq, read_init3 x n level random2 hcheck hcontent,
      ackPacket_server htype hdir hcontent (.inr ⟨rfl, rfl⟩)⟩
  · obtain ⟨q, hq, hcheck, hdir, htype, hcontent⟩ := tryNew_newInit .c2s
      (writeU32 version ++ 4 :: (x.val ++ (n.val ++ (writeU32 level ++ (random2.val ++
        (y.val ++ clientinitiv alpha omega ip))))))
    rw [hid3]
    exact ⟨q, hq, read_init4 version level x n y random2 _ hcheck hcontent
        (length_clientinitiv alpha omega ip),
      ackPacket_client htype hdir hcontent (.inr (.inr ⟨rfl, rfl⟩))⟩

/-- An acknowledgement names the packet that it was made for. -/
theorem ackPacket_outAck (dir : Direction) {forType : PacketType} (id : UInt16)
    (hfor : forType = .command ∨ forType = .commandLow ∨ forType = .ping) :
    ∃ p q, outAck dir forType id = .ok p ∧ InPacket.tryNew dir p.data = .ok q ∧
      q.ackPacket = .ok (some id) := by
  have hone : ∀ t : PacketType, t.isAck = true →
      ∃ q, InPacket.tryNew dir
          ((OutPacket.newWithDir dir .empty t).extend (writeU16 id)).data = .ok q ∧
        q.ackPacket = .ok (some id) := by
    intro t ht
    obtain ⟨q, hq, -, -, htype, hcontent⟩ := tryNew_newWithDir dir .empty t (writeU16 id)
    refine ⟨q, hq, ?_⟩
    have hread := readU16_append id []
    rw [List.append_nil] at hread
    rw [InPacket.ackPacket, htype, if_pos ht, hcontent, hread]
  rcases hfor with rfl | rfl | rfl
  · obtain ⟨q, hq, hack⟩ := hone .ack (by decide)
    exact ⟨_, q, rfl, hq, hack⟩
  · obtain ⟨q, hq, hack⟩ := hone .ackLow (by decide)
    exact ⟨_, q, rfl, hq, hack⟩
  · obtain ⟨q, hq, hack⟩ := hone .pong (by decide)
    exact ⟨_, q, rfl, hq, hack⟩

/-! ### Any datagram -/

section Datagrams

variable {E : Failure → Prop} {content : List UInt8}

theorem ends_slice {i n : Nat} (h : i + n ≤ content.length) :
    Ends E (fun _ => True) (slice content i n) := by
  rw [slice, dif_pos h]
  trivial

/-- `try_new` ends without a panic. -/
theorem ends_tryNew (hE : ∀ e, E (.error e)) (dir : Direction) (datagram : List UInt8) :
    Ends E (fun q => q.direction = dir) (InPacket.tryNew dir datagram) := by
  rw [InPacket.tryNew]
  split
  · exact hE _
  · dsimp only
    split
    · exact hE _
    · rfl

theorem ends_checkInit (hE : ∀ e, E (.error e)) (q : InPacket) (dir : Direction) :
    Ends E (fun _ => True) (q.checkInit dir) := by
  rw [InPacket.checkInit]
  exact .ite (fun _ => hE _) fun _ => .ite (fun _ => hE _) fun _ => .ite (fun _ => hE _)
    fun _ => trivial

/-- `ack_packet` ends without a panic on every packet. -/
theorem ends_ackPacket (hE : ∀ e, E (.error e)) (q : InPacket) :
    Ends E (fun _ => True) q.ackPacket := by
  have hbyte : ∀ i, Ends E (fun _ => True) (InPacket.getByte q.content i) := by
    intro i
    rw [InPacket.getByte]
    split
    · trivial
    · exact hE _
  rw [InPacket.ackPacket]
  -- An Ack packet, an Init packet of either side, or a packet that acknowledges nothing.
  refine .ite (fun _ => ?_) fun _ => .ite (fun _ => .ite (fun _ => ?_) fun _ => ?_)
    fun _ => trivial
  · split
    · trivial
    · exact hE _
  · refine (hbyte 0).bind fun i _ => ?_
    split
    · trivial
    · trivial
    · trivial
    · exact hE _
  · refine (hbyte 4).bind fun i _ => ?_
    split
    · trivial
    · trivial
    · trivial
    · exact hE _

/-- `into_s2cinit` ends without a panic: every slice is behind a check of the length. -/
theorem ends_intoS2CInit (hE : ∀ e, E (.error e)) (q : InPacket) :
    Ends E (fun _ => True) q.intoS2CInit := by
  refine (ends_checkInit hE q .s2c).bind fun _ _ => .ite (fun _ => ends_tooShort hE) fun hne => ?_
  have hpos : 0 < q.content.length := by
    cases hcontent : q.content with
    | nil => exact absurd (by rw [hcontent]; rfl) hne
    | cons b bs => exact Nat.succ_pos _
  refine (ends_index hpos).bind fun step _ => ?_
  -- The steps 1, 3 and 127. Any other step is an error.
  refine .ite (fun _ => .ite (fun _ => ends_tooShort hE) fun hlen => ?_)
    fun _ => .ite (fun _ => .ite (fun _ => ends_tooShort hE) fun hlen => ?_)
      fun _ => .ite (fun _ => trivial) fun _ => hE _
  · exact (ends_slice (by omega)).bind fun _ _ => (ends_slice (by omega)).bind fun _ _ => trivial
  · refine (ends_slice (by omega)).bind fun _ _ => (ends_slice (by omega)).bind fun _ _ => ?_
    refine (ends_sliceFrom (by omega)).bind fun _ _ => (ends_readUInt hE ..).bind fun _ _ => ?_
    exact (ends_slice (by omega)).bind fun _ _ => trivial

/-- `into_c2sinit` ends without a panic: the checks on the length are in front of the slices. -/
theorem ends_intoC2SInit (hE : ∀ e, E (.error e)) (q : InPacket) :
    Ends E (fun _ => True) q.intoC2SInit := by
  refine (ends_checkInit hE q .c2s).bind fun _ _ => .ite (fun _ => ends_tooShort hE) fun h5 => ?_
  refine (ends_sliceFrom (by omega)).bind fun _ _ => (ends_readUInt hE ..).bind fun _ _ => ?_
  refine (ends_index (by omega)).bind fun step _ => ?_
  -- The steps 0, 2 and 4. Any other step is an error.
  refine .ite (fun _ => .ite (fun _ => ends_tooShort hE) fun hlen => ?_)
    fun _ => .ite (fun _ => .ite (fun _ => ends_tooShort hE) fun hlen => ?_)
      fun _ => .ite (fun _ => .ite (fun _ => ends_tooShort hE) fun hlen => ?_) fun _ => ?_
  · refine (ends_sliceFrom (by omega)).bind fun _ _ => (ends_readUInt hE ..).bind fun _ _ => ?_
    exact (ends_slice (by omega)).bind fun _ _ => trivial
  · exact (ends_slice (by omega)).bind fun _ _ => (ends_slice (by omega)).bind fun _ _ => trivial
  · refine (ends_slice (by omega)).bind fun _ _ => (ends_slice (by omega)).bind fun _ _ => ?_
    refine (ends_sliceFrom (by omega)).bind fun _ _ => (ends_readUInt hE ..).bind fun _ _ => ?_
    refine (ends_slice (by omega)).bind fun _ _ => (ends_slice (by omega)).bind fun _ _ => ?_
    exact (ends_sliceFrom (by omega)).bind fun _ _ => trivial
  · exact (ends_index (by omega)).bind fun _ _ => hE _

/-- Whatever datagram comes in, in either direction, the header, the acknowledgement and the `Init`
packets are read without a panic. Voice is too, but for the short content of a client with an
unknown codec. -/
theorem datagram_panics_iff (dir : Direction) (datagram : List UInt8) :
    InPacket.tryNew dir datagram ≠ .error .panic ∧
      ∀ q, InPacket.tryNew dir datagram = .ok q →
        q.ackPacket ≠ .error .panic ∧ q.intoS2CInit ≠ .error .panic ∧
          q.intoC2SInit ≠ .error .panic ∧
          (q.intoAudio = .error .panic ↔ Panics dir q.content) := by
  have hE : ∀ e, Failure.error e ≠ .panic := fun e h => by cases h
  have hnew := ends_tryNew (E := fun e => e ≠ .panic) hE dir datagram
  refine ⟨fun h => hnew.of_error h rfl, fun q hq => ?_⟩
  have hdir : q.direction = dir := hnew.of_ok hq
  refine ⟨fun h => (ends_ackPacket (E := fun e => e ≠ .panic) hE q).of_error h rfl,
    fun h => (ends_intoS2CInit (E := fun e => e ≠ .panic) hE q).of_error h rfl,
    fun h => (ends_intoC2SInit (E := fun e => e ≠ .panic) hE q).of_error h rfl, ?_⟩
  rw [InPacket.intoAudio, hdir]
  exact parse_panics_iff ..

end Datagrams

end Nek0.Proofs.Protocol
