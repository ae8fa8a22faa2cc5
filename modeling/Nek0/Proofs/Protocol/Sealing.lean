import Nek0.Proofs.Protocol.Fragments

/-!
# `Nek0.Proofs.Protocol.Sealing`: numbered packets on the wire

The parts of a command are numbered on and encrypted (`encodeParts_ofNumber`). A datagram is taken
by the other side as the part that it is if its number is one of the next 32767, and else it changes
nothing (`handleUdpPacket_sealPart`).
-/

set_option autoImplicit false

namespace Nek0.Proofs.Protocol

open Nek0.Protocol

/-- The other side of a connection. -/
def peerOf (s : Session) : Session := { s with isClient := !s.isClient }

/-- The header of a packet that a side sends. -/
structure Sendable (s : Session) (t : PacketType) (p : OutPacket) : Prop where
  dir : p.dir = s.dir
  packetType : p.fields.packetType = some t
  clientId : p.fields.clientId = if s.isClient then some s.cId else none
  unencrypted : p.fields.flags.unencrypted = false

/-- What keeps the header can be sent as before. -/
theorem SameHeader.sendable {s : Session} {t : PacketType} {p q : OutPacket} (h : SameHeader p q)
    (hp : Sendable s t p) : Sendable s t q where
  dir := h.dir.trans hp.dir
  packetType := h.packetType.trans hp.packetType
  clientId := h.clientId.trans hp.clientId
  unencrypted := h.unencrypted.trans hp.unencrypted

/-- The packet with this number, as it is sent. -/
def sealPart (s : Session) (n : Nat) (p : OutPacket) : OutPacket :=
  encrypt s (p.packetId (ofNumber n).packetId) (ofNumber n).generationId

/-- The packet with this number, as the resender gets it. -/
def udpPart (s : Session) (n : Nat) (p : OutPacket) : OutUdpPacket :=
  ⟨(ofNumber (n + 1)).generationId, sealPart s n p⟩

/-! ### Sending -/

/-- The packets of a command are numbered on. -/
theorem encodeParts_ofNumber {s : Session} {n : Nat} {ps : List OutPacket}
    (h : n + ps.length ≤ numberLimit) :
    encodeParts s (ofNumber n) ps =
      (ps.mapIdx fun i p => udpPart s (n + i) p, ofNumber (n + ps.length)) := by
  induction ps generalizing n with
  | nil => rfl
  | cons p ps ih =>
      rw [List.length_cons] at h
      have hnext : (ofNumber n).add 1 = ofNumber (n + 1) := ofNumber_add_one (by omega)
      rw [encodeParts, encodePart]
      dsimp only
      rw [hnext, ih (by omega), List.mapIdx_cons]
      have hshift : (fun i p => udpPart s (n + 1 + i) p) =
        fun i p => udpPart s (n + (i + 1)) p := by
        funext i p
        rw [Nat.add_assoc, Nat.add_comm 1 i]
      rw [hshift, List.length_cons, Nat.add_assoc, Nat.add_comm 1]
      rfl

theorem dir_prepared (s : Session) (p : OutPacket) : (prepared s p).dir = p.dir := by
  rw [prepared]
  dsimp only
  split <;> split <;> rfl

theorem content_prepared (s : Session) (p : OutPacket) : (prepared s p).content = p.content := by
  rw [prepared]
  dsimp only
  split <;> split <;> simp only [OutPacket.clientId, OutPacket.flags, content_write]

/-- Packets that are prepared have the flags of before, and can be sent. -/
theorem sendable_prepared {s : Session} {t : PacketType} {p : OutPacket} (hdir : p.dir = s.dir)
    (htype : p.fields.packetType = some t)
    (hflags : p.fields.flags = .empty) (hclient : s.isClient = false → p.fields.clientId = none) :
    Sendable s t (prepared s p) ∧ (prepared s p).fields.flags.compressed = false ∧
      (prepared s p).fields.flags.fragmented = false := by
  have hflag : p.headerFlags = .empty := hflags
  -- A server sends the packet as it is. A client adds its id and the flag for the new protocol.
  cases hc : s.isClient with
  | false =>
      have heq : prepared s p = p := by
        simp [prepared, hc]
      rw [heq]
      refine ⟨⟨hdir, htype, ?_, ?_⟩, ?_, ?_⟩
      · rw [hc]
        exact hclient hc
      · rw [hflags]
        rfl
      · rw [hflags]
        rfl
      · rw [hflags]
        rfl
  | true =>
      have hc2s : p.dir = .c2s := by
        rw [hdir, Session.dir, hc]
        rfl
      have hfields : (prepared s p).fields =
          { p.fields with
            clientId := some s.cId
            flags := { Flags.empty with newprotocol := true } } := by
        simp only [prepared, hc, if_true, true_and]
        rw [dif_pos (show (p.flags _).dir = .c2s from hc2s), fields_clientId, fields_flags, hflag]
      rw [hfields]
      refine ⟨⟨(dir_prepared s p).trans hdir, ?_, ?_, ?_⟩, rfl, rfl⟩
      · rw [hfields]
        exact htype
      · rw [hfields, hc]
        rfl
      · rw [hfields]
        rfl

/-! ### Receiving -/

/-- The mac is the first 8 bytes of the header. What is authenticated stands behind them. -/
theorem drop_header_setMac (p : OutPacket) (mac : Bytes 8) :
    (p.setMac mac).header.drop 8 = p.header.drop 8 := by
  have hmac : mac.val.length = 8 := mac.2
  have hlen : 8 ≤ p.data.length :=
    (by cases p.dir <;> decide : 8 ≤ p.dir.headerLen).trans p.complete
  show ((overwrite p.data 0 mac.val).take p.dir.headerLen).drop 8 =
    (p.data.take p.dir.headerLen).drop 8
  rw [List.drop_take, List.drop_take, overwrite, List.take_zero, List.nil_append, Nat.zero_add,
    List.drop_left' hmac, hmac]

theorem dir_peerOf (s : Session) : (peerOf s).dir.reverse = s.dir := by
  cases h : s.isClient <;> simp [peerOf, Session.dir, h, Direction.reverse]

/-- Sealing sets the packet id and the mac of the header. -/
theorem fields_sealPart (s : Session) (n : Nat) (p : OutPacket) :
    (sealPart s n p).fields =
      { p.fields with
        packetId := (ofNumber n).packetId
        mac := (s.cipher.encrypt (ofNumber n).generationId
          ((p.packetId (ofNumber n).packetId).header.drop 8) p.content).1.val } := by
  have hcontent : (p.packetId (ofNumber n).packetId).content = p.content := by
    rw [OutPacket.packetId, content_write]
  rw [sealPart, encrypt]
  dsimp only
  rw [fields_setMac, fields_withContent, fields_packetId, hcontent]

/-- The packet of a datagram with a number. -/
theorem tryNew_sealPart {s : Session} {t : PacketType} {p : OutPacket} (hp : Sendable s t p)
    (n : Nat) :
    ∃ q, InPacket.tryNew s.dir (sealPart s n p).data = .ok q ∧ q.packetType = t ∧
      q.fields = (sealPart s n p).fields ∧ q.header.length = s.dir.headerLen ∧
      s.cipher.decrypt (ofNumber n).generationId (q.header.drop 8) q.fields.mac q.content =
        some p.content ∧
      ∀ gen, (ofNumber n).generationId ≠ gen →
        s.cipher.decrypt gen (q.header.drop 8) q.fields.mac q.content = none := by
  have htype : (sealPart s n p).fields.packetType = some t := by
    rw [fields_sealPart]
    exact hp.packetType
  obtain ⟨q, hq, hdir, hqf, hqt, hcontent, hheader⟩ := tryNew_data (sealPart s n p) htype
  have hsdir : (sealPart s n p).dir = s.dir := hp.dir
  have hpc : (p.packetId (ofNumber n).packetId).content = p.content := by
    rw [OutPacket.packetId, content_write]
  -- The mac and the content are those of the cipher, for the same header.
  have hinfo : q.header.drop 8 = (p.packetId (ofNumber n).packetId).header.drop 8 := by
    rw [hheader, sealPart, encrypt, drop_header_setMac, OutPacket.header]
    exact congrArg (List.drop 8) (List.take_left' (length_header _))
  have hsealed : q.content = (s.cipher.encrypt (ofNumber n).generationId
      ((p.packetId (ofNumber n).packetId).header.drop 8) p.content).2 := by
    rw [hcontent, sealPart, encrypt, OutPacket.setMac, content_write, content_withContent, hpc]
  have hmac : q.fields.mac = (s.cipher.encrypt (ofNumber n).generationId
      ((p.packetId (ofNumber n).packetId).header.drop 8) p.content).1.val := by
    rw [hqf, fields_sealPart]
  refine ⟨q, hsdir ▸ hq, hqt, hqf, ?_, ?_, ?_⟩
  · rw [hheader, length_header, hsdir]
  · rw [hinfo, hmac, hsealed, s.cipher.decrypt_encrypt]
  · intro gen hgen
    rw [hinfo, hmac, hsealed, s.cipher.decrypt_other _ _ _ _ hgen]

/-- A datagram with a number, as the other side takes it. -/
theorem handleUdpPacket_sealPart {s : Session} {t : PacketType} {p : OutPacket} {n cur : Nat}
    {lane : CommandLane} (hp : Sendable s t p) (hn : n < numberLimit) (hcur : cur < numberLimit)
    (hnext : lane.next = ofNumber cur) :
    ∃ q packet : InPacket, InPacket.tryNew s.dir (sealPart s n p).data = .ok q ∧
      q.packetId = (ofNumber n).packetId ∧ packet.packetId = (ofNumber n).packetId ∧
      inPart packet = outPart p ∧ packet.header.length = s.dir.headerLen ∧
      handleUdpPacket (peerOf s) t lane (sealPart s n p).data =
        if cur ≤ n ∧ n < cur + 32767 then
          (handleCommandPacket s.compressor lane packet).map fun r =>
            ⟨r.1, r.2, some (ofNumber n).packetId⟩
        else
          .ok ⟨lane, [],
            if (inReceiveWindow (ofNumber cur) (ofNumber n).packetId).1 then none
            else some (ofNumber n).packetId⟩ := by
  -- The datagram is parsed, and the key of its own generation opens it, and no other.
  obtain ⟨q, hq, hqt, hqf, hlen, hdecrypt, hother⟩ := tryNew_sealPart hp n
  have hid : q.packetId = (ofNumber n).packetId := by
    rw [InPacket.packetId, hqf, fields_sealPart]
  have hflags : q.fields.flags = p.fields.flags := by
    rw [hqf, fields_sealPart]
  have hclient : (!(peerOf s).isClient && q.fields.clientId != some (peerOf s).cId) = false := by
    rw [hqf, fields_sealPart]
    show (!!s.isClient && p.fields.clientId != some s.cId) = false
    rw [hp.clientId]
    cases s.isClient <;> simp
  refine ⟨q, q.withContent p.content, hq, hid, hid, ?_, hlen, ?_⟩
  · show (⟨q.fields.flags.compressed, q.fields.flags.fragmented, p.content⟩ : Part) = outPart p
    rw [hflags]
    rfl
  -- The window and the generation that the receiver assumes, in numbers.
  · have hwindow := inReceiveWindow_iff hcur hn
    rw [handleUdpPacket, dir_peerOf, hq]
    dsimp only
    rw [if_neg (by rw [hqt]; exact fun h => h rfl), if_neg (by rw [hclient]; decide), hid, hnext]
    cases hin : inReceiveWindow (ofNumber cur) (ofNumber n).packetId with
    | mk inWindow gen =>
        rw [hin] at hwindow
        dsimp only
        cases inWindow with
        | false =>
            rw [if_neg (by decide), if_neg fun h => absurd (hwindow.mpr h) (by simp)]
            rfl
        | true =>
            have hplain : q.fields.flags.unencrypted = false := by
              rw [hflags]
              exact hp.unencrypted
            rw [if_pos rfl, if_neg (by rw [hplain]; decide)]
            -- The assumed generation is the one of the sender just if the number is within the
            -- window.
            by_cases hgen : (ofNumber n).generationId = gen
            · subst hgen
              rw [if_pos (hwindow.mp rfl)]
              rw [show (peerOf s).cipher.decrypt (ofNumber n).generationId (q.header.drop 8)
                q.fields.mac q.content = some p.content from hdecrypt]
              dsimp only
              rw [show (peerOf s).compressor = s.compressor from rfl]
              cases handleCommandPacket s.compressor lane (q.withContent p.content) <;> rfl
            · rw [show (peerOf s).cipher.decrypt gen (q.header.drop 8) q.fields.mac q.content = none
                from hother gen hgen]
              rw [if_neg fun h => hgen (Prod.mk.inj (hwindow.mpr h)).2.symm]
              rfl

end Nek0.Proofs.Protocol
