import Nek0.Protocol.CommandLink
import Nek0.Proofs.Protocol.ReceiveQueue
import Nek0.Proofs.Protocol.Resending
import Nek0.Proofs.Protocol.Sealing

/-!
# `Nek0.Proofs.Protocol.CommandOrder`: commands arrive in their order

Whatever the network does, the receiver gives the commands that were sent, in their order and each
of them once (`delivered_isPrefix`).
-/

set_option autoImplicit false

namespace Nek0.Proofs.Protocol

open Nek0.Protocol
open Nek0.Lib (System)
open Nek0.Lib.Transducer
open Resender (keyOf)
open SendQueue (packets)

/-! ### The packets of the commands -/

section Parts

variable (S : LinkSetup)

/-- The packets of a command. -/
def partsOf (content : List UInt8) : List OutPacket :=
  compressAndSplit S.session (prepared S.session (S.command content))

/-- The packets of all commands. -/
def allParts (contents : List (List UInt8)) : List OutPacket := contents.flatMap (partsOf S)

/-- All parts, as the receiver takes them. -/
def stream (contents : List (List UInt8)) : PartStream where
  compressor := S.session.compressor
  headerLen := S.session.dir.headerLen
  first := S.first
  parts := (allParts S contents).map outPart

theorem length_stream (contents : List (List UInt8)) :
    (stream S contents).parts.length = (allParts S contents).length := List.length_map ..

theorem allParts_append (contents : List (List UInt8)) (content : List UInt8) :
    allParts S (contents ++ [content]) = allParts S contents ++ partsOf S content := by
  rw [allParts, List.flatMap_append, List.flatMap_singleton]
  rfl

theorem content_command (content : List UInt8) : (S.command content).content = content := by
  rw [LinkSetup.command, content_extend, content_newWithDir, List.nil_append]

/-- The header of a new command: its type is set, everything else is zero. -/
theorem fields_command (content : List UInt8) :
    (S.command content).fields =
      { mac := List.replicate 8 0
        packetId := 0
        clientId := if S.session.dir = .c2s then some 0 else none
        flags := .empty
        packetType := some S.packetType } := by
  rw [LinkSetup.command, fields_extend, fields_newWithDir]

/-- The packet of a command can be sent, and has none of the flags for parts yet. -/
theorem prepared_command (content : List UInt8) :
    Sendable S.session S.packetType (prepared S.session (S.command content)) ∧
      (prepared S.session (S.command content)).fields.flags.compressed = false ∧
      (prepared S.session (S.command content)).fields.flags.fragmented = false := by
  have hfields := fields_command S content
  refine sendable_prepared rfl ?_ ?_ ?_
  · rw [hfields]
  · rw [hfields]
  · intro hserver
    rw [hfields, Session.dir, hserver]
    rfl

/-- The parts of all commands give the commands. -/
theorem isCut_partsOf (content : List UInt8) :
    IsCut (takePart S.session.compressor S.session.dir.headerLen) none
      ((partsOf S content).map outPart) content := by
  obtain ⟨-, hcompressed, hfragmented⟩ := prepared_command S content
  have hcut := isCut_parts hcompressed hfragmented S.session S.session.dir.headerLen
  rw [content_prepared, content_command] at hcut
  exact hcut

theorem parts_stream (contents : List (List UInt8)) :
    (stream S contents).parts = contents.flatMap fun c => (partsOf S c).map outPart := by
  show (contents.flatMap (partsOf S)).map outPart = _
  rw [List.map_flatMap]

variable {S}

theorem sendable_of_mem {contents : List (List UInt8)} {p : OutPacket}
    (h : p ∈ allParts S contents) : Sendable S.session S.packetType p := by
  obtain ⟨content, -, hp⟩ := List.mem_flatMap.mp h
  obtain ⟨hsendable, hcompressed, hfragmented⟩ := prepared_command S content
  exact (sameHeader_of_mem hcompressed hfragmented hp).sendable hsendable

end Parts

/-! ### The invariant -/

section Invariant

variable {S : LinkSetup} {few : Prop}

/-- The packet of this number, as the resender has it. -/
def IsUdp (S : LinkSetup) (contents : List (List UInt8)) (k : Nat) (packet : OutUdpPacket) : Prop :=
  ∃ p, (allParts S contents)[k]? = some p ∧ packet = udpPart S.session (S.first + k) p

/-- What holds in every run. -/
structure Inv (S : LinkSetup) (few : Prop) (l : Link) : Prop where
  out : l.out = ofNumber (S.first + (allParts S l.sent).length)
  queues : ∀ i x, x ∈ packets (l.resender.fullSendQueue i) →
    i = S.resendType ∧ x.1 = keyOf x.2 ∧ ∃ k, IsUdp S l.sent k x.2
  wire : ∀ d ∈ l.wire, ∃ k packet, IsUdp S l.sent k packet ∧ d = packet.data.data
  lane : ∃ cur, (stream S l.sent).LaneAt l.lane cur l.delivered ∧
    (stream S l.sent).Queued few l.lane.receiveQueue cur ∧
    PartStream.Settled l.lane.receiveQueue cur

/-- The numbers and, if there are few packets, the ids are all different. -/
structure Bounded (S : LinkSetup) (few : Prop) (contents : List (List UInt8)) : Prop where
  numbers : S.first + (allParts S contents).length < numberLimit
  few : few → (allParts S contents).length < 2 ^ 16

/-- Fewer commands are in bounds, too. -/
theorem Bounded.of_prefix {contents contents' : List (List UInt8)} (h : contents <+: contents')
    (hb : Bounded S few contents') : Bounded S few contents := by
  obtain ⟨more, rfl⟩ := h
  have hlen : (allParts S contents).length ≤ (allParts S (contents ++ more)).length := by
    rw [allParts, allParts, List.flatMap_append, List.length_append]
    exact Nat.le_add_right _ _
  exact ⟨Nat.lt_of_le_of_lt (Nat.add_le_add_left hlen _) hb.numbers,
    fun h => Nat.lt_of_le_of_lt hlen (hb.few h)⟩

/-- No step takes a command back. -/
theorem sent_isPrefix {l l' : Link} {e : LinkEvent} (h : Link.next S e l = some l') :
    l.sent <+: l'.sent := by
  cases e with
  | send now content =>
      obtain ⟨-, h⟩ := Option.ite_none_left_eq_some.mp h
      cases h
      exact List.prefix_append _ _
  | poll rounds =>
      obtain ⟨-, h⟩ := Option.ite_none_left_eq_some.mp h
      obtain ⟨result, -, heq⟩ := Option.map_eq_some_iff.mp h
      cases heq
      exact List.prefix_refl _
  | setState state =>
      obtain ⟨-, h⟩ := Option.ite_none_left_eq_some.mp h
      cases h
      exact List.prefix_refl _
  | arrive data =>
      obtain ⟨-, h⟩ := Option.ite_none_left_eq_some.mp h
      cases h
      rw [Link.arrive]
      split <;> exact List.prefix_refl _
  | ackArrives now id =>
      obtain ⟨-, h⟩ := Option.ite_none_left_eq_some.mp h
      cases h
      exact List.prefix_refl _

/-- A new connection satisfies the invariant: nothing was sent, and both sides start at the same id.
-/
theorem inv_of_starts {l : Link} (h : Link.Starts S l) : Inv S few l := by
  have hparts : allParts S l.sent = [] := by
    rw [h.sent]
    rfl
  constructor
  · rw [hparts, h.out]
    rfl
  · intro i x hx
    rw [SendQueue.packets, h.queues i] at hx
    exact absurd hx List.not_mem_nil
  · intro d hd
    rw [h.wire] at hd
    exact absurd hd List.not_mem_nil
  -- The stream is empty, so the lane stands at its start.
  · refine ⟨S.first, ⟨?_, Nat.le_refl _, Nat.le_add_right _ _, ?_, ?_⟩, ?_, ?_⟩
    · rw [h.next, h.out]
      rfl
    · intro p hp
      rw [h.fragmentedQueue] at hp
      cases hp
    · show feed _ none ((stream S l.sent).parts.take (S.first - S.first)) = _
      rw [Nat.sub_self, List.take_zero, h.delivered, fragmentsOf, h.fragmentedQueue]
      rfl
    · rw [h.receiveQueue]
      exact ⟨fun q hq => absurd hq List.not_mem_nil, .inr .nil⟩
    · rw [h.receiveQueue]
      exact fun q hq => absurd hq List.not_mem_nil

/-! ### The steps of the sender -/

/-- A new command goes to the end of the stream. -/
theorem stream_append (contents : List (List UInt8)) (content : List UInt8) :
    stream S (contents ++ [content]) =
      (stream S contents).append ((partsOf S content).map outPart) := by
  show PartStream.mk _ _ _ _ = PartStream.mk _ _ _ _
  rw [allParts_append, List.map_append]
  rfl

/-- A packet keeps its place in a longer stream. -/
theorem IsUdp.append {contents : List (List UInt8)} {k : Nat} {packet : OutUdpPacket}
    (h : IsUdp S contents k packet) (content : List UInt8) :
    IsUdp S (contents ++ [content]) k packet := by
  obtain ⟨p, hp, hpacket⟩ := h
  refine ⟨p, ?_, hpacket⟩
  rw [allParts_append, List.getElem?_append_left (List.getElem?_eq_some_iff.mp hp).1]
  exact hp

/-- The packets that `send_packet` gives to the resender. -/
def newPackets (S : LinkSetup) (n : Nat) (content : List UInt8) : List OutUdpPacket :=
  (partsOf S content).mapIdx fun i p => udpPart S.session (n + i) p

/-- `encode_packet` numbers the parts of a command from the next id on. -/
theorem encodePacket_command {n : Nat} {content : List UInt8}
    (h : n + (partsOf S content).length ≤ numberLimit) :
    encodePacket S.session (ofNumber n) (S.command content) =
      (newPackets S n content, ofNumber (n + (partsOf S content).length)) := by
  rw [encodePacket]
  exact encodeParts_ofNumber h

/-- The new packets are behind the old ones. -/
theorem isUdp_of_mem_newPackets {contents : List (List UInt8)} {content : List UInt8}
    {packet : OutUdpPacket}
    (h : packet ∈ newPackets S (S.first + (allParts S contents).length) content) :
    ∃ k, (allParts S contents).length ≤ k ∧ IsUdp S (contents ++ [content]) k packet := by
  obtain ⟨i, hi, heq⟩ := List.mem_mapIdx.mp h
  refine ⟨(allParts S contents).length + i, Nat.le_add_right _ _, (partsOf S content)[i], ?_, ?_⟩
  · rw [allParts_append, List.getElem?_append_right (Nat.le_add_right _ _), Nat.add_sub_cancel_left]
    exact List.getElem?_eq_getElem hi
  · rw [← Nat.add_assoc]
    exact heq.symm

/-- What the resender has after it got packets. -/
theorem mem_packets_foldl {cc : CongestionControl} {now : Nat} {i j : ResendType}
    {ps : List OutUdpPacket} {r : Resender} {x : PartialPacketId × OutUdpPacket}
    (h : x ∈ packets ((ps.foldl (fun r p => r.sendPacket cc now i p) r).fullSendQueue j)) :
    (j = i ∧ x.1 = keyOf x.2 ∧ x.2 ∈ ps) ∨ x ∈ packets (r.fullSendQueue j) := by
  induction ps generalizing r with
  | nil => exact .inr h
  | cons p ps ih =>
      rcases ih h with ⟨hj, hkey, hmem⟩ | hmem
      · exact .inl ⟨hj, hkey, List.mem_cons_of_mem p hmem⟩
      · rcases Resender.mem_packets_sendPacket hmem with ⟨hj, rfl⟩ | hold
        · exact .inl ⟨hj, rfl, List.mem_cons_self⟩
        · exact .inr hold

/-- Sending a command keeps the invariant. Its parts go on where the older ones end. -/
theorem Inv.send {l : Link} (h : Inv S few l) {now : Nat} {content : List UInt8}
    (hb : Bounded S few (l.sent ++ [content])) : Inv S few (l.send S now content) := by
  have hlen : (allParts S (l.sent ++ [content])).length =
      (allParts S l.sent).length + (partsOf S content).length := by
    rw [allParts_append, List.length_append]
  have hnumbers := hb.numbers
  rw [hlen] at hnumbers
  have hencode : encodePacket S.session l.out (S.command content) =
      (newPackets S (S.first + (allParts S l.sent).length) content,
        ofNumber (S.first + (allParts S l.sent).length + (partsOf S content).length)) := by
    rw [h.out]
    exact encodePacket_command (by omega)
  constructor
  · show (encodePacket S.session l.out (S.command content)).2 =
      ofNumber (S.first + (allParts S (l.sent ++ [content])).length)
    rw [hencode, hlen, Nat.add_assoc]
  -- A packet in a queue is a part of the new command, or one of before.
  · intro i x hx
    rw [Link.send, hencode] at hx
    rcases mem_packets_foldl hx with ⟨hi, hkey, hmem⟩ | hold
    · obtain ⟨k, -, hk⟩ := isUdp_of_mem_newPackets hmem
      exact ⟨hi, hkey, k, hk⟩
    · obtain ⟨hi, hkey, k, hk⟩ := h.queues i x hold
      exact ⟨hi, hkey, k, hk.append content⟩
  · intro d hd
    obtain ⟨k, packet, hk, heq⟩ := h.wire d hd
    exact ⟨k, packet, hk.append content, heq⟩
  -- A longer stream has the old one as its front, so the lane stays where it is.
  · obtain ⟨cur, hlane, hqueue, hsettled⟩ := h.lane
    refine ⟨cur, ?_, ?_, hsettled⟩
    · show (stream S (l.sent ++ [content])).LaneAt _ _ _
      rw [stream_append]
      exact hlane.append _
    · show (stream S (l.sent ++ [content])).Queued _ _ _
      rw [stream_append]
      exact hqueue.append _

/-- Polling writes only packets that are in the send queues. -/
theorem Inv.poll {l l' : Link} (h : Inv S few l) {rounds : List Resender.Round}
    (hpoll : l.poll S rounds = some l') : Inv S few l' := by
  obtain ⟨⟨r, sent⟩, hrounds, rfl⟩ := Option.map_eq_some_iff.mp hpoll
  obtain ⟨hkeep, hsent⟩ := Resender.pollResend_packets hrounds
  refine ⟨h.out, fun i x hx => h.queues i x (hkeep i ▸ hx), fun d hd => ?_, h.lane⟩
  cases List.mem_append.mp hd with
  | inl hold => exact h.wire d hold
  | inr hnew =>
      obtain ⟨packet, hpacket, rfl⟩ := List.mem_map.mp hnew
      obtain ⟨i, id, hmem⟩ := hsent packet hpacket
      obtain ⟨-, -, k, hk⟩ := h.queues i (id, packet) hmem
      exact ⟨k, packet, hk, rfl⟩

theorem Inv.ackArrives {l : Link} (h : Inv S few l) (now : Nat) (id : UInt16) :
    Inv S few (l.ackArrives S now id) := by
  refine ⟨h.out, fun i x hx => ?_, h.wire, h.lane⟩
  have hx' : x ∈ packets ((l.resender.ackPacket now l.out S.resendType id).1.fullSendQueue i) := hx
  exact h.queues i x (Resender.mem_of_mem_packets_ackPacket hx')

/-! ### The step of the receiver -/

/-- The number of a packet that waits: the first one from the expected one on that has its id. -/
def waitingNumber (lane : CommandLane) (q : InPacket) : Nat :=
  lane.next.number + (q.packetId - lane.next.packetId).toNat

/-- The packet of a datagram does not wait already. Another one with its id, 2 ^ 16 before, may. -/
def Fresh (S : LinkSetup) (l : Link) (data : List UInt8) : Prop :=
  ∀ k packet, IsUdp S l.sent k packet → data = packet.data.data →
    ∀ waiting ∈ l.lane.receiveQueue, waitingNumber l.lane waiting ≠ S.first + k

/-- The packet of this number was taken, or waits. -/
def Received (l : Link) (n : Nat) : Prop :=
  n < l.lane.next.number ∨ ∃ q ∈ l.lane.receiveQueue, q.packetId = (ofNumber n).packetId

theorem number_ofNumber {n : Nat} (h : n < numberLimit) : (ofNumber n).number = n := by
  rw [numberLimit] at h
  rw [PartialPacketId.number, toNat_generationId (by omega), toNat_packetId]
  omega

/-- A packet of the next 2 ^ 16 that waits has its own number. -/
theorem waitingNumber_eq {lane : CommandLane} {q : InPacket} {cur n : Nat}
    (hnext : lane.next = ofNumber cur) (hcur : cur < numberLimit) (hle : cur ≤ n)
    (hlt : n < cur + 2 ^ 16) (hid : q.packetId = (ofNumber n).packetId) :
    waitingNumber lane q = n := by
  rw [waitingNumber, hnext, hid, number_ofNumber hcur, UInt16.toNat_sub, toNat_packetId,
    toNat_packetId]
  omega

/-- What is known when a datagram has arrived. -/
structure Arrived (S : LinkSetup) (few : Prop) (l l' : Link) : Prop where
  inv : Inv S few l'
  out : l'.out = l.out
  resender : l'.resender = l.resender
  sent : l'.sent = l.sent
  items : l'.items = l.items
  received : few → ∀ n, S.first ≤ n → n < S.first + (allParts S l.sent).length → Received l n →
    Received l' n
  /-- Only packets that were received, or that are too far ahead, are acknowledged. -/
  acks : ∀ id ∈ l'.acks, id ∈ l.acks ∨ ∃ k < (allParts S l.sent).length,
    id = (ofNumber (S.first + k)).packetId ∧
      (Received l' (S.first + k) ∨ l.lane.next.number + 32767 ≤ S.first + k)

/-- An arriving datagram keeps the invariant, if it is fresh or there are fewer packets than ids. -/
theorem Inv.arrive {l : Link} (h : Inv S few l) (hb : Bounded S few l.sent) {data : List UInt8}
    (hdata : data ∈ l.wire) (honce : few ∨ Fresh S l data) :
    Arrived S few l (l.arrive S data) := by
  -- The datagram is a part that was sent. It can be delayed, repeated or out of order.
  obtain ⟨k, packet, ⟨p, hp, rfl⟩, rfl⟩ := h.wire data hdata
  obtain ⟨cur, hlane, hqueue, hsettled⟩ := h.lane
  have hk : k < (allParts S l.sent).length := (List.getElem?_eq_some_iff.mp hp).1
  have hlimit := hb.numbers
  have hlen := length_stream S l.sent
  have hcur : cur ≤ S.first + (allParts S l.sent).length := by
    rw [← hlen]
    exact hlane.le
  -- It is opened with the number that it was sealed with, or dropped.
  obtain ⟨q, part, hnew, hqid, hid, hpart, hheader, hhandle⟩ :=
    handleUdpPacket_sealPart (n := S.first + k) (sendable_of_mem (List.mem_of_getElem? hp))
      (by omega) (by omega) hlane.next
  have hnumber : l.lane.next.number = cur := by
    rw [hlane.next, number_ofNumber (by omega)]
  have hhandle' : handleUdpPacket S.peer S.packetType l.lane
      (udpPart S.session (S.first + k) p).data.data = _ := hhandle
  rw [Link.arrive, hhandle']
  -- Is the packet in the window of the receiver?
  by_cases hwindow : cur ≤ S.first + k ∧ S.first + k < cur + 32767
  · have hispart : (stream S l.sent).IsPart part (S.first + k) := by
      refine ⟨Nat.le_add_right _ _, ?_, hid, ?_, hheader⟩
      · rw [hlen]
        exact Nat.add_lt_add_left hk _
      · show ((allParts S l.sent).map outPart)[S.first + k - S.first]? = _
        rw [Nat.add_sub_cancel_left, List.getElem?_map, hp, Option.map_some, hpart]
    rw [if_pos hwindow]
    -- A part that cannot be handled delivers nothing and leaves the lane as it was.
    cases hcommand : handleCommandPacket S.session.compressor l.lane part with
    | error e => exact ⟨⟨h.out, h.queues, h.wire, h.lane⟩, rfl, rfl, rfl, rfl, fun _ n _ _ hn => hn,
        fun id hid => .inl hid⟩
    | ok result =>
        obtain ⟨lane', commands⟩ := result
        have honce' : few ∨ ∀ q' ∈ l.lane.receiveQueue, q'.packetId ≠ part.packetId := by
          refine honce.imp_right fun hfresh q' hq' heq => ?_
          exact hfresh k _ ⟨p, hp, rfl⟩ rfl q' hq'
            (waitingNumber_eq hlane.next (by omega) hwindow.1 (by omega) (heq.trans hid))
        have hfew : few → (stream S l.sent).parts.length < 2 ^ 16 := by
          rw [hlen]
          exact hb.few
        have hle : (stream S l.sent).first + (stream S l.sent).parts.length ≤ numberLimit := by
          rw [hlen]
          exact hlimit.le
        -- The lane takes this part and those that waited behind it, or keeps it for later.
        obtain ⟨cur', hcur', hlane', hqueue', hsettled', hin, hkept⟩ :=
          PartStream.handleCommandPacket_ok hlane hqueue hsettled hispart hwindow.1 hwindow.2
            honce' hle hfew hcommand
        have hnumber' : lane'.next.number = cur' := by
          have := hlane'.le
          rw [hlen] at this
          have hfirst : (stream S l.sent).first = S.first := rfl
          rw [hlane'.next, number_ofNumber (by omega)]
        refine ⟨⟨h.out, h.queues, h.wire, cur', hlane', hqueue', hsettled'⟩, rfl, rfl, rfl, rfl, ?_,
          ?_⟩
        -- What was received stays received: it is below the next number, or it still waits.
        · intro hisfew n hge hlt hn
          cases hn with
          | inl hlt =>
              rw [hnumber] at hlt
              exact .inl (by show n < lane'.next.number; omega)
          | inr hwaits =>
              obtain ⟨q', hq', hqn⟩ := hwaits
              cases hkept q' hq' with
              | inl hstays => exact .inr ⟨q', hstays, hqn⟩
              | inr htaken =>
                  -- The ids are all different, so the packet was taken as the one that it is.
                  obtain ⟨m, hm, hm', hmid⟩ := htaken
                  have hmn : (ofNumber m).packetId = (ofNumber n).packetId := hmid.symm.trans hqn
                  have hsmall := hb.few hisfew
                  have hcurge : S.first ≤ cur := hlane.ge
                  have hcurle : cur' ≤ S.first + (allParts S l.sent).length := by
                    rw [← hlen]
                    exact hlane'.le
                  have heq : m = n := by
                    cases Nat.le_total m n with
                    | inl hle => exact packetId_inj hmn hle (by omega)
                    | inr hle => exact (packetId_inj hmn.symm hle (by omega)).symm
                  exact .inl (by show n < lane'.next.number; omega)
        -- The acknowledgement is about this part, which was taken or waits.
        · intro id hid'
          cases List.mem_append.mp hid' with
          | inl hold => exact .inl hold
          | inr hnew =>
              refine .inr ⟨k, hk, List.mem_singleton.mp hnew, .inl ?_⟩
              cases hin with
              | inl hlt => exact .inl (by show _ < lane'.next.number; omega)
              | inr hwaits => exact .inr ⟨part, hwaits, hid⟩
  -- Outside of the window the part is dropped. It may be acknowledged, for an ack that was lost.
  · rw [if_neg hwindow]
    refine ⟨⟨h.out, h.queues, h.wire, cur, ?_, hqueue, hsettled⟩, rfl, rfl, rfl, rfl,
      fun _ n _ _ hn => hn, ?_⟩
    · show (stream S l.sent).LaneAt l.lane cur (l.delivered ++ [])
      rw [List.append_nil]
      exact hlane
    · intro id hid'
      cases List.mem_append.mp hid' with
      | inl hold => exact .inl hold
      | inr hnew =>
          split at hnew
          · cases hnew
          · refine .inr ⟨k, hk, List.mem_singleton.mp hnew, ?_⟩
            by_cases hlt : S.first + k < cur
            · exact .inl (.inl (by show _ < l.lane.next.number; omega))
            · exact .inr (by omega)

/-! ### Runs -/

/-- A packet that waits does not come again. -/
def WaitsOnce (S : LinkSetup) (l : Link) : LinkEvent → Prop
  | .arrive data => Fresh S l data
  | _ => True

/-- The invariant is kept. -/
theorem Inv.step {l l' : Link} {e : LinkEvent} (h : Inv S few l) (hb : Bounded S few l'.sent)
    (hok : few ∨ WaitsOnce S l e) (hnext : Link.next S e l = some l') : Inv S few l' := by
  have hprefix := sent_isPrefix hnext
  cases e with
  | send now content =>
      obtain ⟨-, heq⟩ := Option.ite_none_left_eq_some.mp hnext
      cases heq
      exact h.send hb
  | poll rounds =>
      obtain ⟨-, hpoll⟩ := Option.ite_none_left_eq_some.mp hnext
      exact h.poll hpoll
  | setState state =>
      obtain ⟨-, heq⟩ := Option.ite_none_left_eq_some.mp hnext
      cases heq
      exact ⟨h.out, h.queues, h.wire, h.lane⟩
  | arrive data =>
      obtain ⟨hopen, heq⟩ := Option.ite_none_left_eq_some.mp hnext
      cases heq
      have hdata : data ∈ l.wire := Decidable.not_not.mp (not_or.mp hopen).2
      exact (h.arrive (hb.of_prefix hprefix) hdata hok).inv
  | ackArrives now id =>
      obtain ⟨-, heq⟩ := Option.ite_none_left_eq_some.mp hnext
      cases heq
      exact h.ackArrives now id

/-- The invariant holds in every run. -/
theorem inv_of_run {l : Link}
    (hrun : System.Run (Link.system S) (fun s e => few ∨ WaitsOnce S s e) l)
    (hb : Bounded S few l.sent) : Inv S few l := by
  induction hrun with
  | start h => exact inv_of_starts h
  | step _ hok hnext ih =>
      exact (ih (hb.of_prefix (sent_isPrefix hnext))).step hb hok hnext

/-- What was delivered are the first of the commands. -/
theorem Inv.delivered {l : Link} (h : Inv S few l) : l.delivered <+: l.sent := by
  obtain ⟨cur, hlane, -⟩ := h.lane
  have hparts : l.sent.flatMap (fun c => (partsOf S c).map outPart) =
      (stream S l.sent).parts.take (cur - S.first) ++
        (stream S l.sent).parts.drop (cur - S.first) := by
    rw [List.take_append_drop, parts_stream]
  have hprefix : l.delivered <+: l.sent.map fun c => c :=
    feed_isPrefix (fun c _ => isCut_partsOf S c) hparts hlane.taken
  rw [List.map_id'] at hprefix
  exact hprefix

/-- In every run the receiver has given the first of the commands that were sent, in their order and
each of them once. Numbers have 48 bits, and there are fewer than 2 ^ 16 packets, or no packet comes
again while it waits for the ones before. -/
theorem delivered_isPrefix (S : LinkSetup) (l : Link)
    (hrun : System.Run (Link.system S)
      (fun s e => (allParts S l.sent).length < 2 ^ 16 ∨ WaitsOnce S s e) l)
    (hlimit : S.first + (allParts S l.sent).length < numberLimit) : l.delivered <+: l.sent :=
  (inv_of_run hrun ⟨hlimit, fun h => h⟩).delivered

end Invariant

/-! ### A run: two commands arrive in the wrong order, and one of them twice -/

namespace PlainLink

/-- A client that sends, with a window of twenty packets. -/
def setup : LinkSetup where
  session := session
  cc := ⟨fun _ _ => 20, fun _ _ => by decide, fun _ _ => by decide⟩
  low := false
  first := 1

def hi : List UInt8 := [0, 0, 0, 0, 0, 0, 0, 0, 0, 1, 0, 1, 34] ++ ascii "hi"

def yo : List UInt8 := [0, 0, 0, 0, 0, 0, 0, 0, 0, 2, 0, 1, 34] ++ ascii "yo"

def events : List LinkEvent :=
  [.send 0 (ascii "hi"), .send 0 (ascii "yo"),
    .poll [⟨1, 0, false, .sent⟩, ⟨2, 1, false, .sent⟩, ⟨3, 0, false, .sent⟩],
    .arrive yo, .arrive hi, .arrive hi, .ackArrives 4 2, .ackArrives 5 1]

end PlainLink

/-- The run of `PlainLink` delivers both commands, in order. -/
theorem delivered_isPrefix_reordered :
    ∃ l, System.Run (Link.system PlainLink.setup) (fun _ _ => True) l ∧
      l.delivered = [ascii "hi", ascii "yo"] ∧ l.delivered <+: l.sent := by
  obtain ⟨l, hrun, hl⟩ := System.Run.exists_of_exec (Link.system PlainLink.setup)
    (fun _ _ => True) (fun _ _ => true) PlainLink.events (fun l => (l.sent, l.delivered))
    (a := ([ascii "hi", ascii "yo"], [ascii "hi", ascii "yo"])) (fun _ _ _ => trivial)
    (.start (Link.starts_start PlainLink.setup)) (by decide +kernel)
  obtain ⟨hsent, hdelivered⟩ := Prod.mk.inj hl
  have hfew : (allParts PlainLink.setup l.sent).length = 2 := by
    rw [hsent]
    decide +kernel
  exact ⟨l, hrun, hdelivered, delivered_isPrefix PlainLink.setup l
    (hrun.mono fun _ _ _ => .inl (by rw [hfew]; decide)) (by rw [hfew]; decide)⟩

end Nek0.Proofs.Protocol
