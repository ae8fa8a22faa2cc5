import Nek0.Proofs.Protocol.CommandOrder

/-!
# `Nek0.Proofs.Protocol.Acknowledgements`: what is acknowledged was received

A packet leaves the send queue only when the receiver has it (`Covered`): when the queue is empty
all commands were delivered (`delivered_of_isEmpty`), and an `AckPacket` item that is not below the
id that `send_packet` has given for a command is about commands that were delivered
(`delivered_of_item`).

Ids are those of fewer than 2 ^ 16 packets. From the oldest one that is not acknowledged to the next
one to be sent it is never further than 32767 (`Backlog`). The receiver acknowledges a packet that
is further ahead of the one that it waits for, and drops it: the first of many waiting packets may
be the one that is lost, so what counts is this span and not how many of them are waiting.
-/

set_option autoImplicit false

namespace Nek0.Proofs.Protocol

open Nek0.Protocol
open Nek0.Lib (System)
open Nek0.Lib.Transducer
open Resender (keyOf)
open SendQueue (packets)

section Covered

variable {S : LinkSetup}

/-- From the oldest packet that is not acknowledged to the next id it is at most 32767. -/
def Backlog (S : LinkSetup) (l : Link) : Prop :=
  ∀ rec ∈ (l.resender.fullSendQueue S.resendType).records,
    (l.out.packetId - rec.part.packetId).toNat ≤ 32767

/-- A packet is in the send queue, or the receiver has it. -/
structure Covered (S : LinkSetup) (l : Link) : Prop where
  covered : ∀ k < (allParts S l.sent).length,
    (∃ x ∈ packets (l.resender.fullSendQueue S.resendType),
      x.1.packetId = (ofNumber (S.first + k)).packetId) ∨ Received l (S.first + k)
  acks : ∀ id ∈ l.acks, ∃ k < (allParts S l.sent).length,
    id = (ofNumber (S.first + k)).packetId ∧ Received l (S.first + k)

/-- At the start nothing was sent, so nothing has to be covered. -/
theorem covered_of_starts {l : Link} (h : Link.Starts S l) : Covered S l := by
  have hparts : (allParts S l.sent).length = 0 := by
    rw [h.sent]
    rfl
  constructor
  · intro k hk
    omega
  · intro id hid
    rw [h.acks] at hid
    exact absurd hid List.not_mem_nil

/-- The key of a packet in the send queue: its id, and the generation of the id behind it. -/
theorem keyOf_udpPart {contents : List (List UInt8)} {p : OutPacket} (hp : p ∈ allParts S contents)
    (n : Nat) :
    keyOf (udpPart S.session n p) = ⟨(ofNumber (n + 1)).generationId, (ofNumber n).packetId⟩ := by
  have hfields := fields_sealPart S.session n p
  have htype := (sendable_of_mem hp).packetType
  -- Only Init packets take their id from the content. The parts of a command are of another type.
  have hcommand : (sealPart S.session n p).fields.packetType ≠ some .init := by
    rw [hfields]
    dsimp only
    rw [htype, LinkSetup.packetType]
    split <;> exact fun h => nomatch h
  rw [keyOf]
  show PartialPacketId.mk _ (sealPart S.session n p).udpPacketId = _
  rw [OutPacket.udpPacketId, if_neg hcommand, hfields]
  rfl

/-- The ids of few packets are all different. -/
theorem eq_of_packetId {n i j : Nat} (hi : i < 2 ^ 16) (hj : j < 2 ^ 16)
    (h : (ofNumber (n + i)).packetId = (ofNumber (n + j)).packetId) : i = j := by
  cases Nat.le_total i j with
  | inl hle =>
      have := packetId_inj h (by omega) (by omega)
      omega
  | inr hle =>
      have := packetId_inj h.symm (by omega) (by omega)
      omega

/-! ### The packets of a command go to the resender -/

/-- A packet in the queue stays there behind others with other keys. -/
theorem mem_packets_foldl_of_mem {cc : CongestionControl} {now : Nat} {i j : ResendType}
    {ps : List OutUdpPacket} {r : Resender} {x : PartialPacketId × OutUdpPacket}
    (h : x ∈ packets (r.fullSendQueue j)) (hne : ∀ p ∈ ps, x.1 ≠ keyOf p) :
    x ∈ packets ((ps.foldl (fun r p => r.sendPacket cc now i p) r).fullSendQueue j) := by
  induction ps generalizing r with
  | nil => exact h
  | cons p ps ih =>
      exact ih (Resender.mem_packets_sendPacket_of_mem h (hne p List.mem_cons_self))
        fun q hq => hne q (List.mem_cons_of_mem p hq)

/-- Of the packets that are queued in a row, one whose key none of the later ones has is there. -/
theorem mem_packets_foldl_self {cc : CongestionControl} {now : Nat} {i : ResendType}
    {ps : List OutUdpPacket} {r : Resender} {k : Nat} {packet : OutUdpPacket}
    (hk : ps[k]? = some packet)
    (hne : ∀ j p, k < j → ps[j]? = some p → keyOf packet ≠ keyOf p) :
    (keyOf packet, packet) ∈
      packets ((ps.foldl (fun r p => r.sendPacket cc now i p) r).fullSendQueue i) := by
  induction ps generalizing r k with
  | nil => cases hk
  | cons p ps ih =>
      cases k with
      | zero =>
          -- It is queued first, and the others leave it there.
          cases hk
          rw [List.foldl_cons]
          refine mem_packets_foldl_of_mem (Resender.mem_packets_sendPacket_self now r i packet) ?_
          intro q hq
          obtain ⟨j, hj, rfl⟩ := List.getElem_of_mem hq
          refine hne (j + 1) _ (Nat.succ_pos j) ?_
          rw [List.getElem?_cons_succ]
          exact List.getElem?_eq_getElem hj
      | succ k =>
          exact ih hk fun j q hj hq => hne (j + 1) q (Nat.succ_lt_succ hj) hq

/-- Sending a command keeps the link covered: the old packets stay, the new ones are queued. -/
theorem Covered.send {l : Link} (h : Covered S l) (hinv : Inv S True l) {now : Nat}
    {content : List UInt8} (hb : Bounded S True (l.sent ++ [content])) :
    Covered S (l.send S now content) := by
  have hlen : (allParts S (l.sent ++ [content])).length =
      (allParts S l.sent).length + (partsOf S content).length := by
    rw [allParts_append, List.length_append]
  have hnumbers := hb.numbers
  have hfew := hb.few trivial
  rw [hlen] at hnumbers hfew
  have hencode : encodePacket S.session l.out (S.command content) =
      (newPackets S (S.first + (allParts S l.sent).length) content,
        -- The parts get the ids from the next one on, without a gap.
        ofNumber (S.first + (allParts S l.sent).length + (partsOf S content).length)) := by
    rw [hinv.out]
    exact encodePacket_command (by omega)
  -- The new packets, by their places.
  have hnew : ∀ j p, (newPackets S (S.first + (allParts S l.sent).length) content)[j]? = some p →
      j < (partsOf S content).length ∧
        (keyOf p).packetId = (ofNumber (S.first + ((allParts S l.sent).length + j))).packetId := by
    intro j p hp
    rw [newPackets, List.getElem?_mapIdx] at hp
    obtain ⟨part, hpart, rfl⟩ := Option.map_eq_some_iff.mp hp
    have hmem : part ∈ allParts S (l.sent ++ [content]) := by
      rw [allParts_append]
      exact List.mem_append_right _ (List.mem_of_getElem? hpart)
    rw [keyOf_udpPart hmem]
    refine ⟨(List.getElem?_eq_some_iff.mp hpart).1, ?_⟩
    show (ofNumber (S.first + (allParts S l.sent).length + j)).packetId = _
    rw [Nat.add_assoc]
  constructor
  · intro k hk
    rw [Link.send, hencode]
    -- An old packet keeps its place, unless a new one has the same key.
    by_cases hold : k < (allParts S l.sent).length
    · cases h.covered k hold with
      | inr hreceived => exact .inr hreceived
      | inl hqueue =>
          obtain ⟨x, hx, hid⟩ := hqueue
          refine .inl ⟨x, mem_packets_foldl_of_mem hx ?_, hid⟩
          intro p hp heq
          obtain ⟨j, hj, rfl⟩ := List.getElem_of_mem hp
          obtain ⟨hj', hkey⟩ := hnew j _ (List.getElem?_eq_getElem hj)
          -- Fewer packets than ids: two places with one id are one place.
          have := eq_of_packetId (by omega) (by omega)
            (hid.symm.trans ((congrArg _ heq).trans hkey))
          omega
    -- A new packet is queued, and the ones behind it have other keys.
    · obtain ⟨j, rfl⟩ := Nat.exists_eq_add_of_le (Nat.not_lt.mp hold)
      have hk' : (allParts S l.sent).length + j < (allParts S (l.sent ++ [content])).length := hk
      rw [hlen] at hk'
      have hjlt : j < (newPackets S (S.first + (allParts S l.sent).length) content).length := by
        rw [newPackets, List.length_mapIdx]
        omega
      have hget := List.getElem?_eq_getElem hjlt
      obtain ⟨hj, hkey⟩ := hnew j _ hget
      refine .inl ⟨_, mem_packets_foldl_self hget ?_, hkey⟩
      intro j' p hlt hp heq
      obtain ⟨hj', hkey'⟩ := hnew j' p hp
      have := eq_of_packetId (by omega) (by omega) (hkey.symm.trans ((congrArg _ heq).trans hkey'))
      omega
  -- No acknowledgement is new. The places that they are about are still there.
  · intro id hid
    obtain ⟨k, hk, heq⟩ := h.acks id hid
    refine ⟨k, ?_, heq⟩
    show k < (allParts S (l.sent ++ [content])).length
    omega

/-- Polling keeps the link covered: it sends packets and leaves the queues. -/
theorem Covered.poll {l l' : Link} (h : Covered S l) {rounds : List Resender.Round}
    (hpoll : l.poll S rounds = some l') : Covered S l' := by
  obtain ⟨⟨r, sent⟩, hrounds, rfl⟩ := Option.map_eq_some_iff.mp hpoll
  obtain ⟨hkeep, -⟩ := Resender.pollResend_packets hrounds
  refine ⟨fun k hk => ?_, h.acks⟩
  refine (h.covered k hk).imp_left fun hqueue => ?_
  show ∃ x ∈ packets ((r.getD l.resender).fullSendQueue S.resendType), _
  rw [hkeep]
  exact hqueue

/-- An arriving acknowledgement takes a packet out of the queue only if it was received. -/
theorem Covered.ackArrives {l : Link} (h : Covered S l) (hb : Bounded S True l.sent) {now : Nat}
    {id : UInt16} (hid : id ∈ l.acks) : Covered S (l.ackArrives S now id) := by
  refine ⟨fun k hk => ?_, h.acks⟩
  have hfew := hb.few trivial
  have hk' : k < (allParts S l.sent).length := hk
  cases h.covered k hk with
  | inr hreceived => exact .inr hreceived
  | inl hqueue =>
      -- The keys have the same id, or the record is not the acknowledged one.
      obtain ⟨x, hx, hxid⟩ := hqueue
      by_cases heq : x.1.packetId = id
      · -- The packet that goes was received.
        obtain ⟨k', hk'', hid', hreceived⟩ := h.acks id hid
        have hkk : k = k' :=
          eq_of_packetId (by omega) (by omega) (hxid.symm.trans (heq.trans hid'))
        exact .inr (hkk ▸ hreceived)
      · have hkeep : x ∈ packets
            ((l.resender.ackPacket now l.out S.resendType id).1.fullSendQueue S.resendType) :=
          (Resender.mem_packets_ackPacket (.inl heq)).mpr hx
        exact .inl ⟨x, hkeep, hxid⟩

/-- An arriving packet keeps the link covered. What it acknowledges is received, or was before. -/
theorem Covered.arrive {l : Link} (h : Covered S l) (hinv : Inv S True l)
    (hb : Bounded S True l.sent) (hbacklog : Backlog S l) {data : List UInt8}
    (hdata : data ∈ l.wire) : Covered S (l.arrive S data) := by
  have harrived := hinv.arrive hb hdata (.inl trivial)
  have hlimit := hb.numbers
  have hfew := hb.few trivial
  -- The packet that is expected is in the send queue: nothing is too far ahead.
  have hahead : ∀ k < (allParts S l.sent).length, S.first + k < l.lane.next.number + 32767 := by
    intro k hk
    obtain ⟨cur, hlane, -, hsettled⟩ := hinv.lane
    have hle := hlane.le
    have hge : S.first ≤ cur := hlane.ge
    have hfirst : (stream S l.sent).first = S.first := rfl
    rw [length_stream, hfirst] at hle
    rw [hlane.next, number_ofNumber (by omega)]
    -- All parts were taken, or the next one is unreceived and so still in the send queue.
    by_cases hall : cur = S.first + (allParts S l.sent).length
    · omega
    · obtain ⟨i, rfl⟩ := Nat.exists_eq_add_of_le hge
      cases h.covered i (by omega) with
      | inr hreceived =>
          cases hreceived with
          | inl hlt =>
              rw [hlane.next, number_ofNumber (by omega)] at hlt
              exact absurd hlt (Nat.lt_irrefl _)
          | inr hwaits =>
              obtain ⟨q, hq, hid⟩ := hwaits
              -- The packet that is expected does not wait in the receive queue: it would have been
              -- taken.
              exact absurd hid (hsettled q hq)
      | inl hqueue =>
          obtain ⟨x, hx, hid⟩ := hqueue
          obtain ⟨rec, hrec, hpart, -⟩ := SendQueue.mem_packets.mp hx
          have hspan := hbacklog rec hrec
          -- The backlog says how far the sender can be ahead of it.
          rw [hpart, hid, hinv.out, UInt16.toNat_sub, toNat_packetId, toNat_packetId] at hspan
          omega
  constructor
  · intro k hk
    rw [harrived.sent] at hk
    rw [harrived.resender]
    exact (h.covered k hk).imp_right fun hreceived =>
      harrived.received trivial _ (Nat.le_add_right _ _) (Nat.add_lt_add_left hk _) hreceived
  · intro id hid
    rw [harrived.sent]
    cases harrived.acks id hid with
    | inl hold =>
        obtain ⟨k, hk, heq, hreceived⟩ := h.acks id hold
        exact ⟨k, hk, heq,
          harrived.received trivial _ (Nat.le_add_right _ _) (Nat.add_lt_add_left hk _) hreceived⟩
    -- A packet that is acknowledged without being received would be too far ahead.
    | inr hnew =>
        obtain ⟨k, hk, heq, hcases⟩ := hnew
        refine ⟨k, hk, heq, hcases.resolve_right fun hfar => ?_⟩
        have := hahead k hk
        omega

/-! ### Runs -/

/-- A step leads to a state with such a backlog. -/
def KeepsBacklog (S : LinkSetup) (l : Link) (e : LinkEvent) : Prop :=
  ∀ l', Link.next S e l = some l' → Backlog S l'

/-- Every event of the link keeps it covered. -/
theorem Covered.step {l l' : Link} {e : LinkEvent} (h : Covered S l) (hinv : Inv S True l)
    (hbacklog : Backlog S l) (hb : Bounded S True l'.sent) (hnext : Link.next S e l = some l') :
    Covered S l' := by
  have hprefix := sent_isPrefix hnext
  cases e with
  | send now content =>
      obtain ⟨-, heq⟩ := Option.ite_none_left_eq_some.mp hnext
      cases heq
      -- Only `send` queues packets, and only an acknowledgement takes them out.
      exact h.send hinv hb
  | poll rounds =>
      obtain ⟨-, hpoll⟩ := Option.ite_none_left_eq_some.mp hnext
      exact h.poll hpoll
  | setState state =>
      obtain ⟨-, heq⟩ := Option.ite_none_left_eq_some.mp hnext
      cases heq
      exact ⟨h.covered, h.acks⟩
  | arrive data =>
      obtain ⟨hopen, heq⟩ := Option.ite_none_left_eq_some.mp hnext
      cases heq
      have hdata : data ∈ l.wire := Decidable.not_not.mp (not_or.mp hopen).2
      exact h.arrive hinv (hb.of_prefix hprefix) hbacklog hdata
  | ackArrives now id =>
      obtain ⟨hopen, heq⟩ := Option.ite_none_left_eq_some.mp hnext
      cases heq
      have hid : id ∈ l.acks := Decidable.not_not.mp (not_or.mp hopen).2
      exact h.ackArrives (hb.of_prefix hprefix) hid

/-- What holds in every run whose steps keep the backlog. -/
theorem covered_of_run {l : Link} (hrun : System.Run (Link.system S) (KeepsBacklog S) l)
    (hb : Bounded S True l.sent) : Inv S True l ∧ Backlog S l ∧ Covered S l := by
  induction hrun with
  | start h =>
      refine ⟨inv_of_starts h, fun rec hrec => ?_, covered_of_starts h⟩
      rw [h.queues] at hrec
      exact absurd hrec List.not_mem_nil
  | step _ hok hnext ih =>
      obtain ⟨hinv, hbacklog, hcovered⟩ := ih (hb.of_prefix (sent_isPrefix hnext))
      exact ⟨hinv.step hb (.inl trivial) hnext, hok _ hnext,
        hcovered.step hinv hbacklog hb hnext⟩

/-- The number that is expected was not received. -/
theorem lt_number_of_received {l : Link} (hinv : Inv S True l) (hb : Bounded S True l.sent)
    {m : Nat} (h : ∀ n, S.first ≤ n → n ≤ m → Received l n) : m < l.lane.next.number := by
  obtain ⟨cur, hlane, -, hsettled⟩ := hinv.lane
  have hlimit := hb.numbers
  have hle := hlane.le
  have hge : S.first ≤ cur := hlane.ge
  have hfirst : (stream S l.sent).first = S.first := rfl
  rw [length_stream, hfirst] at hle
  have hnumber : l.lane.next.number = cur := by
    rw [hlane.next, number_ofNumber (by omega)]
  rw [hnumber]
  by_contra hnot
  cases h cur hge (by omega) with
  | inl hlt =>
      rw [hnumber] at hlt
      exact Nat.lt_irrefl _ hlt
  | inr hwaits =>
      obtain ⟨q, hq, hid⟩ := hwaits
      exact hsettled q hq hid

/-- When the send queue is empty, all commands that were sent were delivered, in their order and
each of them once. There are fewer than 2 ^ 16 packets, and the next id is never more than 32767
after the oldest one that is not acknowledged. -/
theorem delivered_of_isEmpty (S : LinkSetup) (l : Link)
    (hrun : System.Run (Link.system S) (KeepsBacklog S) l)
    (hlimit : S.first + (allParts S l.sent).length < numberLimit)
    (hfew : (allParts S l.sent).length < 2 ^ 16) (hempty : l.resender.isEmpty = true) :
    l.delivered = l.sent := by
  have hb : Bounded S True l.sent := ⟨hlimit, fun _ => hfew⟩
  obtain ⟨hinv, -, hcovered⟩ := covered_of_run hrun hb
  have hrecords : (l.resender.fullSendQueue S.resendType).records = [] := by
    have hall := List.all_eq_true.mp hempty S.resendType (by cases S.resendType <;> decide)
    exact List.isEmpty_iff.mp hall
  have hreceived : ∀ n, S.first ≤ n → n < S.first + (allParts S l.sent).length → Received l n := by
    intro n hge hlt
    obtain ⟨k, rfl⟩ := Nat.exists_eq_add_of_le hge
    refine (hcovered.covered k (by omega)).resolve_left fun hqueue => ?_
    obtain ⟨x, hx, -⟩ := hqueue
    rw [packets, hrecords] at hx
    exact absurd hx List.not_mem_nil
  obtain ⟨cur, hlane, -⟩ := hinv.lane
  have hle := hlane.le
  have hfirst : (stream S l.sent).first = S.first := rfl
  have hlen := length_stream S l.sent
  rw [hlen, hfirst] at hle
  have hall : S.first + (allParts S l.sent).length ≤ cur := by
    by_contra hnot
    have hlt := lt_number_of_received hinv hb
      (fun n hge hn => hreceived n hge (by omega) : ∀ n, S.first ≤ n → n ≤ cur → Received l n)
    rw [hlane.next, number_ofNumber (by omega)] at hlt
    exact Nat.lt_irrefl _ hlt
  have htaken := hlane.taken
  rw [List.take_of_length_le (by rw [hlen, hfirst]; omega), parts_stream] at htaken
  have hdelivered : l.delivered = l.sent.map fun c => c :=
    (feed_flatMap (fun c _ => isCut_partsOf S c) htaken).2
  rw [hdelivered, List.map_id']

end Covered

/-! ### A run -/

namespace PlainLink

/-- The backlog after a step. -/
def keepsBacklog (l : Link) (e : LinkEvent) : Bool :=
  (Link.next setup e l).all fun l' =>
    (l'.resender.fullSendQueue setup.resendType).records.all fun rec =>
      (l'.out.packetId - rec.part.packetId).toNat ≤ 32767

theorem of_keepsBacklog (l : Link) (e : LinkEvent) (h : keepsBacklog l e = true) :
    KeepsBacklog setup l e := by
  intro l' hl' rec hrec
  rw [keepsBacklog, hl'] at h
  exact of_decide_eq_true (List.all_eq_true.mp h rec hrec)

/-- The state after the run. -/
theorem exists_run : ∃ l, System.Run (Link.system setup) (KeepsBacklog setup) l ∧
    l.sent = [ascii "hi", ascii "yo"] ∧ l.resender.isEmpty = true ∧
      l.items = [⟨.command, 0, 2⟩] ∧ l.ids = [⟨.command, 0, 1⟩, ⟨.command, 0, 2⟩] := by
  obtain ⟨l, hrun, hl⟩ := System.Run.exists_of_exec (Link.system setup)
    (KeepsBacklog setup) keepsBacklog events (fun l => (l.sent, l.resender.isEmpty, l.items, l.ids))
    (a := ([ascii "hi", ascii "yo"], true, [⟨.command, 0, 2⟩],
      [⟨.command, 0, 1⟩, ⟨.command, 0, 2⟩])) of_keepsBacklog
    (.start (Link.starts_start setup)) (by decide +kernel)
  obtain ⟨hsent, hrest⟩ := Prod.mk.inj hl
  obtain ⟨hempty, hrest⟩ := Prod.mk.inj hrest
  obtain ⟨hitems, hids⟩ := Prod.mk.inj hrest
  exact ⟨l, hrun, hsent, hempty, hitems, hids⟩

end PlainLink

/-- Both commands of `PlainLink` are acknowledged, and both were delivered. -/
theorem delivered_of_isEmpty_reordered :
    ∃ l : Link, l.resender.isEmpty = true ∧ l.sent = [ascii "hi", ascii "yo"] ∧
      l.delivered = l.sent := by
  obtain ⟨l, hrun, hsent, hempty, -⟩ := PlainLink.exists_run
  have hlen : (allParts PlainLink.setup l.sent).length = 2 := by
    rw [hsent]
    decide +kernel
  exact ⟨l, hempty, hsent, delivered_of_isEmpty PlainLink.setup l hrun (by rw [hlen]; decide)
    (by rw [hlen]; decide) hempty⟩

/-! ### `AckPacket` items -/

section Items

variable {S : LinkSetup}

/-- The ids do not wrap around. -/
def NoWrap (S : LinkSetup) (l : Link) : Prop :=
  S.first % 2 ^ 16 + (allParts S l.sent).length < 2 ^ 16

/-- Without a wrap the key of a packet is its id. -/
theorem keyOf_isUdp {l : Link} {k : Nat} {packet : OutUdpPacket} (hwrap : NoWrap S l)
    (h : IsUdp S l.sent k packet) : keyOf packet = ofNumber (S.first + k) := by
  obtain ⟨p, hp, rfl⟩ := h
  have hk : k < (allParts S l.sent).length := (List.getElem?_eq_some_iff.mp hp).1
  rw [NoWrap] at hwrap
  rw [keyOf_udpPart (List.mem_of_getElem? hp), ofNumber, ofNumber]
  dsimp only
  rw [show (S.first + k + 1) / 2 ^ 16 = (S.first + k) / 2 ^ 16 by omega]

/-- One id back is one number down, over the border of a generation too. -/
theorem ofNumber_sub_one {n : Nat} (hpos : 0 < n) (h : n < 2 ^ 48) :
    (ofNumber n).sub 1 = ofNumber (n - 1) := by
  have hone : (1 : UInt16).toNat = 1 := rfl
  have hpacket : (ofNumber n).packetId - 1 = (ofNumber (n - 1)).packetId := by
    apply UInt16.toNat_inj.mp
    rw [UInt16.toNat_sub, hone, toNat_packetId, toNat_packetId]
    omega
  have hgen : (if (ofNumber n).packetId.toNat < (1 : UInt16).toNat then
      (ofNumber n).generationId - 1 else (ofNumber n).generationId) =
      (ofNumber (n - 1)).generationId := by
    apply UInt32.toNat_inj.mp
    rw [toNat_packetId, hone, toNat_generationId (n := n - 1) (by omega)]
    -- The packet id is zero at the border, and the generation goes down. Else it stays.
    split
    · rw [UInt32.toNat_sub, toNat_generationId h]
      show (2 ^ 32 - 1 + n / 2 ^ 16) % 2 ^ 32 = _
      omega
    · rw [toNat_generationId h]
      omega
  rw [PartialPacketId.sub, hpacket, hgen]

/-- All packets up to the id of an item were received. -/
def Itemized (S : LinkSetup) (l : Link) : Prop :=
  ∀ item ∈ l.items, ∃ m, item.part = ofNumber m ∧ m < S.first + (allParts S l.sent).length ∧
    ∀ n, S.first ≤ n → n ≤ m → Received l n

/-- The records of the send queue, as numbers. -/
theorem number_of_mem {l : Link} (hinv : Inv S True l) (hwrap : NoWrap S l) {rec : SendRecord}
    (h : rec ∈ (l.resender.fullSendQueue S.resendType).records) :
    ∃ k < (allParts S l.sent).length, rec.part = ofNumber (S.first + k) := by
  obtain ⟨-, hkey, k, hk⟩ :=
    hinv.queues S.resendType (rec.part, rec.packet) (SendQueue.mem_packets.mpr ⟨rec, h, rfl, rfl⟩)
  obtain ⟨p, hp, -⟩ := id hk
  exact ⟨k, (List.getElem?_eq_some_iff.mp hp).1, hkey.trans (keyOf_isUdp hwrap hk)⟩

/-- The packets before the next one in the queue were received, when the first one was. -/
theorem received_of_queue {l : Link} (hinv : Inv S True l) (hcovered : Covered S l)
    (hb : Bounded S True l.sent) (hwrap : NoWrap S l) {first : SendRecord}
    {others : List SendRecord}
    (hrecords : (l.resender.fullSendQueue S.resendType).records = first :: others)
    (hfirst : first.part.packetId ∈ l.acks) {k : Nat} (hk : k ≤ (allParts S l.sent).length)
    (hothers : ∀ rec ∈ others, (ofNumber (S.first + k)).number ≤ rec.part.number) :
    ∀ j < k, Received l (S.first + j) := by
  intro j hj
  have hlimit := hb.numbers
  have hfew := hb.few trivial
  cases hcovered.covered j (by omega) with
  | inr hreceived => exact hreceived
  | inl hqueue =>
      obtain ⟨x, hx, hid⟩ := hqueue
      obtain ⟨rec, hrec, hpart, -⟩ := SendQueue.mem_packets.mp hx
      obtain ⟨i, hi, hnumber⟩ := number_of_mem hinv hwrap hrec
      have hids : (ofNumber (S.first + i)).packetId = (ofNumber (S.first + j)).packetId := by
        rw [← hnumber, hpart, hid]
      have hij : i = j := eq_of_packetId (by omega) (by omega) hids
      subst hij
      rw [hrecords] at hrec
      cases List.mem_cons.mp hrec with
      | inl heq =>
          obtain ⟨i', hi', hid', hreceived⟩ := hcovered.acks _ hfirst
          have hids' : (ofNumber (S.first + i)).packetId = (ofNumber (S.first + i')).packetId := by
            rw [← hnumber, heq, hid']
          have hii : i = i' := eq_of_packetId (by omega) (by omega) hids'
          exact hii ▸ hreceived
      | inr hmem =>
          have hle := hothers rec hmem
          rw [hnumber, number_ofNumber (by omega), number_ofNumber (by omega)] at hle
          omega

/-- The item that an acknowledgement gives is one below the oldest packet that still waits. -/
theorem Itemized.ackArrives {l : Link} (h : Itemized S l) (hinv : Inv S True l)
    (hcovered : Covered S l) (hb : Bounded S True l.sent) (hwrap : NoWrap S l) {now : Nat}
    {id : UInt16} (hid : id ∈ l.acks) : Itemized S (l.ackArrives S now id) := by
  have hlimit := hb.numbers
  intro item hitem
  -- The older items stay as they were. The new one is read off the sorted records.
  cases List.mem_append.mp hitem with
  | inl hold => exact h item hold
  | inr hnew =>
      have hitem' : Resender.ackItem l.out S.resendType id
          (l.resender.fullSendQueue S.resendType).records = some item := Option.mem_toList.mp hnew
      cases hrecords : (l.resender.fullSendQueue S.resendType).records with
      -- No packet waits, so the acknowledgement is an old one and gives nothing.
      | nil =>
          rw [hrecords] at hitem'
          cases hitem'
      | cons first others =>
          have hsorted := (l.resender.fullSendQueue S.resendType).sorted
          rw [hrecords] at hitem' hsorted
          obtain ⟨hless, hsorted'⟩ := List.pairwise_cons.mp hsorted
          have hmem : first ∈ (l.resender.fullSendQueue S.resendType).records := by
            rw [hrecords]
            exact List.mem_cons_self
          obtain ⟨i, hi, hfirst⟩ := number_of_mem hinv hwrap hmem
          cases others with
          | nil =>
              -- All packets were acknowledged.
              obtain ⟨hfid, heq⟩ := Option.ite_none_right_eq_some.mp hitem'
              cases heq
              have htype : S.resendType ≠ .init := by
                rw [LinkSetup.resendType]
                split <;> exact fun h => nomatch h
              refine ⟨S.first + (allParts S l.sent).length - 1, ?_, ?_, fun n hge hn => ?_⟩
              · show (if S.resendType = .init then _ else l.out : PartialPacketId).sub 1 = _
                rw [if_neg htype, hinv.out,
                  ofNumber_sub_one (by omega) (by rw [numberLimit] at hlimit; omega)]
              · show _ < S.first + (allParts S l.sent).length
                omega
              · obtain ⟨j, rfl⟩ := Nat.exists_eq_add_of_le hge
                exact received_of_queue hinv hcovered hb hwrap hrecords (hfid ▸ hid) (Nat.le_refl _)
                  (fun rec hrec => absurd hrec List.not_mem_nil) j (by omega)
          -- The second record is now the oldest. Everything below it was received.
          | cons second rest =>
              obtain ⟨hfid, heq⟩ := Option.ite_none_right_eq_some.mp hitem'
              cases heq
              have hmem' : second ∈ (l.resender.fullSendQueue S.resendType).records := by
                rw [hrecords]
                exact List.mem_cons_of_mem _ List.mem_cons_self
              obtain ⟨i', hi', hsecond⟩ := number_of_mem hinv hwrap hmem'
              have hlt := PartialPacketId.lt_iff_number.mp (hless second List.mem_cons_self)
              rw [hfirst, hsecond, number_ofNumber (by omega), number_ofNumber (by omega)] at hlt
              refine ⟨S.first + i' - 1, ?_, ?_, fun n hge hn => ?_⟩
              · show second.part.sub 1 = _
                rw [hsecond, ofNumber_sub_one (by omega) (by rw [numberLimit] at hlimit; omega)]
              · show _ < S.first + (allParts S l.sent).length
                omega
              · obtain ⟨j, rfl⟩ := Nat.exists_eq_add_of_le hge
                refine received_of_queue hinv hcovered hb hwrap hrecords (hfid ▸ hid) hi'.le ?_ j
                  (by omega)
                -- The records are sorted: the others are above the second.
                intro rec hrec
                rw [← hsecond]
                cases List.mem_cons.mp hrec with
                | inl heq => rw [heq]
                | inr hmem =>
                    have := (List.pairwise_cons.mp hsorted').1 rec hmem
                    exact (PartialPacketId.lt_iff_number.mp this).le

/-- What was received up to an item stays received. -/
theorem Itemized.step {l l' : Link} {e : LinkEvent} (h : Itemized S l) (hinv : Inv S True l)
    (hcovered : Covered S l) (hb : Bounded S True l.sent) (hwrap : NoWrap S l)
    (hnext : Link.next S e l = some l') : Itemized S l' := by
  cases e with
  | send now content =>
      obtain ⟨-, heq⟩ := Option.ite_none_left_eq_some.mp hnext
      cases heq
      intro item hitem
      obtain ⟨m, hpart, hm, hreceived⟩ := h item hitem
      refine ⟨m, hpart, ?_, hreceived⟩
      show m < S.first + (allParts S (l.sent ++ [content])).length
      rw [allParts_append, List.length_append]
      omega
  | poll rounds =>
      obtain ⟨-, hpoll⟩ := Option.ite_none_left_eq_some.mp hnext
      obtain ⟨result, -, rfl⟩ := Option.map_eq_some_iff.mp hpoll
      exact h
  | setState state =>
      obtain ⟨-, heq⟩ := Option.ite_none_left_eq_some.mp hnext
      cases heq
      exact h
  | arrive data =>
      obtain ⟨hopen, heq⟩ := Option.ite_none_left_eq_some.mp hnext
      cases heq
      have harrived := hinv.arrive hb (Decidable.not_not.mp (not_or.mp hopen).2) (.inl trivial)
      intro item hitem
      rw [harrived.items] at hitem
      obtain ⟨m, hpart, hm, hreceived⟩ := h item hitem
      refine ⟨m, hpart, by rw [harrived.sent]; exact hm, fun n hge hn => ?_⟩
      exact harrived.received trivial n hge (by omega) (hreceived n hge hn)
  | ackArrives now id =>
      obtain ⟨hopen, heq⟩ := Option.ite_none_left_eq_some.mp hnext
      cases heq
      exact h.ackArrives hinv hcovered hb hwrap (Decidable.not_not.mp (not_or.mp hopen).2)

/-- Fewer commands have fewer packets. -/
theorem NoWrap.of_prefix {l l' : Link} (h : l.sent <+: l'.sent) (hwrap : NoWrap S l') :
    NoWrap S l := by
  obtain ⟨more, hmore⟩ := h
  rw [NoWrap, ← hmore, allParts, List.flatMap_append, List.length_append] at hwrap
  rw [NoWrap, allParts]
  omega

/-- In every run the items tell only of packets that were received. -/
theorem itemized_of_run {l : Link} (hrun : System.Run (Link.system S) (KeepsBacklog S) l)
    (hb : Bounded S True l.sent) (hwrap : NoWrap S l) : Itemized S l := by
  induction hrun with
  | start h =>
      intro item hitem
      rw [h.items] at hitem
      exact absurd hitem List.not_mem_nil
  | step hrun _ hnext ih =>
      have hprefix := sent_isPrefix hnext
      have hb' := hb.of_prefix hprefix
      have hwrap' := hwrap.of_prefix hprefix
      obtain ⟨hinv, -, hcovered⟩ := covered_of_run hrun hb'
      exact (ih hb' hwrap').step hinv hcovered hb' hwrap' hnext

/-! ### The ids that `send_packet` gives -/

/-- The number of the last packet of the first `j` commands. -/
def lastNumber (S : LinkSetup) (contents : List (List UInt8)) (j : Nat) : Nat :=
  S.first + (allParts S (contents.take j)).length - 1

/-- `send_packet` has given an id for each command, the one of its last packet. -/
structure GivenIds (S : LinkSetup) (l : Link) : Prop where
  length : l.ids.length = l.sent.length
  part : ∀ j (id : PacketId), l.ids[j]? = some id →
    id.part = ⟨(ofNumber (lastNumber S l.sent (j + 1) + 1)).generationId,
      (ofNumber (lastNumber S l.sent (j + 1))).packetId⟩

/-- The id that `send_packet` gives is that of the last part of the command. -/
theorem lastId_newPackets {content : List UInt8} {n : Nat} :
    ∃ id, Link.lastId S (newPackets S n content) = some id ∧
      id.part = ⟨(ofNumber (n + (partsOf S content).length - 1 + 1)).generationId,
        (ofNumber (n + (partsOf S content).length - 1)).packetId⟩ := by
  have hne : partsOf S content ≠ [] := compressAndSplit_ne_nil _ _
  have hpos : 0 < (partsOf S content).length := List.length_pos_iff.mpr hne
  have hlast : (newPackets S n content).getLast? =
      some (udpPart S.session (n + ((partsOf S content).length - 1))
        ((partsOf S content).getLast hne)) := by
    rw [List.getLast?_eq_getElem?, newPackets, List.length_mapIdx, List.getElem?_mapIdx,
      ← List.getLast?_eq_getElem?, List.getLast?_eq_some_getLast hne]
    rfl
  have hmem : (partsOf S content).getLast hne ∈ allParts S [content] := by
    rw [allParts, List.flatMap_singleton]
    exact List.getLast_mem hne
  have hkey := keyOf_udpPart hmem (n + ((partsOf S content).length - 1))
  rw [Link.lastId, hlast]
  refine ⟨_, rfl, ?_⟩
  rw [Nat.add_sub_assoc hpos]
  exact hkey

/-- Sending a command adds the id of its last packet, and leaves the older ids. -/
theorem GivenIds.send {l : Link} (h : GivenIds S l) (hinv : Inv S True l) {now : Nat}
    {content : List UInt8} (hb : Bounded S True (l.sent ++ [content])) :
    GivenIds S (l.send S now content) := by
  obtain ⟨id, hid, hpart⟩ :
      ∃ id, Link.lastId S (newPackets S (S.first + (allParts S l.sent).length) content) = some id ∧
        id.part = _ := lastId_newPackets
  have hnumbers := hb.numbers
  rw [allParts_append, List.length_append] at hnumbers
  have hids : (l.send S now content).ids = l.ids ++ [id] := by
    show l.ids ++ (Link.lastId S (encodePacket S.session l.out (S.command content)).1).toList = _
    rw [hinv.out, encodePacket_command (by omega), hid]
    rfl
  constructor
  · show (l.send S now content).ids.length = (l.sent ++ [content]).length
    rw [hids, List.length_append, List.length_append, h.length]
    rfl
  · intro j id' hj
    rw [hids] at hj
    show id'.part = ⟨(ofNumber (lastNumber S (l.sent ++ [content]) (j + 1) + 1)).generationId,
      (ofNumber (lastNumber S (l.sent ++ [content]) (j + 1))).packetId⟩
    by_cases hold : j < l.ids.length
    · -- An older command: its packets are the same.
      rw [List.getElem?_append_left hold] at hj
      have htake : (l.sent ++ [content]).take (j + 1) = l.sent.take (j + 1) :=
        List.take_append_of_le_length (by rw [← h.length]; exact hold)
      rw [lastNumber, htake]
      exact h.part j id' hj
    -- The new command: its last packet is the last of all.
    · have hlt := (List.getElem?_eq_some_iff.mp hj).1
      rw [List.length_append] at hlt
      have heq : j = l.ids.length := by
        have : [id].length = 1 := rfl
        omega
      subst heq
      rw [List.getElem?_append_right (Nat.le_refl _), Nat.sub_self] at hj
      cases hj
      have htake : (l.sent ++ [content]).take (l.ids.length + 1) = l.sent ++ [content] :=
        List.take_of_length_le (by rw [h.length, List.length_append]; exact Nat.le_refl _)
      rw [lastNumber, htake, allParts_append, List.length_append, ← Nat.add_assoc]
      exact hpart

/-- In every run the ids are those of the last packets. -/
theorem givenIds_of_run {l : Link} (hrun : System.Run (Link.system S) (KeepsBacklog S) l)
    (hb : Bounded S True l.sent) : GivenIds S l := by
  induction hrun with
  | start h =>
      constructor
      · rw [h.ids, h.sent]
        rfl
      · intro j id hj
        rw [h.ids] at hj
        cases hj
  | step hrun _ hnext ih =>
      rename_i e _
      have hb' := hb.of_prefix (sent_isPrefix hnext)
      have hold := ih hb'
      cases e with
      -- Only `send` gives an id. The other events leave the commands and the ids.
      | send now content =>
          obtain ⟨-, heq⟩ := Option.ite_none_left_eq_some.mp hnext
          cases heq
          exact hold.send (covered_of_run hrun hb').1 hb
      | poll rounds =>
          obtain ⟨-, hpoll⟩ := Option.ite_none_left_eq_some.mp hnext
          obtain ⟨result, -, rfl⟩ := Option.map_eq_some_iff.mp hpoll
          exact ⟨hold.length, hold.part⟩
      | setState state =>
          obtain ⟨-, heq⟩ := Option.ite_none_left_eq_some.mp hnext
          cases heq
          exact ⟨hold.length, hold.part⟩
      | arrive data =>
          obtain ⟨-, heq⟩ := Option.ite_none_left_eq_some.mp hnext
          cases heq
          rw [Link.arrive]
          split <;> exact ⟨hold.length, hold.part⟩
      | ackArrives now id =>
          obtain ⟨-, heq⟩ := Option.ite_none_left_eq_some.mp hnext
          cases heq
          exact ⟨hold.length, hold.part⟩

theorem length_take_le {S : LinkSetup} (contents : List (List UInt8)) (j : Nat) :
    (allParts S (contents.take j)).length ≤ (allParts S contents).length := by
  conv_rhs => rw [← List.take_append_drop j contents]
  rw [allParts, allParts, List.flatMap_append, List.length_append]
  exact Nat.le_add_right _ _

/-- A command has at least one packet. -/
theorem length_take_pos {S : LinkSetup} {contents : List (List UInt8)} {j : Nat}
    (h : j < contents.length) : 0 < (allParts S (contents.take (j + 1))).length := by
  cases contents with
  | nil => exact absurd h (Nat.not_lt_zero _)
  | cons content others =>
      have hne : partsOf S content ≠ [] := compressAndSplit_ne_nil _ _
      rw [List.take_succ_cons, allParts, List.flatMap_cons, List.length_append]
      exact Nat.add_pos_left (List.length_pos_iff.mpr hne) _

/-- Without a wrap the id is the number of the last packet. -/
theorem GivenIds.part_eq {l : Link} (h : GivenIds S l) (hwrap : NoWrap S l) {j : Nat}
    {id : PacketId} (hid : l.ids[j]? = some id) :
    id.part = ofNumber (lastNumber S l.sent (j + 1)) := by
  have hle : (allParts S (l.sent.take (j + 1))).length ≤ _ := length_take_le l.sent (j + 1)
  have hpos : 0 < (allParts S (l.sent.take (j + 1))).length :=
    length_take_pos (by rw [← h.length]; exact (List.getElem?_eq_some_iff.mp hid).1)
  rw [NoWrap] at hwrap
  rw [h.part j id hid, ofNumber, ofNumber, lastNumber]
  dsimp only
  congr 2
  omega

/-- When an `AckPacket` item is not below the id that `send_packet` has given for a command, the
receiver has given this command and the ones before. -/
theorem delivered_of_item (S : LinkSetup) (l : Link) (item id : PacketId) (j : Nat)
    (hrun : System.Run (Link.system S) (KeepsBacklog S) l)
    (hlimit : S.first + (allParts S l.sent).length < numberLimit)
    (hwrap : NoWrap S l) (hitem : item ∈ l.items) (hid : l.ids[j]? = some id)
    (hle : ¬item.part.lt id.part) : l.sent.take (j + 1) <+: l.delivered := by
  have hb : Bounded S True l.sent := ⟨hlimit, fun _ => by rw [NoWrap] at hwrap; omega⟩
  obtain ⟨hinv, -, hcovered⟩ := covered_of_run hrun hb
  obtain ⟨m, hpart, hm, hreceived⟩ := itemized_of_run hrun hb hwrap item hitem
  have hsplit : allParts S l.sent =
      allParts S (l.sent.take (j + 1)) ++ allParts S (l.sent.drop (j + 1)) := by
    rw [allParts, allParts, allParts, ← List.flatMap_append, List.take_append_drop]
  have hlen := congrArg List.length hsplit
  rw [List.length_append] at hlen
  -- The item is about all packets of the command.
  rw [hpart, (givenIds_of_run hrun hb).part_eq hwrap hid, lastNumber,
    PartialPacketId.lt_iff_number, number_ofNumber (by omega), number_ofNumber (by omega)] at hle
  -- What was received is below the packet that is expected next.
  have hcur := lt_number_of_received hinv hb hreceived
  obtain ⟨cur, hlane, -⟩ := hinv.lane
  have hlanele := hlane.le
  have hge : S.first ≤ cur := hlane.ge
  have hfirst : (stream S l.sent).first = S.first := rfl
  rw [length_stream, hfirst] at hlanele
  rw [hlane.next, number_ofNumber (by omega)] at hcur
  -- The parts of these commands are the first of those that were taken.
  have hparts : (stream S l.sent).parts = (stream S (l.sent.take (j + 1))).parts ++
      (allParts S (l.sent.drop (j + 1))).map outPart := by
    show (allParts S l.sent).map outPart = _
    rw [hsplit, List.map_append]
    rfl
  have htaken := hlane.taken
  rw [hparts, hfirst, List.take_append, List.take_of_length_le
    (by rw [length_stream]; omega)] at htaken
  -- Whole commands were taken, so the reader gave exactly these.
  obtain ⟨s₁, os₁, os₂, hfeed, -, hos⟩ := feed_of_append htaken
  rw [parts_stream] at hfeed
  have hos₁ : os₁ = (l.sent.take (j + 1)).map fun c => c :=
    (feed_flatMap (fun c _ => isCut_partsOf S c) hfeed).2
  rw [hos, hos₁, List.map_id']
  exact List.prefix_append _ _

end Items

/-- The item for the second command of `PlainLink` tells that both were delivered. -/
theorem delivered_of_item_reordered :
    ∃ l : Link, l.sent.take 2 = [ascii "hi", ascii "yo"] ∧ l.sent.take 2 <+: l.delivered := by
  obtain ⟨l, hrun, hsent, -, hitems, hids⟩ := PlainLink.exists_run
  have hlen : (allParts PlainLink.setup l.sent).length = 2 := by
    rw [hsent]
    decide +kernel
  have hwrap : NoWrap PlainLink.setup l := by
    rw [NoWrap, hlen]
    decide
  exact ⟨l, by rw [hsent]; rfl, delivered_of_item PlainLink.setup l ⟨.command, 0, 2⟩
    ⟨.command, 0, 2⟩ 1 hrun (by rw [hlen]; decide) hwrap (by rw [hitems]; exact List.mem_cons_self)
    (by rw [hids]; rfl) (by decide)⟩

end Nek0.Proofs.Protocol
