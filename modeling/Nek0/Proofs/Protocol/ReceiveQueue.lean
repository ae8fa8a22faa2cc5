import Nek0.Proofs.Protocol.Fragments

/-!
# `Nek0.Proofs.Protocol.ReceiveQueue`: packets are taken in their order

The parts of all commands are numbered from `first` on. A lane whose next number is `cur` has taken
the parts before (`LaneAt`), and the packets in its queue are later ones (`Queued`). This stays so
when a part comes (`handleCommandPacket_ok`), if ids tell the parts apart: there are few, less than
2 ^ 16, or no packet waits twice.
-/

set_option autoImplicit false

namespace Nek0.Proofs.Protocol

open Nek0.Protocol
open Nek0.Lib.Outcomes (bind_eq_ok)
open Nek0.Lib.Transducer

/-- The parts, with the number of the first one, and how a receiver takes them. -/
structure PartStream where
  compressor : Compressor
  headerLen : Nat
  first : Nat
  parts : List Part

namespace PartStream

variable (T : PartStream)

/-- A received packet has this number. -/
structure IsPart (packet : InPacket) (n : Nat) : Prop where
  ge : T.first ≤ n
  lt : n < T.first + T.parts.length
  id : packet.packetId = (ofNumber n).packetId
  part : T.parts[n - T.first]? = some (inPart packet)
  header : packet.header.length = T.headerLen

/-- The lane expects the number `cur`, and has given `os` so far. -/
structure LaneAt (lane : CommandLane) (cur : Nat) (os : List (List UInt8)) : Prop where
  next : lane.next = ofNumber cur
  ge : T.first ≤ cur
  le : cur ≤ T.first + T.parts.length
  header : HeaderLen T.headerLen lane
  taken : feed (takePart T.compressor T.headerLen) none (T.parts.take (cur - T.first)) =
    some (fragmentsOf lane, os)

/-- The packets that wait when the number `cur` is taken, or expected. -/
structure Queued (few : Prop) (queue : List InPacket) (cur : Nat) : Prop where
  parts : ∀ q ∈ queue, ∃ n, T.IsPart q n ∧ (few ∨ cur < n ∧ n < cur + 200)
  distinct : few ∨ queue.Pairwise fun p q => p.packetId ≠ q.packetId

/-- The packet that is expected does not wait. -/
def Settled (queue : List InPacket) (cur : Nat) : Prop :=
  ∀ q ∈ queue, q.packetId ≠ (ofNumber cur).packetId

variable {T} {few : Prop}

/-- The id of the number behind a packet tells which one it is. -/
theorem IsPart.eq_of_id {q : InPacket} {n cur : Nat} (h : T.IsPart q n)
    (hfew : few → T.parts.length < 2 ^ 16)
    (hge : T.first ≤ cur) (hle : cur ≤ T.first + T.parts.length)
    (hclose : few ∨ cur ≤ n ∧ n < cur + 2 ^ 16) (hid : q.packetId = (ofNumber cur).packetId) :
    n = cur := by
  have heq : (ofNumber n).packetId = (ofNumber cur).packetId := h.id.symm.trans hid
  have hlow := h.ge
  have hup := h.lt
  cases hclose with
  | inl h =>
      have hlen := hfew h
      cases Nat.le_total n cur with
      | inl hncur => exact packetId_inj heq hncur (by omega)
      | inr hcurn => exact (packetId_inj heq.symm hcurn (by omega)).symm
  | inr hnear => exact (packetId_inj heq.symm hnear.1 hnear.2).symm

/-- A part is taken. -/
theorem LaneAt.takePacket {lane lane' : CommandLane} {cur : Nat} {os : List (List UInt8)}
    {packet : InPacket} {command : Option InPacket} (hlane : T.LaneAt lane cur os)
    (hpacket : T.IsPart packet cur) (hlimit : T.first + T.parts.length ≤ numberLimit)
    (h : takePacket T.compressor lane packet = .ok (lane', command)) :
    T.LaneAt lane' (cur + 1) (os ++ command.toList.map InPacket.content) ∧
      lane'.receiveQueue = lane.receiveQueue := by
  obtain ⟨htake, hheader, hnext, hqueue⟩ := takePacket_ok hlane.header hpacket.header h
  have hge := hlane.ge
  have hlt := hpacket.lt
  refine ⟨⟨?_, by omega, by omega, hheader, ?_⟩, hqueue⟩
  · rw [hnext, hlane.next, ofNumber_add_one (by omega)]
  · have hsplit : T.parts.take (cur + 1 - T.first) =
        T.parts.take (cur - T.first) ++ [inPart packet] := by
      rw [Nat.sub_add_comm hge, List.take_add_one, hpacket.part]
      rfl
    rw [hsplit, feed_append_of_some hlane.taken, feed_cons_of_some htake]
    simp only [feed, Option.map_some, List.append_nil]

/-! ### More parts -/

/-- The parts go on. -/
def append (T : PartStream) (more : List Part) : PartStream := { T with parts := T.parts ++ more }

theorem length_append (T : PartStream) (more : List Part) :
    (T.append more).parts.length = T.parts.length + more.length := List.length_append

/-- A part stays at its number when the stream gets longer. -/
theorem IsPart.append {packet : InPacket} {n : Nat} (h : T.IsPart packet n) (more : List Part) :
    (T.append more).IsPart packet n where
  ge := h.ge
  lt := by
    rw [length_append]
    exact Nat.lt_of_lt_of_le h.lt (Nat.add_le_add_left (Nat.le_add_right _ _) _)
  id := h.id
  part := by
    have hlt := h.lt
    have hge := h.ge
    show (T.parts ++ more)[n - T.first]? = _
    rw [List.getElem?_append_left (by omega)]
    exact h.part
  header := h.header

/-- The lane stays where it is when the stream gets longer. -/
theorem LaneAt.append {lane : CommandLane} {cur : Nat} {os : List (List UInt8)}
    (h : T.LaneAt lane cur os) (more : List Part) : (T.append more).LaneAt lane cur os where
  next := h.next
  ge := h.ge
  le := by
    rw [length_append]
    exact h.le.trans (Nat.add_le_add_left (Nat.le_add_right _ _) _)
  header := h.header
  taken := by
    have hle := h.le
    show feed _ none ((T.parts ++ more).take (cur - T.first)) = _
    rw [List.take_append_of_le_length (by omega)]
    exact h.taken

/-- What waits keeps its number when the stream gets longer. -/
theorem Queued.append {queue : List InPacket} {cur : Nat} (h : T.Queued few queue cur)
    (more : List Part) : (T.append more).Queued few queue cur where
  parts := fun q hq => by
    obtain ⟨n, hpart, hnear⟩ := h.parts q hq
    exact ⟨n, hpart.append more, hnear⟩
  distinct := h.distinct

/-! ### Packets that come -/

theorem packetId_succ {n : Nat} (h : n < numberLimit) :
    (ofNumber n).packetId + 1 = (ofNumber (n + 1)).packetId :=
  congrArg PartialPacketId.packetId (ofNumber_add_one h)

/-- What `removeQueued` takes out. -/
theorem removeQueued_some {queue rest : List InPacket} {id : UInt16} {p : InPacket}
    (h : removeQueued queue id = some (p, rest)) :
    p.packetId = id ∧ ∃ front back, queue = front ++ p :: back ∧ rest = front ++ back := by
  obtain ⟨pos, hfind, hget⟩ := Option.bind_eq_some_iff.mp h
  obtain ⟨p', hp', heq⟩ := Option.map_eq_some_iff.mp hget
  cases heq
  obtain ⟨hpos, hid, -⟩ := List.findIdx?_eq_some_iff_getElem.mp hfind
  rw [List.getElem?_eq_getElem hpos] at hp'
  cases hp'
  refine ⟨eq_of_beq hid, queue.take pos, queue.drop (pos + 1), ?_,
    List.eraseIdx_eq_take_drop_succ ..⟩
  rw [List.getElem_cons_drop, List.take_append_drop]

/-- If `removeQueued` finds nothing, no packet that waits has the id. -/
theorem removeQueued_none {queue : List InPacket} {id : UInt16} (h : removeQueued queue id = none) :
    ∀ q ∈ queue, q.packetId ≠ id := by
  intro q hq heq
  cases hfind : queue.findIdx? fun p => p.packetId == id with
  | none =>
      have hnot := List.findIdx?_eq_none_iff.mp hfind q hq
      rw [heq, beq_self_eq_true] at hnot
      cases hnot
  | some pos =>
      obtain ⟨hpos, -⟩ := List.findIdx?_eq_some_iff_getElem.mp hfind
      rw [removeQueued, hfind, Option.bind_some, List.getElem?_eq_getElem hpos] at h
      cases h

/-- The packets that wait when the next number is expected. -/
theorem Queued.succ {queue : List InPacket} {cur : Nat} (h : T.Queued few queue cur)
    (hsettled : Settled queue (cur + 1)) : T.Queued few queue (cur + 1) where
  parts := by
    intro q hq
    obtain ⟨n, hpart, hnear⟩ := h.parts q hq
    refine ⟨n, hpart, hnear.imp_right fun hnear => ⟨?_, by omega⟩⟩
    have hne : n ≠ cur + 1 := fun heq => hsettled q hq (heq ▸ hpart.id)
    omega
  distinct := h.distinct

/-- The packets that wait when the next one is taken from the queue. -/
theorem Queued.remove {front back : List InPacket} {p : InPacket} {cur : Nat}
    (h : T.Queued few (front ++ p :: back) cur) (hp : T.IsPart p (cur + 1)) :
    T.Queued few (front ++ back) (cur + 1) := by
  have hsub : ∀ q ∈ front ++ back, q ∈ front ++ p :: back := fun q hq =>
    List.mem_append.mpr ((List.mem_append.mp hq).imp_right (List.mem_cons_of_mem p))
  constructor
  · intro q hq
    obtain ⟨n, hpart, hnear⟩ := h.parts q (hsub q hq)
    refine ⟨n, hpart, ?_⟩
    cases hnear with
    | inl hfew => exact .inl hfew
    | inr hnear =>
        cases h.distinct with
        | inl hfew => exact .inl hfew
        | inr hdistinct =>
            have hne : n ≠ cur + 1 := by
              intro heq
              have hids : q.packetId = p.packetId := by
                rw [hpart.id, hp.id, heq]
              obtain ⟨-, hpback, hfront⟩ := List.pairwise_append.mp hdistinct
              cases List.mem_append.mp hq with
              | inl hqf => exact hfront q hqf p List.mem_cons_self hids
              | inr hqb => exact (List.pairwise_cons.mp hpback).1 q hqb hids.symm
            exact .inr ⟨by omega, by omega⟩
  · refine h.distinct.imp_right fun hdistinct => hdistinct.sublist ?_
    exact (List.Sublist.refl front).append (List.sublist_cons_self p back)

/-- The packets that wait and are next are taken, too. -/
theorem takePackets_ok {n cur : Nat} {lane lane' : CommandLane} {os : List (List UInt8)}
    {packet : InPacket} {commands : List InPacket} (hlane : T.LaneAt lane cur os)
    (hqueue : T.Queued few lane.receiveQueue cur) (hn : lane.receiveQueue.length ≤ n)
    (hpacket : T.IsPart packet cur) (hlimit : T.first + T.parts.length ≤ numberLimit)
    (hfew : few → T.parts.length < 2 ^ 16)
    (h : takePackets T.compressor n lane packet = .ok (lane', commands)) :
    ∃ cur', cur < cur' ∧ T.LaneAt lane' cur' (os ++ commands.map InPacket.content) ∧
      T.Queued few lane'.receiveQueue cur' ∧ Settled lane'.receiveQueue cur' ∧
      ∀ q ∈ lane.receiveQueue, q ∈ lane'.receiveQueue ∨
        ∃ m, cur < m ∧ m < cur' ∧ q.packetId = (ofNumber m).packetId := by
  -- The induction is on the room: each packet that is taken shortens the receive queue.
  induction n generalizing lane packet cur os commands with
  -- Nothing waits, so the part is the only one that is taken.
  | zero =>
      rw [takePackets] at h
      obtain ⟨⟨lane₁, command⟩, htake, hrest⟩ := bind_eq_ok h
      cases hrest
      obtain ⟨hlane₁, hq⟩ := hlane.takePacket hpacket hlimit htake
      have hnil : lane.receiveQueue = [] := List.eq_nil_of_length_eq_zero (Nat.le_zero.mp hn)
      dsimp only
      rw [hq, hnil]
      refine ⟨cur + 1, Nat.lt_succ_self cur, hlane₁, ?_, ?_, ?_⟩
      · exact ⟨fun q hq => absurd hq List.not_mem_nil, .inr .nil⟩
      · exact fun q hq => absurd hq List.not_mem_nil
      · exact fun q hq => absurd hq List.not_mem_nil
  | succ n ih =>
      rw [takePackets] at h
      obtain ⟨⟨lane₁, command⟩, htake, hrest⟩ := bind_eq_ok h
      obtain ⟨hlane₁, hq⟩ := hlane.takePacket hpacket hlimit htake
      have hcur : cur + 1 ≤ T.first + T.parts.length := hpacket.lt
      have hid : packet.packetId + 1 = (ofNumber (cur + 1)).packetId := by
        rw [hpacket.id, packetId_succ (by omega)]
      dsimp only at hrest
      rw [hid, hq] at hrest
      -- Does the next part wait?
      cases hremove : removeQueued lane.receiveQueue (ofNumber (cur + 1)).packetId with
      | none =>
          rw [hremove] at hrest
          cases hrest
          have hsettled : Settled lane.receiveQueue (cur + 1) := removeQueued_none hremove
          rw [hq]
          exact ⟨cur + 1, Nat.lt_succ_self cur, hlane₁, hqueue.succ hsettled, hsettled,
            fun q hq => .inl hq⟩
      | some removed =>
          obtain ⟨following, rest⟩ := removed
          rw [hremove] at hrest
          obtain ⟨⟨lane₂, commands₂⟩, hothers, heq⟩ := bind_eq_ok hrest
          cases heq
          obtain ⟨hfid, front, back, hfull, hleft⟩ := removeQueued_some hremove
          have hmem : following ∈ lane.receiveQueue := by
            rw [hfull]
            exact List.mem_append_right front List.mem_cons_self
          -- The packet with the next id has the next number.
          have hfollowing : T.IsPart following (cur + 1) := by
            obtain ⟨m, hpart, hnear⟩ := hqueue.parts following hmem
            have hge := hlane.ge
            have hm : m = cur + 1 := hpart.eq_of_id hfew (by omega) hcur
              (hnear.imp_right fun hnear => ⟨hnear.1, by omega⟩) hfid
            exact hm ▸ hpart
          have hrestQueue : T.Queued few rest (cur + 1) := by
            rw [hfull] at hqueue
            rw [hleft]
            exact hqueue.remove hfollowing
          have hshort : rest.length ≤ n := by
            rw [hfull, List.length_append, List.length_cons] at hn
            rw [hleft, List.length_append]
            omega
          have hlane₁' : T.LaneAt { lane₁ with receiveQueue := rest } (cur + 1)
              (os ++ command.toList.map InPacket.content) :=
            ⟨hlane₁.next, hlane₁.ge, hlane₁.le, hlane₁.header, hlane₁.taken⟩
          -- The rest is taken with the induction hypothesis, one number further.
          obtain ⟨cur', hlt, hlane', hqueue', hsettled, hkept⟩ :=
            ih hlane₁' hrestQueue hshort hfollowing hothers
          refine ⟨cur', by omega, ?_, hqueue', hsettled, fun q hq => ?_⟩
          · rw [List.map_append, ← List.append_assoc]
            exact hlane'
          -- A packet that waited is the one that was taken here, or one of the rest.
          · rw [hfull] at hq
            have hcases : q = following ∨ q ∈ rest := by
              rw [hleft]
              rcases List.mem_append.mp hq with hqf | hqb
              · exact .inr (List.mem_append_left back hqf)
              · exact (List.mem_cons.mp hqb).imp_right (List.mem_append_right front)
            cases hcases with
            | inl heq =>
                exact .inr ⟨cur + 1, Nat.lt_succ_self cur, hlt, by rw [heq]; exact hfid⟩
            | inr hin =>
                refine (hkept q hin).imp_right fun hm => ?_
                obtain ⟨m, hm, hm', hmid⟩ := hm
                exact ⟨m, by omega, hm', hmid⟩

/-- A part that comes is taken, or waits. -/
theorem handleCommandPacket_ok {n cur : Nat} {lane lane' : CommandLane} {os : List (List UInt8)}
    {packet : InPacket} {commands : List InPacket} (hlane : T.LaneAt lane cur os)
    (hqueue : T.Queued few lane.receiveQueue cur) (hsettled : Settled lane.receiveQueue cur)
    (hpacket : T.IsPart packet n) (hle : cur ≤ n) (hclose : n < cur + 32767)
    (honce : few ∨ ∀ q ∈ lane.receiveQueue, q.packetId ≠ packet.packetId)
    (hlimit : T.first + T.parts.length ≤ numberLimit) (hfew : few → T.parts.length < 2 ^ 16)
    (h : handleCommandPacket T.compressor lane packet = .ok (lane', commands)) :
    ∃ cur', cur ≤ cur' ∧ T.LaneAt lane' cur' (os ++ commands.map InPacket.content) ∧
      T.Queued few lane'.receiveQueue cur' ∧ Settled lane'.receiveQueue cur' ∧
      (n < cur' ∨ packet ∈ lane'.receiveQueue) ∧
      ∀ q ∈ lane.receiveQueue, q ∈ lane'.receiveQueue ∨
        ∃ m, cur ≤ m ∧ m < cur' ∧ q.packetId = (ofNumber m).packetId := by
  rw [handleCommandPacket, hlane.next] at h
  split at h
  · next hid =>
      -- The part is the next one.
      have hn : n = cur := hpacket.eq_of_id hfew hlane.ge hlane.le (.inr ⟨hle, by omega⟩) hid.symm
      subst hn
      obtain ⟨cur', hlt, hlane', hqueue', hsettled', hkept⟩ :=
        takePackets_ok hlane hqueue (Nat.le_refl _) hpacket hlimit hfew h
      refine ⟨cur', hlt.le, hlane', hqueue', hsettled', .inl hlt, fun q hq => ?_⟩
      refine (hkept q hq).imp_right fun hm => ?_
      obtain ⟨m, hm, hm', hmid⟩ := hm
      exact ⟨m, hm.le, hm', hmid⟩
  · next hid =>
      -- The part is not the next one. It waits, if it is near enough.
      split at h
      · next hrange =>
          cases h
          rw [hpacket.id] at hid hrange
          have hnear : n < cur + 200 :=
            (inRange_iff_of_window (by decide) hle (by omega)).mp hrange
          have hne : cur ≠ n := fun heq => hid (congrArg (fun k => (ofNumber k).packetId) heq)
          refine ⟨cur, Nat.le_refl cur, ?_, ⟨fun q hq => ?_, ?_⟩, fun q hq => ?_, .inr ?_,
            fun q hq => .inl (List.mem_append_left _ hq)⟩
          · rw [List.map_nil, List.append_nil]
            exact ⟨rfl, hlane.ge, hlane.le, hlane.header, hlane.taken⟩
          · cases List.mem_append.mp hq with
            | inl hold => exact hqueue.parts q hold
            | inr hnew =>
                rw [List.mem_singleton.mp hnew]
                exact ⟨n, hpacket, .inr ⟨by omega, hnear⟩⟩
          · cases hqueue.distinct with
            | inl hfew => exact .inl hfew
            | inr hdistinct =>
                refine honce.imp_right fun honce => ?_
                refine List.pairwise_append.mpr ⟨hdistinct, List.pairwise_singleton _ _, ?_⟩
                intro q hq q' hq'
                rw [List.mem_singleton.mp hq']
                exact honce q hq
          · cases List.mem_append.mp hq with
            | inl hold => exact hsettled q hold
            | inr hnew =>
                rw [List.mem_singleton.mp hnew, hpacket.id]
                exact fun heq => hid heq.symm
          · exact List.mem_append_right _ List.mem_cons_self
      -- It is too far ahead: the source returns an error.
      · cases h

end PartStream

end Nek0.Proofs.Protocol
