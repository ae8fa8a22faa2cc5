import Nek0.Protocol.Resend

/-!
# `Nek0.Proofs.Protocol.Resending`: the packets that a resender has

A packet that was sent stays until an acknowledgement of its id comes, and only packets that are
there are sent again.
-/

set_option autoImplicit false

namespace Nek0.Proofs.Protocol

open Nek0.Protocol

namespace SendQueue

/-- The packets in a queue, with their ids. -/
def packets (q : SendQueue) : List (PartialPacketId × OutUdpPacket) :=
  q.records.map fun rec => (rec.part, rec.packet)

theorem mem_packets {q : SendQueue} {x : PartialPacketId × OutUdpPacket} :
    x ∈ packets q ↔ ∃ rec ∈ q.records, rec.part = x.1 ∧ rec.packet = x.2 := by
  rw [packets, List.mem_map]
  simp only [Prod.ext_iff]

/-- The inserted record is there. -/
theorem mem_insertInto_self (rec : SendRecord) (rs : List SendRecord) :
    rec ∈ SendQueue.insertInto rec rs := by
  induction rs with
  | nil => exact List.mem_singleton.mpr rfl
  | cons r rs ih =>
      rw [SendQueue.insertInto]
      split
      · exact List.mem_cons_self
      · split
        · exact List.mem_cons_self
        · exact List.mem_cons_of_mem r ih

/-- Records with other ids stay. -/
theorem mem_insertInto_of_mem {rec r : SendRecord} {rs : List SendRecord} (h : r ∈ rs)
    (hne : r.part ≠ rec.part) : r ∈ SendQueue.insertInto rec rs := by
  induction rs with
  | nil => exact absurd h List.not_mem_nil
  | cons r' rs ih =>
      rw [SendQueue.insertInto]
      split
      · exact List.mem_cons_of_mem rec h
      · split
        · next heq =>
            cases List.mem_cons.mp h with
            | inl hr => exact absurd (hr ▸ heq.symm) hne
            | inr hmem => exact List.mem_cons_of_mem rec hmem
        · cases List.mem_cons.mp h with
          | inl hr => exact hr ▸ List.mem_cons_self
          | inr hmem => exact List.mem_cons_of_mem r' (ih hmem)

/-- Updating the tries of a record leaves the packets. -/
theorem packets_update (q : SendQueue) (id : SendRecordId) : packets (q.update id) = packets q := by
  show (q.records.map (SendQueue.retime id)).map _ = q.records.map _
  rw [List.map_map]
  refine List.map_congr_left fun rec _ => ?_
  show ((SendQueue.retime id rec).part, (SendQueue.retime id rec).packet) = (rec.part, rec.packet)
  rw [SendQueue.part_retime]
  have hpacket : (SendQueue.retime id rec).packet = rec.packet := by
    rw [SendQueue.retime]
    split <;> rfl
  rw [hpacket]

theorem mem_of_get {q : SendQueue} {part : PartialPacketId} {rec : SendRecord}
    (h : q.get part = some rec) : rec ∈ q.records ∧ rec.part = part :=
  ⟨List.mem_of_find?_eq_some h,
    of_decide_eq_true (List.find?_some (p := fun r : SendRecord => decide (r.part = part)) h)⟩

end SendQueue

namespace Resender

open SendQueue (packets)

variable {cc : CongestionControl}

/-! ### Filling up does not change what is there -/

/-- Filling the send queue leaves the full queues. -/
theorem fullSendQueue_fillUpLoop (n : Nat) (iters : ResendType → List SendRecord) (r : Resender) :
    (Resender.fillUpLoop n iters r).1.fullSendQueue = r.fullSendQueue := by
  induction n generalizing iters r with
  | zero => rfl
  | succ n ih =>
      rw [Resender.fillUpLoop]
      split
      · exact ih _ _
      · rfl

/-- `fill_up_send_queue` leaves the full queues. -/
theorem fullSendQueue_fillUp (now : Nat) (r : Resender) :
    (r.fillUpSendQueue cc now).fullSendQueue = r.fullSendQueue := by
  have hloop := fullSendQueue_fillUpLoop (r.getWindow cc now - r.sendQueue.length) r.waiting r
  rw [Resender.fillUpSendQueue]
  split
  · next r' heq =>
      rw [heq] at hloop
      split <;> exact hloop
  · next r' heq =>
      rw [heq] at hloop
      split <;> exact hloop

theorem fullSendQueue_onLoss (now : Nat) (r : Resender) :
    (r.onLoss cc now).fullSendQueue = r.fullSendQueue := by
  rw [Resender.onLoss, Resender.rebuildSendQueue, fullSendQueue_fillUp]

/-! ### Sending a packet -/

/-- `send_packet` inserts the packet into the full queue of its type. -/
theorem fullSendQueue_sendPacket (now : Nat) (r : Resender) (i : ResendType)
    (packet : OutUdpPacket) :
    (r.sendPacket cc now i packet).fullSendQueue =
      Function.update r.fullSendQueue i ((r.fullSendQueue i).insert
        ⟨now, ⟨now, 0, i, packet.generationId, packet.data.udpPacketId⟩, packet⟩) := by
  rw [Resender.sendPacket, fullSendQueue_fillUp]

/-- The key of a packet. -/
def keyOf (packet : OutUdpPacket) : PartialPacketId :=
  ⟨packet.generationId, packet.data.udpPacketId⟩

/-- What is there after a packet was sent. -/
theorem mem_packets_sendPacket {now : Nat} {r : Resender} {i j : ResendType} {packet : OutUdpPacket}
    {x : PartialPacketId × OutUdpPacket}
    (h : x ∈ packets ((r.sendPacket cc now i packet).fullSendQueue j)) :
    j = i ∧ x = (keyOf packet, packet) ∨ x ∈ packets (r.fullSendQueue j) := by
  rw [fullSendQueue_sendPacket] at h
  by_cases hj : j = i
  · subst hj
    rw [Function.update_self] at h
    obtain ⟨rec, hrec, hpart, hpacket⟩ := SendQueue.mem_packets.mp h
    cases SendQueue.mem_insertInto hrec with
    | inl heq =>
        subst heq
        exact .inl ⟨rfl, Prod.ext hpart.symm hpacket.symm⟩
    | inr hmem => exact .inr (SendQueue.mem_packets.mpr ⟨rec, hmem, hpart, hpacket⟩)
  · rw [Function.update_of_ne hj] at h
    exact .inr h

theorem mem_packets_sendPacket_self (now : Nat) (r : Resender) (i : ResendType)
    (packet : OutUdpPacket) :
    (keyOf packet, packet) ∈ packets ((r.sendPacket cc now i packet).fullSendQueue i) := by
  rw [fullSendQueue_sendPacket, Function.update_self]
  exact SendQueue.mem_packets.mpr ⟨_, SendQueue.mem_insertInto_self _ _, rfl, rfl⟩

/-- Packets with other ids stay. -/
theorem mem_packets_sendPacket_of_mem {now : Nat} {r : Resender} {i j : ResendType}
    {packet : OutUdpPacket} {x : PartialPacketId × OutUdpPacket}
    (h : x ∈ packets (r.fullSendQueue j)) (hne : x.1 ≠ keyOf packet) :
    x ∈ packets ((r.sendPacket cc now i packet).fullSendQueue j) := by
  rw [fullSendQueue_sendPacket]
  by_cases hj : j = i
  · subst hj
    rw [Function.update_self]
    obtain ⟨rec, hrec, hpart, hpacket⟩ := SendQueue.mem_packets.mp h
    refine SendQueue.mem_packets.mpr ⟨rec, ?_, hpart, hpacket⟩
    exact SendQueue.mem_insertInto_of_mem hrec fun heq => hne (hpart.symm.trans heq)
  · rw [Function.update_of_ne hj]
    exact h

/-! ### Acknowledgements -/

/-- The acknowledged key has the id of the acknowledgement. Its generation is guessed from the first
record. -/
theorem packetId_ackedId (first : PartialPacketId) (pId : UInt16) :
    (Resender.ackedId first pId).packetId = pId := by
  rw [Resender.ackedId]
  split
  · next h => exact h
  · rfl

theorem fullSendQueue_removeAcked (now : Nat) (r : Resender) (i : ResendType) (rec : SendRecord) :
    (r.removeAcked now i rec).fullSendQueue =
      Function.update r.fullSendQueue i ((r.fullSendQueue i).remove rec.part) := by
  rw [Resender.removeAcked]
  split <;> rfl

/-- Removing a key leaves the packets with other keys. -/
theorem mem_packets_remove {q : SendQueue} {part : PartialPacketId}
    {x : PartialPacketId × OutUdpPacket} :
    x ∈ packets (q.remove part) ↔ x ∈ packets q ∧ x.1 ≠ part := by
  rw [SendQueue.mem_packets, SendQueue.mem_packets]
  constructor
  · rintro ⟨rec, hrec, hpart, hpacket⟩
    obtain ⟨hmem, hne⟩ := List.mem_filter.mp hrec
    exact ⟨⟨rec, hmem, hpart, hpacket⟩, hpart ▸ of_decide_eq_true hne⟩
  · rintro ⟨⟨rec, hmem, hpart, hpacket⟩, hne⟩
    exact ⟨rec, List.mem_filter.mpr ⟨hmem, decide_eq_true (hpart ▸ hne)⟩, hpart, hpacket⟩

/-- Only packets with the id go. -/
theorem mem_packets_ackPacket {now : Nat} {out : PartialPacketId} {r : Resender} {i j : ResendType}
    {pId : UInt16} {x : PartialPacketId × OutUdpPacket} (hx : x.1.packetId ≠ pId ∨ j ≠ i) :
    x ∈ packets ((r.ackPacket now out i pId).1.fullSendQueue j) ↔
      x ∈ packets (r.fullSendQueue j) := by
  rw [Resender.ackPacket]
  cases hacked : (r.fullSendQueue i).records.head?.bind fun first =>
      (r.fullSendQueue i).get (Resender.ackedId first.part pId) with
  | none => rfl
  | some rec =>
      obtain ⟨first, -, hget⟩ := Option.bind_eq_some_iff.mp hacked
      have hpart : rec.part.packetId = pId := by
        rw [(SendQueue.mem_of_get hget).2, packetId_ackedId]
      rw [Option.map_some, Option.getD_some, fullSendQueue_removeAcked]
      by_cases hj : j = i
      · subst hj
        have hne : x.1 ≠ rec.part := fun heq =>
          (hx.resolve_right fun h => h rfl) (by rw [heq, hpart])
        rw [Function.update_self, mem_packets_remove]
        exact and_iff_left hne
      · rw [Function.update_of_ne hj]

/-- An acknowledgement brings no packets. -/
theorem mem_of_mem_packets_ackPacket {now : Nat} {out : PartialPacketId} {r : Resender}
    {i j : ResendType} {pId : UInt16} {x : PartialPacketId × OutUdpPacket}
    (h : x ∈ packets ((r.ackPacket now out i pId).1.fullSendQueue j)) :
    x ∈ packets (r.fullSendQueue j) := by
  rw [Resender.ackPacket] at h
  cases hacked : (r.fullSendQueue i).records.head?.bind fun first =>
      (r.fullSendQueue i).get (Resender.ackedId first.part pId) with
  | none =>
      rw [hacked] at h
      exact h
  | some rec =>
      rw [hacked, Option.map_some, Option.getD_some, fullSendQueue_removeAcked] at h
      by_cases hj : j = i
      · subst hj
        rw [Function.update_self] at h
        exact (mem_packets_remove.mp h).1
      · rw [Function.update_of_ne hj] at h
        exact h

/-! ### Polling -/

/-- What a round of `poll_resend` can be. -/
inductive Rounded (cc : CongestionControl) (r : Resender) (round : Resender.Round) :
    Resender.Polled → Prop where
  | empty (h : r.sendQueue = []) : Rounded cc r round (.done r)
  | acked (rec : SendRecordId) (hpeek : r.peek round.top = some rec)
      (hget : (r.fullSendQueue rec.id.packetType).get rec.id.part = none) :
      Rounded cc r round (.again (Resender.fillUpSendQueue cc round.now
        { r with sendQueue := r.sendQueue.eraseIdx round.top }) none)
  | fired (htimer : round.timer = true) : Rounded cc r round (.again r none)
  | waits (rec : SendRecordId) (hpeek : r.peek round.top = some rec) (htries : rec.tries ≠ 0)
      (hwait : round.now < rec.last + r.rto) : Rounded cc r round (.done r)
  | blocked (h : round.socket = .pending) : Rounded cc r round (.done r)
  | failed : Rounded cc r round .failed
  | first (rec : SendRecordId) (fullRec : SendRecord) (hpeek : r.peek round.top = some rec)
      (hget : (r.fullSendQueue rec.id.packetType).get rec.id.part = some fullRec)
      (htries : rec.tries = 0) :
      Rounded cc r round (.again (r.markSent round.now round.top rec) (some fullRec.packet))
  | resend (rec : SendRecordId) (fullRec : SendRecord) (hpeek : r.peek round.top = some rec)
      (hget : (r.fullSendQueue rec.id.packetType).get rec.id.part = some fullRec)
      (htries : rec.tries ≠ 0) :
      Rounded cc r round (.again ((r.markSent round.now round.top rec).onLoss cc round.now)
        (some fullRec.packet))

/-- A round of a poll ends in one of the ways of `Rounded`. -/
theorem pollRound_cases {r : Resender} {round : Resender.Round} {polled : Resender.Polled}
    (h : r.pollRound cc round = some polled) : Rounded cc r round polled := by
  rw [Resender.pollRound] at h
  -- The branches in the order of the source: the queue, the timer, the socket, the tries.
  split at h
  · next hempty =>
      cases h
      exact .empty hempty
  · obtain ⟨rec, hpeek, rfl⟩ := Option.map_eq_some_iff.mp h
    dsimp only
    -- A record that is no longer in its full queue was acknowledged.
    cases hget : (r.fullSendQueue rec.id.packetType).get rec.id.part with
    | none => exact .acked rec hpeek hget
    | some fullRec =>
        dsimp only
        split
        · next hwait =>
            split
            · next htimer => exact .fired htimer
            · exact .waits rec hpeek hwait.1 hwait.2
        -- After too long without an answer the connection is given up.
        · split
          · exact .failed
          · cases hsocket : round.socket with
            | pending => exact .blocked hsocket
            | failed => exact .failed
            | sent =>
                dsimp only
                split
                · next htries => exact .first rec fullRec hpeek hget htries
                · next htries => exact .resend rec fullRec hpeek hget htries

/-- Marking a record as sent leaves the packets. -/
theorem packets_markSent (now top : Nat) (rec : SendRecordId) (r : Resender) (i : ResendType) :
    packets ((r.markSent now top rec).fullSendQueue i) = packets (r.fullSendQueue i) := by
  show packets (Function.update r.fullSendQueue rec.id.packetType
    ((r.fullSendQueue rec.id.packetType).update ⟨now, rec.tries + 1, rec.id⟩) i) = _
  by_cases hi : i = rec.id.packetType
  · subst hi
    rw [Function.update_self, SendQueue.packets_update]
  · rw [Function.update_of_ne hi]

/-- The resender that a round leaves. -/
def left : Resender.Polled → Option Resender
  | .again r _ => some r
  | .done r => some r
  | .failed => none

/-- The packet that a round sends. -/
def sentIn : Resender.Polled → Option OutUdpPacket
  | .again _ packet => packet
  | _ => none

/-- A round keeps all packets. -/
theorem packets_pollRound {r r' : Resender} {round : Resender.Round} {polled : Resender.Polled}
    (h : r.pollRound cc round = some polled) (hleft : left polled = some r') (i : ResendType) :
    packets (r'.fullSendQueue i) = packets (r.fullSendQueue i) := by
  cases pollRound_cases h with
  | acked =>
      cases hleft
      rw [fullSendQueue_fillUp]
  | first =>
      cases hleft
      exact packets_markSent ..
  | resend =>
      cases hleft
      rw [fullSendQueue_onLoss]
      exact packets_markSent ..
  | failed => cases hleft
  | _ =>
      cases hleft
      rfl

/-- A round sends a packet that is there. -/
theorem sentIn_pollRound {r : Resender} {round : Resender.Round} {polled : Resender.Polled}
    {packet : OutUdpPacket} (h : r.pollRound cc round = some polled)
    (hsent : sentIn polled = some packet) : ∃ i id, (id, packet) ∈ packets (r.fullSendQueue i) := by
  have hget : ∀ (rec : SendRecordId) (fullRec : SendRecord),
      (r.fullSendQueue rec.id.packetType).get rec.id.part = some fullRec →
      ∃ i id, (id, fullRec.packet) ∈ packets (r.fullSendQueue i) := by
    intro rec fullRec hget
    obtain ⟨hmem, hpart⟩ := SendQueue.mem_of_get hget
    exact ⟨_, _, SendQueue.mem_packets.mpr ⟨fullRec, hmem, hpart, rfl⟩⟩
  cases pollRound_cases h with
  | first rec fullRec _ hfull =>
      cases hsent
      exact hget rec fullRec hfull
  | resend rec fullRec _ hfull =>
      cases hsent
      exact hget rec fullRec hfull
  | _ => cases hsent

/-- Polling sends packets that are there, and keeps all of them. -/
theorem pollResend_packets {r : Resender} {rounds : List Resender.Round} {r' : Option Resender}
    {sent : List OutUdpPacket} (h : r.pollResend cc rounds = some (r', sent)) :
    (∀ i, packets ((r'.getD r).fullSendQueue i) = packets (r.fullSendQueue i)) ∧
      ∀ packet ∈ sent, ∃ i id, (id, packet) ∈ packets (r.fullSendQueue i) := by
  -- The induction is on the rounds. A round may send one packet, and changes only its tries.
  induction rounds generalizing r r' sent with
  | nil => cases h
  | cons round rounds ih =>
      rw [Resender.pollResend] at h
      obtain ⟨polled, hround, hrest⟩ := Option.bind_eq_some_iff.mp h
      cases polled with
      | done r₁ =>
          cases hrest
          exact ⟨packets_pollRound hround rfl, fun packet hp => absurd hp List.not_mem_nil⟩
      | failed =>
          cases hrest
          exact ⟨fun i => rfl, fun packet hp => absurd hp List.not_mem_nil⟩
      | again r₁ packet =>
          obtain ⟨⟨r₂, sent₂⟩, hothers, heq⟩ := Option.map_eq_some_iff.mp hrest
          cases heq
          have hkeep₁ : ∀ i, packets (r₁.fullSendQueue i) = packets (r.fullSendQueue i) :=
            packets_pollRound hround rfl
          obtain ⟨hkeep₂, hsent₂⟩ := ih hothers
          constructor
          · intro i
            cases r₂ with
            | none => rfl
            | some r₂ => exact (hkeep₂ i).trans (hkeep₁ i)
          · intro p hp
            cases List.mem_append.mp hp with
            | inl hfirst =>
                cases packet with
                | none => cases hfirst
                | some packet =>
                    rw [List.mem_singleton.mp hfirst]
                    exact sentIn_pollRound hround rfl
            | inr hothers =>
                obtain ⟨i, id, hmem⟩ := hsent₂ p hothers
                exact ⟨i, id, hkeep₁ i ▸ hmem⟩

end Resender

end Nek0.Proofs.Protocol
