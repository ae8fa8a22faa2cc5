import Mathlib.Logic.Function.Basic
import Nek0.Lib.System
import Nek0.Protocol.Codec

/-!
# `Nek0.Protocol.Resend`: packets that are sent until they are acknowledged

A `Resender` keeps every command and `Init` packet that is not acknowledged (`fullSendQueue`), and
those of them that are in flight (`sendQueue`, as many as the congestion window allows). The window
is computed with floats: `CongestionControl` says what its code guarantees. Times are nanoseconds of
the monotonic clock. Pings and statistics are left out.
-/

set_option autoImplicit false

namespace Nek0.Protocol

namespace PartialPacketId

/-- `Ord::cmp`. -/
def cmp (a b : PartialPacketId) : Ordering :=
  (compare a.generationId b.generationId).then (compare a.packetId b.packetId)

/-- `Sub<u16>`. -/
def sub (p : PartialPacketId) (n : UInt16) : PartialPacketId where
  generationId := if p.packetId.toNat < n.toNat then p.generationId - 1 else p.generationId
  packetId := p.packetId - n

end PartialPacketId

/-- The types of packets that are resent. -/
inductive ResendType where
  | init
  | command
  | commandLow
  deriving DecidableEq, Repr

/-- `PacketId`, of a packet that is resent. -/
structure PacketId where
  packetType : ResendType
  part : PartialPacketId
  deriving DecidableEq, Repr

/-- `SendRecordId`. -/
structure SendRecordId where
  /-- The last time when the packet was sent. -/
  last : Nat
  /-- How often the packet was sent. -/
  tries : Nat
  id : PacketId
  deriving DecidableEq, Repr

/-- `Ord::cmp`: the greater packet is more important. -/
def SendRecordId.cmp (a b : SendRecordId) : Ordering :=
  if a.tries = 0 ∧ b.tries ≠ 0 then .gt
  else if a.tries ≠ 0 ∧ b.tries = 0 then .lt
  else (compare a.last b.last).swap.then (a.id.part.cmp b.id.part).swap

/-- `SendRecord`. -/
structure SendRecord where
  /-- When this packet was originally sent. -/
  sent : Nat
  id : SendRecordId
  packet : OutUdpPacket

/-- The key of a record. -/
def SendRecord.part (rec : SendRecord) : PartialPacketId := rec.id.id.part

/-- `BTreeMap<PartialPacketId, SendRecord>`: the records by their ids. -/
structure SendQueue where
  records : List SendRecord
  sorted : records.Pairwise fun a b => a.part.lt b.part

namespace SendQueue

def empty : SendQueue := ⟨[], .nil⟩

/-- A record is put into its place, over one with its id. -/
def insertInto (rec : SendRecord) : List SendRecord → List SendRecord
  | [] => [rec]
  | r :: rs =>
    if rec.part.lt r.part then rec :: r :: rs
    else if rec.part = r.part then rec :: rs
    else r :: insertInto rec rs

/-- What is in a queue behind an insertion was inserted or there. -/
theorem mem_insertInto {rec r : SendRecord} {rs : List SendRecord} (h : r ∈ insertInto rec rs) :
    r = rec ∨ r ∈ rs := by
  induction rs with
  | nil => exact .inl (List.mem_singleton.mp h)
  | cons r' rs ih =>
      rw [insertInto] at h
      split at h
      · exact List.mem_cons.mp h
      · split at h
        · exact (List.mem_cons.mp h).imp_right (List.mem_cons_of_mem r')
        · cases List.mem_cons.mp h with
          | inl heq => exact .inr (heq ▸ List.mem_cons_self)
          | inr hmem => exact (ih hmem).imp_right (List.mem_cons_of_mem r')

end SendQueue

namespace PartialPacketId

/-- An id as a number. -/
def number (p : PartialPacketId) : Nat := p.generationId.toNat * 2 ^ 16 + p.packetId.toNat

theorem lt_iff_number {a b : PartialPacketId} : a.lt b ↔ a.number < b.number := by
  have ha := a.packetId.toNat_lt
  have hb := b.packetId.toNat_lt
  rw [lt, number, number, UInt32.lt_iff_toNat_lt, UInt16.lt_iff_toNat_lt, ← UInt32.toNat_inj]
  omega

/-- A number says which generation and which id. -/
theorem number_inj {a b : PartialPacketId} (h : a.number = b.number) : a = b := by
  have ha := a.packetId.toNat_lt
  have hb := b.packetId.toNat_lt
  rw [number, number] at h
  have hgen : a.generationId = b.generationId := UInt32.toNat_inj.mp (by omega)
  have hid : a.packetId = b.packetId := UInt16.toNat_inj.mp (by omega)
  cases a
  cases b
  cases hgen
  cases hid
  rfl

end PartialPacketId

namespace SendQueue

/-- Insertion keeps the records sorted by their ids. -/
theorem sorted_insertInto {rec : SendRecord} {rs : List SendRecord}
    (h : rs.Pairwise fun a b => a.part.lt b.part) :
    (insertInto rec rs).Pairwise fun a b => a.part.lt b.part := by
  induction rs with
  | nil => exact List.pairwise_singleton _ _
  | cons r rs ih =>
      obtain ⟨hr, hrs⟩ := List.pairwise_cons.mp h
      rw [insertInto]
      split
      · next hlt =>
          refine List.pairwise_cons.mpr ⟨fun r' hr' => ?_, h⟩
          cases List.mem_cons.mp hr' with
          | inl heq => exact heq ▸ hlt
          | inr hmem =>
              have hlt' := PartialPacketId.lt_iff_number.mp (hr r' hmem)
              rw [PartialPacketId.lt_iff_number] at hlt ⊢
              exact hlt.trans hlt'
      · next hlt =>
          split
          · next heq =>
              refine List.pairwise_cons.mpr ⟨fun r' hr' => ?_, hrs⟩
              rw [heq]
              exact hr r' hr'
          · next hne =>
              refine List.pairwise_cons.mpr ⟨fun r' hr' => ?_, ih hrs⟩
              cases mem_insertInto hr' with
              | inl heq =>
                  rw [heq]
                  rw [PartialPacketId.lt_iff_number] at hlt ⊢
                  have hnumber : rec.part.number ≠ r.part.number :=
                    fun h => hne (PartialPacketId.number_inj h)
                  omega
              | inr hmem => exact hr r' hmem

/-- `insert`. -/
def insert (q : SendQueue) (rec : SendRecord) : SendQueue :=
  ⟨insertInto rec q.records, sorted_insertInto q.sorted⟩

/-- `get`. -/
def get (q : SendQueue) (part : PartialPacketId) : Option SendRecord :=
  q.records.find? fun rec => rec.part = part

/-- `remove`. -/
def remove (q : SendQueue) (part : PartialPacketId) : SendQueue :=
  ⟨q.records.filter fun rec => rec.part ≠ part, q.sorted.filter _⟩

/-- The record of an id, with the new times of the id. -/
def retime (id : SendRecordId) (rec : SendRecord) : SendRecord :=
  if rec.part = id.id.part then { rec with id := id } else rec

theorem part_retime (id : SendRecordId) (rec : SendRecord) : (retime id rec).part = rec.part := by
  rw [retime]
  split
  · next h => exact h.symm
  · rfl

/-- `full_rec.id = rec.clone()`. -/
def update (q : SendQueue) (id : SendRecordId) : SendQueue where
  records := q.records.map (retime id)
  sorted := by
    refine List.pairwise_map.mpr (q.sorted.imp fun {a b} h => ?_)
    rw [part_retime, part_retime]
    exact h

end SendQueue

/-- The CUBIC window, of the time since the last loss and the window before it. -/
structure CongestionControl where
  window : Nat → UInt16 → Nat
  /-- At least 1, at most `u16::MAX / 2`. -/
  window_pos : ∀ time wMax, 0 < window time wMax
  window_le : ∀ time wMax, window time wMax ≤ 32767

/-- The states of a connection, as the resender sees them. -/
inductive ResenderState where
  | connecting
  | connected
  | disconnecting
  | disconnected
  deriving DecidableEq, Repr

/-- `ResendConfig`. -/
structure ResendConfig where
  connectingTimeout : Nat
  normalTimeout : Nat
  disconnectTimeout : Nat
  /-- Smoothed Round Trip Time. -/
  srtt : Nat
  /-- Deviation of the srtt. -/
  srttDev : Nat
  deriving DecidableEq, Repr

/-- `Duration::from_secs`. -/
def seconds (n : Nat) : Nat := n * 1000000000

/-- `ResendConfig::default`. -/
def ResendConfig.default : ResendConfig where
  connectingTimeout := seconds 5
  normalTimeout := seconds 30
  disconnectTimeout := seconds 5
  srtt := 500000000
  srttDev := 0

/-- `Resender`. -/
structure Resender where
  /-- The maximum in this queue is the next packet that should be resent. -/
  sendQueue : List SendRecordId
  /-- There is one queue per packet type. -/
  fullSendQueue : ResendType → SendQueue
  /-- All packets with an id less than this are in the `sendQueue`. -/
  sendQueueIndices : ResendType → PartialPacketId
  config : ResendConfig
  state : ResenderState
  /-- The maximum send window before the last reduction. -/
  wMax : UInt16
  lastLoss : Nat
  /-- The send queue was never full since this time. -/
  noCongestionSince : Option Nat

namespace Resender

/-- `Resender::default`, with `UDP_SINK_CAPACITY`. -/
def default (now : Nat) : Resender where
  sendQueue := []
  fullSendQueue _ := .empty
  sendQueueIndices _ := ⟨0, 0⟩
  config := .default
  state := .connecting
  wMax := 50
  lastLoss := now
  noCongestionSince := some now

/-- `get_timeout`. -/
def getTimeout (r : Resender) : Nat :=
  match r.state with
  | .connecting => r.config.connectingTimeout
  | .disconnecting | .disconnected => r.config.disconnectTimeout
  | .connected => r.config.normalTimeout

/-- `get_window`. -/
def getWindow (cc : CongestionControl) (now : Nat) (r : Resender) : Nat :=
  cc.window (r.noCongestionSince.getD now - r.lastLoss) r.wMax

/-- `is_empty`. -/
def isEmpty (r : Resender) : Bool :=
  [ResendType.init, .command, .commandLow].all fun i => (r.fullSendQueue i).records.isEmpty

/-- `update_srtt`. The statistics have an own value. -/
def updateSrtt (r : Resender) (rtt : Nat) : Resender :=
  let diff := if rtt > r.config.srtt then rtt - r.config.srtt else r.config.srtt - rtt
  { r with config :=
      { r.config with
        srttDev := r.config.srttDev * 3 / 4 + diff / 4
        srtt := r.config.srtt * 7 / 8 + rtt / 8 } }

/-! ### The send queue -/

/-- One of the three iterators is looked at. `best` is `max_i`, with the record of `min_time`. -/
def better (iters : ResendType → List SendRecord) (best : Option (ResendType × SendRecord))
    (i : ResendType) : Option (ResendType × SendRecord) :=
  match iters i, best with
  | [], _ => best
  | rec :: _, none => some (i, rec)
  | rec :: _, some (_, other) => if other.sent < rec.sent then some (i, rec) else best

/-- The record that is taken next. -/
def pickNext (iters : ResendType → List SendRecord) : Option (ResendType × SendRecord) :=
  [ResendType.init, .command, .commandLow].foldl (better iters) none

/-- The record goes to the send queue. -/
def enqueue (r : Resender) (i : ResendType) (rec : SendRecord) : Resender :=
  { r with
    sendQueueIndices := Function.update r.sendQueueIndices i (rec.part.add 1)
    sendQueue := r.sendQueue ++ [rec.id] }

/-- The loop of `fill_up_send_queue`, and whether it came to its end. -/
def fillUpLoop : Nat → (ResendType → List SendRecord) → Resender → Resender × Bool
  | 0, _, r => (r, true)
  | n + 1, iters, r =>
    match pickNext iters with
    | some (i, rec) => fillUpLoop n (Function.update iters i (iters i).tail) (r.enqueue i rec)
    | none => (r, false)

/-- The records that are not in the send queue yet. -/
def waiting (r : Resender) (i : ResendType) : List SendRecord :=
  (r.fullSendQueue i).records.dropWhile fun rec => rec.part.lt (r.sendQueueIndices i)

/-- `fill_up_send_queue`. -/
def fillUpSendQueue (cc : CongestionControl) (now : Nat) (r : Resender) : Resender :=
  match fillUpLoop (r.getWindow cc now - r.sendQueue.length) r.waiting r with
  | (r, false) =>
    if r.noCongestionSince.isNone then { r with noCongestionSince := some now } else r
  | (r, true) =>
    match r.noCongestionSince with
    | some ended =>
      { r with
        noCongestionSince := none
        lastLoss := now - (ended - r.lastLoss) }
    | none => r

/-- `rebuild_send_queue`. -/
def rebuildSendQueue (cc : CongestionControl) (now : Nat) (r : Resender) : Resender :=
  fillUpSendQueue cc now { r with sendQueue := [], sendQueueIndices := fun _ => ⟨0, 0⟩ }

/-- `send_packet`. -/
def sendPacket (cc : CongestionControl) (now : Nat) (r : Resender) (i : ResendType)
    (packet : OutUdpPacket) : Resender :=
  let id : PacketId := ⟨i, ⟨packet.generationId, packet.data.udpPacketId⟩⟩
  let record : SendRecord := ⟨now, ⟨now, 0, id⟩, packet⟩
  -- Reduce index if necessary.
  let indices := if id.part.lt (r.sendQueueIndices i) then
      Function.update r.sendQueueIndices i id.part
    else r.sendQueueIndices
  fillUpSendQueue cc now
    { r with
      sendQueueIndices := indices
      fullSendQueue := Function.update r.fullSendQueue i ((r.fullSendQueue i).insert record) }

/-- The `AckPacket` item of an acknowledgement, if any: all packets with an id less or equal to its
id were acknowledged. `out` is the next id to send. -/
def ackItem (out : PartialPacketId) (i : ResendType) (pId : UInt16) :
    List SendRecord → Option PacketId
  | [] => none
  | first :: others =>
    if first.part.packetId = pId then
      let next : PartialPacketId :=
        match others with
        -- Ack all until the next packet.
        | second :: _ => second.part
        | [] => if i = .init then ⟨0, pId + 1⟩ else out
      some ⟨i, next.sub 1⟩
    else none

/-- The id of the packet that is acknowledged, from the first one that is not. -/
def ackedId (first : PartialPacketId) (pId : UInt16) : PartialPacketId :=
  if first.packetId = pId then first
  else
    { generationId := if pId < first.packetId then first.generationId + 1 else first.generationId
      packetId := pId }

/-- The record goes. The srtt is updated if the packet was not resent. -/
def removeAcked (now : Nat) (r : Resender) (i : ResendType) (rec : SendRecord) : Resender :=
  let r := { r with
    fullSendQueue := Function.update r.fullSendQueue i ((r.fullSendQueue i).remove rec.part) }
  if rec.id.tries = 1 then r.updateSrtt (now - rec.sent) else r

/-- `ack_packet`. -/
def ackPacket (now : Nat) (out : PartialPacketId) (r : Resender) (i : ResendType) (pId : UInt16) :
    Resender × Option PacketId :=
  let queue := r.fullSendQueue i
  let acked := queue.records.head?.bind fun first => queue.get (ackedId first.part pId)
  ((acked.map (r.removeAcked now i)).getD r, ackItem out i pId queue.records)

/-! ### Sending -/

/-- What `poll_send_to` answers. -/
inductive SocketResult where
  | pending
  | failed
  | sent
  deriving DecidableEq, Repr

/-- What a round of `poll_resend` meets: the time, the place of the greatest record in the send
queue (of equal ones any can be on top), whether the timer has run out, and what the socket answers.
-/
structure Round where
  now : Nat
  top : Nat
  timer : Bool
  socket : SocketResult
  deriving DecidableEq, Repr

/-- How a round ends: the loop goes on, the function returns, or it fails. -/
inductive Polled where
  | again (r : Resender) (sent : Option OutUdpPacket)
  | done (r : Resender)
  | failed

/-- The retransmission timeout, of a second at most. -/
def rto (r : Resender) : Nat := min (r.config.srtt + r.config.srttDev * 4) (seconds 1)

/-- The record of the send queue that `peek_mut` gives. -/
def peek (r : Resender) (top : Nat) : Option SendRecordId :=
  (r.sendQueue[top]?).filter fun rec => r.sendQueue.all fun other => other.cmp rec ≠ .gt

/-- A packet was sent for the second time or more: it counts as lost. -/
def onLoss (cc : CongestionControl) (now : Nat) (r : Resender) : Resender :=
  let timeout := r.getTimeout
  let srtt := r.config.srtt * 2
  let r := { r with config := { r.config with srtt := if srtt > timeout then timeout else srtt } }
  rebuildSendQueue cc now
    { r with
      wMax := .ofNat (r.getWindow cc now)
      lastLoss := now
      noCongestionSince := none }

/-- The record of the packet that was sent, in both queues. -/
def markSent (now top : Nat) (rec : SendRecordId) (r : Resender) : Resender :=
  let i := rec.id.packetType
  let sent : SendRecordId := ⟨now, rec.tries + 1, rec.id⟩
  { r with
    sendQueue := r.sendQueue.set top sent
    fullSendQueue := Function.update r.fullSendQueue i ((r.fullSendQueue i).update sent) }

/-- A round of the loop of `poll_resend`. There is none if no record is at the place on top. -/
def pollRound (cc : CongestionControl) (r : Resender) (round : Round) : Option Polled :=
  if r.sendQueue = [] then some (.done r)
  else
    (r.peek round.top).map fun rec =>
      let i := rec.id.packetType
      match (r.fullSendQueue i).get rec.id.part with
      | none =>
        -- The packet was acknowledged.
        .again (fillUpSendQueue cc round.now
          { r with sendQueue := r.sendQueue.eraseIdx round.top }) none
      | some fullRec =>
        if rec.tries ≠ 0 ∧ round.now < rec.last + r.rto then
          if round.timer then .again r none else .done r
        else if round.now - fullRec.sent > r.getTimeout then .failed
        else
          match round.socket with
          | .pending => .done r
          | .failed => .failed
          | .sent =>
            let r := r.markSent round.now round.top rec
            .again (if rec.tries = 0 then r else r.onLoss cc round.now) (some fullRec.packet)

/-- `poll_resend`: rounds until one is the last, and what is sent in them. -/
def pollResend (cc : CongestionControl) (r : Resender) :
    List Round → Option (Option Resender × List OutUdpPacket)
  | [] => none
  | round :: rounds =>
    (pollRound cc r round).bind fun
      | .done r => some (some r, [])
      | .failed => some (none, [])
      | .again r sent =>
        (pollResend cc r rounds).map fun result => (result.1, sent.toList ++ result.2)

/-! ### Runs -/

inductive Event where
  | send (now : Nat) (i : ResendType) (packet : OutUdpPacket)
  | ack (now : Nat) (out : PartialPacketId) (i : ResendType) (pId : UInt16)
  | poll (rounds : List Round)
  | setState (state : ResenderState)

/-- What happens to a resender, until it fails. -/
def step (cc : CongestionControl) : Event → Resender → Option Resender
  | .send now i packet, r => some (r.sendPacket cc now i packet)
  | .ack now out i pId, r => some (r.ackPacket now out i pId).1
  | .poll rounds, r => (r.pollResend cc rounds).bind fun result => result.1
  | .setState state, r => some { r with state := state }

/-- The resender as a system. -/
def system (cc : CongestionControl) : Nek0.Lib.System Resender Event where
  init r := ∃ now, r = default now
  next := step cc

/-- Packets are numbered on: the index does not have to go down, as it does for lower `Init`
packets. Generations do not wrap around. -/
def Upward (r : Resender) : Event → Prop
  | .send _ i packet =>
    let id : PartialPacketId := ⟨packet.generationId, packet.data.udpPacketId⟩
    ¬id.lt (r.sendQueueIndices i) ∧ id.number + 1 < 2 ^ 48
  | _ => True

end Resender

end Nek0.Protocol
