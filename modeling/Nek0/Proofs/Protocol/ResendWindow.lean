import Mathlib.Data.List.TakeWhile
import Nek0.Proofs.Protocol.Resending

/-!
# `Nek0.Proofs.Protocol.ResendWindow`: packets in flight

When the ids of each type go up, the send queue has just the packets below the index, each of them
once and with the times of its record (`Sync`, `inFlight_iff`). After a poll in which the socket
took everything, all of them were sent in the last second (`sent_of_poll`).
-/

set_option autoImplicit false

namespace Nek0.Proofs.Protocol.Resender

open Nek0.Protocol
open Nek0.Lib (System)

variable {cc : CongestionControl} {r : Resender}

/-- How the queues of a resender belong together. -/
structure Sync (r : Resender) : Prop where
  nodup : (r.sendQueue.map SendRecordId.id).Nodup
  typed : ∀ i, ∀ full ∈ (r.fullSendQueue i).records,
    full.id.id.packetType = i ∧ full.part.number + 1 < 2 ^ 48
  behind : ∀ rec ∈ r.sendQueue,
    rec.id.part.number < (r.sendQueueIndices rec.id.packetType).number
  inFlight : ∀ i, ∀ full ∈ (r.fullSendQueue i).records,
    full.part.number < (r.sendQueueIndices i).number → full.id ∈ r.sendQueue
  same : ∀ rec ∈ r.sendQueue, ∀ full ∈ (r.fullSendQueue rec.id.packetType).records,
    full.part = rec.id.part → full.id = rec
  length : r.sendQueue.length ≤ 32767

/-- The ids of a queue are all different. -/
theorem eq_of_part {q : SendQueue} {a b : SendRecord} (ha : a ∈ q.records) (hb : b ∈ q.records)
    (h : a.part = b.part) : a = b := by
  obtain ⟨i, hi, rfl⟩ := List.getElem_of_mem ha
  obtain ⟨j, hj, rfl⟩ := List.getElem_of_mem hb
  have hless := List.pairwise_iff_getElem.mp q.sorted
  rcases Nat.lt_trichotomy i j with hij | rfl | hji
  · have hlt := PartialPacketId.lt_iff_number.mp (hless i j hi hj hij)
    rw [h] at hlt
    exact absurd hlt (Nat.lt_irrefl _)
  · rfl
  · have hlt := PartialPacketId.lt_iff_number.mp (hless j i hj hi hji)
    rw [h] at hlt
    exact absurd hlt (Nat.lt_irrefl _)

/-- Below the last id, the next id has the next number, over the border of a generation too. -/
theorem number_add_one {p : PartialPacketId} (h : p.number + 1 < 2 ^ 48) :
    (p.add 1).number = p.number + 1 := by
  have hid := p.packetId.toNat_lt
  have hgen := p.generationId.toNat_lt
  have hone : (1 : UInt16).toNat = 1 := rfl
  rw [PartialPacketId.number] at h
  rw [PartialPacketId.add, PartialPacketId.number, PartialPacketId.number, hone]
  dsimp only
  rw [UInt16.toNat_add, hone]
  -- Either the id stays in its generation, or it wraps and the generation goes up.
  split
  · next hlt => rw [Nat.mod_eq_of_lt hlt, Nat.add_assoc]
  · next hge =>
      rw [UInt32.toNat_add]
      show (p.generationId.toNat + 1) % 2 ^ 32 * 2 ^ 16 + _ = _
      rw [Nat.mod_eq_of_lt (by omega)]
      omega

/-! ### Filling up -/

/-- The iterators are at the index: records before are below it, and the others are not. -/
structure AtIndex (r : Resender) (iters : ResendType → List SendRecord) : Prop where
  split : ∀ i, ∃ front, (r.fullSendQueue i).records = front ++ iters i ∧
    (∀ full ∈ front, full.part.number < (r.sendQueueIndices i).number) ∧
    ∀ full ∈ iters i, (r.sendQueueIndices i).number ≤ full.part.number

/-- A type is better only with the front of its own records, or it was the best before. -/
theorem better_some {iters : ResendType → List SendRecord} {best : Option (ResendType × SendRecord)}
    {i j : ResendType} {rec : SendRecord} (h : Resender.better iters best j = some (i, rec)) :
    best = some (i, rec) ∨ ∃ rest, iters i = rec :: rest := by
  cases hiters : iters j with
  | nil =>
      simp only [Resender.better, hiters] at h
      exact .inl h
  | cons first rest =>
      cases best with
      | none =>
          simp only [Resender.better, hiters] at h
          cases h
          exact .inr ⟨rest, hiters⟩
      | some other =>
          simp only [Resender.better, hiters] at h
          split at h
          · cases h
            exact .inr ⟨rest, hiters⟩
          · exact .inl h

/-- The record that is picked is the first one of its iterator. -/
theorem pickNext_some {iters : ResendType → List SendRecord} {i : ResendType} {rec : SendRecord}
    (h : Resender.pickNext iters = some (i, rec)) : ∃ rest, iters i = rec :: rest := by
  rw [Resender.pickNext] at h
  simp only [List.foldl_cons, List.foldl_nil] at h
  rcases better_some h with h | h
  · rcases better_some h with h | h
    · exact (better_some h).resolve_left fun h => nomatch h
    · exact h
  · exact h

/-- What waits is what stands at the index or above it in each queue. -/
theorem atIndex_waiting (r : Resender) : AtIndex r r.waiting := by
  refine ⟨fun i => ⟨_, (List.takeWhile_append_dropWhile ..).symm, fun full hfull => ?_, ?_⟩⟩
  -- `takeWhile` has taken the records below the index.
  · have hlt : full.part.lt (r.sendQueueIndices i) := by
      simpa using List.mem_takeWhile_imp hfull
    exact PartialPacketId.lt_iff_number.mp hlt
  -- The records are sorted, so the first one that is not below the index has none below it behind
  -- it.
  · have hsorted := (r.fullSendQueue i).sorted
    rw [Resender.waiting]
    generalize (r.fullSendQueue i).records = records at hsorted
    induction records with
    | nil => exact fun full hfull => absurd hfull List.not_mem_nil
    | cons rec rest ih =>
        obtain ⟨hless, hsorted⟩ := List.pairwise_cons.mp hsorted
        rw [List.dropWhile_cons]
        split
        · exact ih hsorted
        · next hnot =>
            have hge : (r.sendQueueIndices i).number ≤ rec.part.number := by
              rw [decide_eq_true_eq, PartialPacketId.lt_iff_number] at hnot
              exact Nat.not_lt.mp hnot
            intro full hfull
            cases List.mem_cons.mp hfull with
            | inl heq => exact heq ▸ hge
            | inr hmem =>
                exact hge.trans (PartialPacketId.lt_iff_number.mp (hless full hmem)).le

/-- The record that is picked goes to the send queue. -/
theorem Sync.enqueue {iters : ResendType → List SendRecord} {i : ResendType} {rec : SendRecord}
    {rest : List SendRecord} (h : Sync r) (hat : AtIndex r iters) (hiters : iters i = rec :: rest)
    (hlength : r.sendQueue.length < 32767) :
    Sync (r.enqueue i rec) ∧
      AtIndex (r.enqueue i rec) (Function.update iters i (iters i).tail) := by
  -- The queue of the type is what was sent before, the picked record, and what still waits.
  obtain ⟨front, hrecords, hfront, hback⟩ := hat.split i
  rw [hiters] at hrecords hback
  have hsorted := (r.fullSendQueue i).sorted
  rw [hrecords] at hsorted
  obtain ⟨-, hsorted', hcross⟩ := List.pairwise_append.mp hsorted
  have hless := (List.pairwise_cons.mp hsorted').1
  have hmem : rec ∈ (r.fullSendQueue i).records := by
    rw [hrecords]
    exact List.mem_append_right front List.mem_cons_self
  obtain ⟨htype, hlimit⟩ := h.typed i rec hmem
  have hindex : ((r.enqueue i rec).sendQueueIndices i).number = rec.part.number + 1 := by
    show (Function.update r.sendQueueIndices i (rec.part.add 1) i).number = _
    rw [Function.update_self, number_add_one hlimit]
  have hother : ∀ j, j ≠ i → (r.enqueue i rec).sendQueueIndices j = r.sendQueueIndices j :=
    fun j hj => Function.update_of_ne hj _ _
  -- The picked record is the first that waits, so its number is at the index or above.
  have hup : (r.sendQueueIndices i).number ≤ rec.part.number := hback rec List.mem_cons_self
  constructor
  · refine ⟨?_, h.typed, ?_, ?_, ?_, ?_⟩
    -- No id twice: a record in flight is below the index, the picked one is not.
    · show ((r.sendQueue ++ [rec.id]).map SendRecordId.id).Nodup
      rw [List.map_append, List.map_singleton]
      refine List.nodup_append.mpr ⟨h.nodup, List.nodup_singleton _, ?_⟩
      intro id hid id' hid' heq
      obtain ⟨other, hother, rfl⟩ := List.mem_map.mp hid
      rw [List.mem_singleton.mp hid'] at heq
      have hlt := h.behind other hother
      rw [heq, htype] at hlt
      exact absurd hlt (Nat.not_lt.mpr hup)
    -- The index is now one past the picked record. Other types keep theirs.
    · intro other hmem'
      by_cases hj : other.id.packetType = i
      · rw [hj, hindex]
        cases List.mem_append.mp hmem' with
        | inl hold =>
            have hlt := h.behind other hold
            rw [hj] at hlt
            omega
        | inr hnew =>
            rw [List.mem_singleton.mp hnew]
            exact Nat.lt_succ_self _
      · rw [hother _ hj]
        cases List.mem_append.mp hmem' with
        | inl hold => exact h.behind other hold
        | inr hnew =>
            rw [List.mem_singleton.mp hnew] at hj
            exact absurd htype hj
    -- A record below the new index was below the old one, or is the picked one.
    · intro j full hfull hlt
      by_cases hj : j = i
      · subst hj
        rw [hindex] at hlt
        have hfull' : full ∈ front ++ rec :: rest := hrecords ▸ hfull
        cases List.mem_append.mp hfull' with
        | inl hf => exact List.mem_append_left _ (h.inFlight j full hfull (hfront full hf))
        | inr hb =>
            cases List.mem_cons.mp hb with
            | inl heq => exact List.mem_append_right _ (List.mem_singleton.mpr (by rw [heq]))
            | inr hr =>
                have := PartialPacketId.lt_iff_number.mp (hless full hr)
                omega
      · rw [hother j hj] at hlt
        exact List.mem_append_left _ (h.inFlight j full hfull hlt)
    -- The picked record and its entry in the queue are the same record.
    · intro other hmem' full hfull heq
      cases List.mem_append.mp hmem' with
      | inl hold => exact h.same other hold full hfull heq
      | inr hnew =>
          have hnew' := List.mem_singleton.mp hnew
          subst hnew'
          have hfull' : full ∈ (r.fullSendQueue i).records := htype ▸ hfull
          rw [eq_of_part hfull' hmem heq]
    -- The window leaves room for one more.
    · show (r.sendQueue ++ [rec.id]).length ≤ 32767
      rw [List.length_append, List.length_singleton]
      omega
  -- The picked record has moved from what waits to what was sent.
  · refine ⟨fun j => ?_⟩
    by_cases hj : j = i
    · subst hj
      refine ⟨front ++ [rec], ?_, ?_, ?_⟩
      · rw [Function.update_self, hiters, List.tail_cons, List.append_assoc]
        exact hrecords
      · rw [hindex]
        intro full hfull
        cases List.mem_append.mp hfull with
        | inl hf =>
            have := hfront full hf
            omega
        | inr hr =>
            rw [List.mem_singleton.mp hr]
            exact Nat.lt_succ_self _
      · rw [Function.update_self, hiters, List.tail_cons, hindex]
        intro full hfull
        exact PartialPacketId.lt_iff_number.mp (hless full hfull)
    · rw [Function.update_of_ne hj, hother j hj]
      exact hat.split j

/-- Filling the send queue up to `n` records keeps it in step with the full queues. -/
theorem Sync.fillUpLoop {n : Nat} {iters : ResendType → List SendRecord} (h : Sync r)
    (hat : AtIndex r iters) (hlength : r.sendQueue.length + n ≤ 32767) :
    Sync (Resender.fillUpLoop n iters r).1 := by
  -- Each round picks one record, and the room shrinks by one.
  induction n generalizing r iters with
  | zero => exact h
  | succ n ih =>
      rw [Resender.fillUpLoop]
      split
      · next i rec hpick =>
          obtain ⟨rest, hiters⟩ := pickNext_some hpick
          obtain ⟨hsync, hat'⟩ := h.enqueue hat hiters (by omega)
          refine ih hsync hat' ?_
          show (r.sendQueue ++ [rec.id]).length + n ≤ 32767
          rw [List.length_append, List.length_singleton]
          omega
      · exact h

/-- The times of the window do not matter for the queues. -/
theorem Sync.congr {r' : Resender} (h : Sync r) (hqueue : r'.sendQueue = r.sendQueue)
    (hfull : r'.fullSendQueue = r.fullSendQueue)
    (hindex : r'.sendQueueIndices = r.sendQueueIndices) :
    Sync r' := by
  obtain ⟨hnodup, htyped, hbehind, hflight, hsame, hlength⟩ := h
  constructor
  all_goals
    simp only [hqueue, hfull, hindex]
    assumption

/-- `fill_up_send_queue` keeps both queues in step: the window is at most 32767 records. -/
theorem Sync.fillUpSendQueue (h : Sync r) (now : Nat) : Sync (r.fillUpSendQueue cc now) := by
  have hlength : r.sendQueue.length + (r.getWindow cc now - r.sendQueue.length) ≤ 32767 := by
    have hold := h.length
    have hwindow : r.getWindow cc now ≤ 32767 := cc.window_le _ _
    omega
  have hloop := h.fillUpLoop (atIndex_waiting r) hlength
  rw [Resender.fillUpSendQueue]
  split
  -- The notes on the window only change the state of the congestion control.
  · next r' heq =>
      rw [heq] at hloop
      split
      · exact hloop.congr rfl rfl rfl
      · exact hloop
  · next r' heq =>
      rw [heq] at hloop
      split
      · exact hloop.congr rfl rfl rfl
      · exact hloop

/-! ### Packets and acknowledgements -/

/-- A record is the new one, or was there. -/
theorem mem_update_insert {queues : ResendType → SendQueue} {i j : ResendType}
    {new full : SendRecord}
    (h : full ∈ (Function.update queues i ((queues i).insert new) j).records) :
    j = i ∧ full = new ∨ full ∈ (queues j).records := by
  by_cases hj : j = i
  · subst hj
    rw [Function.update_self] at h
    exact (SendQueue.mem_insertInto h).imp_left fun heq => ⟨rfl, heq⟩
  · rw [Function.update_of_ne hj] at h
    exact .inr h

/-- A packet whose number is not below the index is only queued, and waits. -/
theorem Sync.sendPacket (h : Sync r) {now : Nat} {i : ResendType} {packet : OutUdpPacket}
    (hindex : (r.sendQueueIndices i).number ≤ (keyOf packet).number)
    (hlimit : (keyOf packet).number + 1 < 2 ^ 48) : Sync (r.sendPacket cc now i packet) := by
  rw [Resender.sendPacket]
  dsimp only
  -- The index is not moved back: nothing with a higher number was sent.
  rw [if_neg (by rw [PartialPacketId.lt_iff_number]; exact Nat.not_lt.mpr hindex)]
  apply Sync.fillUpSendQueue
  refine ⟨h.nodup, fun j full hfull => ?_, h.behind, fun j full hfull hlt => ?_,
    fun rec hrec full hfull heq => ?_, h.length⟩
  -- The new record is of the type of its queue. The others were there before.
  · rcases mem_update_insert hfull with ⟨hj, rfl⟩ | hold
    · exact ⟨hj.symm, hlimit⟩
    · exact h.typed j full hold
  -- The new record is not below the index.
  · rcases mem_update_insert hfull with ⟨rfl, rfl⟩ | hold
    · exact absurd hlt (Nat.not_lt.mpr hindex)
    · exact h.inFlight j full hold hlt
  · rcases mem_update_insert hfull with ⟨hj, rfl⟩ | hold
    · -- A record in flight is below the index.
      have hlt := h.behind rec hrec
      rw [hj, ← heq] at hlt
      exact absurd hlt (Nat.not_lt.mpr hindex)
    · exact h.same rec hrec full hold heq

/-- Fewer records. -/
theorem Sync.of_subset {r' : Resender} (h : Sync r) (hqueue : r'.sendQueue = r.sendQueue)
    (hindex : r'.sendQueueIndices = r.sendQueueIndices)
    (hfull : ∀ i, ∀ full ∈ (r'.fullSendQueue i).records, full ∈ (r.fullSendQueue i).records) :
    Sync r' := by
  constructor
  · rw [hqueue]
    exact h.nodup
  · exact fun i full hmem => h.typed i full (hfull i full hmem)
  · rw [hqueue, hindex]
    exact h.behind
  · rw [hqueue, hindex]
    exact fun i full hmem => h.inFlight i full (hfull i full hmem)
  · rw [hqueue]
    exact fun rec hrec full hmem => h.same rec hrec full (hfull _ full hmem)
  · rw [hqueue]
    exact h.length

/-- An acknowledgement takes a record from its full queue only. The send queue keeps its entry. -/
theorem Sync.ackPacket (h : Sync r) (now : Nat) (out : PartialPacketId) (i : ResendType)
    (pId : UInt16) : Sync (r.ackPacket now out i pId).1 := by
  rw [Resender.ackPacket]
  dsimp only
  cases hacked : (r.fullSendQueue i).records.head?.bind fun first =>
      (r.fullSendQueue i).get (Resender.ackedId first.part pId) with
  -- No record is acknowledged: nothing changes.
  | none => exact h
  | some rec =>
      rw [Option.map_some, Option.getD_some]
      refine h.of_subset ?_ ?_ fun j full hfull => ?_
      · rw [Resender.removeAcked]
        split <;> rfl
      · rw [Resender.removeAcked]
        split <;> rfl
      -- A record that is still there was there before.
      · rw [fullSendQueue_removeAcked] at hfull
        by_cases hj : j = i
        · subst hj
          rw [Function.update_self] at hfull
          exact (List.mem_filter.mp hfull).1
        · rw [Function.update_of_ne hj] at hfull
          exact hfull

/-! ### Polling -/

/-- The record on top stands at its place in the queue, and no other one is due before it. -/
theorem peek_some {top : Nat} {rec : SendRecordId} (h : r.peek top = some rec) :
    (∃ front back, r.sendQueue = front ++ rec :: back ∧ front.length = top) ∧
      ∀ other ∈ r.sendQueue, other.cmp rec ≠ .gt := by
  obtain ⟨hget, hall⟩ := Option.filter_eq_some_iff.mp h
  obtain ⟨htop, heq⟩ := List.getElem?_eq_some_iff.mp hget
  constructor
  · refine ⟨r.sendQueue.take top, r.sendQueue.drop (top + 1), ?_, ?_⟩
    · rw [← heq, List.getElem_cons_drop, List.take_append_drop]
    · rw [List.length_take, Nat.min_eq_left htop.le]
  · exact fun other hother => of_decide_eq_true (List.all_eq_true.mp hall other hother)

/-- An entry whose record is acknowledged is dropped from the send queue. -/
theorem Sync.erase (h : Sync r) {top : Nat} {rec : SendRecordId} (hpeek : r.peek top = some rec)
    (hget : (r.fullSendQueue rec.id.packetType).get rec.id.part = none) :
    Sync { r with sendQueue := r.sendQueue.eraseIdx top } := by
  obtain ⟨⟨front, back, hqueue, rfl⟩, -⟩ := peek_some hpeek
  have herase : r.sendQueue.eraseIdx front.length = front ++ back := by
    rw [hqueue, List.eraseIdx_append_of_length_le (Nat.le_refl _), Nat.sub_self,
      List.eraseIdx_cons_zero]
  have hsub : (front ++ back).Sublist r.sendQueue := by
    rw [hqueue]
    exact (List.Sublist.refl front).append (List.sublist_cons_self rec back)
  rw [herase]
  refine ⟨h.nodup.sublist (hsub.map _), h.typed,
    fun other hother => h.behind other (hsub.subset hother),
    fun i full hfull hlt => ?_, fun other hother => h.same other (hsub.subset hother),
    hsub.length_le.trans h.length⟩
  -- A record that waits for its acknowledgement is in the queue. It is not the dropped one.
  have hmem := h.inFlight i full hfull hlt
  rw [hqueue] at hmem
  cases List.mem_append.mp hmem with
  | inl hf => exact List.mem_append_left back hf
  | inr hb =>
      cases List.mem_cons.mp hb with
      | inr hb => exact List.mem_append_right front hb
      | inl heq =>
          -- The record was acknowledged.
          have htype := (h.typed i full hfull).1
          rw [← heq, htype] at hget
          have hnot := List.find?_eq_none.mp hget full hfull
          exact absurd (decide_eq_true rfl) hnot

/-- The records after a packet was sent. -/
theorem mem_markSent {now top : Nat} {rec : SendRecordId} {i : ResendType} {full : SendRecord}
    (h : full ∈ ((r.markSent now top rec).fullSendQueue i).records) :
    ∃ old ∈ (r.fullSendQueue i).records, full.part = old.part ∧
      full.id = if i = rec.id.packetType ∧ old.part = rec.id.part then ⟨now, rec.tries + 1, rec.id⟩
        else old.id := by
  have h' : full ∈ (Function.update r.fullSendQueue rec.id.packetType
      ((r.fullSendQueue rec.id.packetType).update ⟨now, rec.tries + 1, rec.id⟩) i).records := h
  by_cases hi : i = rec.id.packetType
  · subst hi
    rw [Function.update_self] at h'
    obtain ⟨old, hold, rfl⟩ := List.mem_map.mp h'
    refine ⟨old, hold, SendQueue.part_retime _ _, ?_⟩
    rw [SendQueue.retime, apply_ite SendRecord.id]
    simp only [true_and]
  · rw [Function.update_of_ne hi] at h'
    refine ⟨full, h', rfl, ?_⟩
    rw [if_neg fun hboth => hi hboth.1]

/-- The sent record gets its time and its tries, in the queue and in the heap at once. -/
theorem Sync.markSent (h : Sync r) {now top : Nat} {rec : SendRecordId}
    (hpeek : r.peek top = some rec) : Sync (r.markSent now top rec) := by
  obtain ⟨⟨front, back, hqueue, rfl⟩, -⟩ := peek_some hpeek
  have hset : (r.markSent now front.length rec).sendQueue =
      front ++ ⟨now, rec.tries + 1, rec.id⟩ :: back := by
    show r.sendQueue.set front.length _ = _
    rw [hqueue, List.set_append_right _ _ (Nat.le_refl _), Nat.sub_self, List.set_cons_zero]
  have hnodup := h.nodup
  rw [hqueue, List.map_append, List.map_cons] at hnodup
  have hrec : rec ∈ r.sendQueue := by
    rw [hqueue]
    exact List.mem_append_right front List.mem_cons_self
  -- Records of other packets stay as they are.
  have hstays : ∀ {other : SendRecordId}, other ∈ r.sendQueue → other ≠ rec →
      other ∈ front ++ ⟨now, rec.tries + 1, rec.id⟩ :: back := by
    intro other hother hne
    rw [hqueue] at hother
    cases List.mem_append.mp hother with
    | inl hf => exact List.mem_append_left _ hf
    | inr hb =>
        exact List.mem_append_right _
          (List.mem_cons_of_mem _ ((List.mem_cons.mp hb).resolve_left hne))
  -- An entry of the new queue is the sent one, or an old one with another id.
  have hcases : ∀ {other : SendRecordId}, other ∈ front ++ ⟨now, rec.tries + 1, rec.id⟩ :: back →
      other = ⟨now, rec.tries + 1, rec.id⟩ ∨ other ∈ r.sendQueue ∧ other.id ≠ rec.id := by
    intro other hother
    obtain ⟨-, hback, hcross⟩ := List.nodup_append.mp hnodup
    rw [hqueue]
    cases List.mem_append.mp hother with
    | inl hf =>
        exact .inr ⟨List.mem_append_left _ hf,
          hcross _ (List.mem_map_of_mem hf) _ List.mem_cons_self⟩
    | inr hb =>
        refine (List.mem_cons.mp hb).imp_right fun hb => ?_
        refine ⟨List.mem_append_right _ (List.mem_cons_of_mem _ hb), fun heq => ?_⟩
        exact (List.nodup_cons.mp hback).1 (heq ▸ List.mem_map_of_mem hb)
  -- The fields of the invariant in order: ids, types, index, in flight, same record, length.
  constructor
  · rw [hset, List.map_append, List.map_cons]
    exact hnodup
  · intro i full hfull
    obtain ⟨old, hold, hpart, hid⟩ := mem_markSent hfull
    obtain ⟨htype, hlimit⟩ := h.typed i old hold
    rw [hpart, hid]
    refine ⟨?_, hlimit⟩
    split
    · next hboth => exact hboth.1.symm
    · exact htype
  · rw [hset]
    intro other hother
    cases hcases hother with
    | inl heq =>
        rw [heq]
        exact h.behind rec hrec
    | inr hold => exact h.behind other hold.1
  -- The entry of a record below the index is rewritten with the record, or neither is.
  · intro i full hfull hlt
    obtain ⟨old, hold, hpart, hid⟩ := mem_markSent hfull
    rw [hset, hid]
    split
    · exact List.mem_append_right _ List.mem_cons_self
    · next hnot =>
        rw [hpart] at hlt
        refine hstays (h.inFlight i old hold hlt) fun heq => hnot ⟨?_, ?_⟩
        · rw [← heq]
          exact (h.typed i old hold).1.symm
        · rw [← heq]
          rfl
  -- Entry and record agree after the update: both are the sent one, or none is.
  · rw [hset]
    intro other hother full hfull heq
    obtain ⟨old, hold, hpart, hid⟩ := mem_markSent hfull
    rw [hpart] at heq
    cases hcases hother with
    | inl hsent =>
        subst hsent
        rw [hid, if_pos ⟨rfl, heq⟩]
    | inr hold' =>
        rw [hid, if_neg fun hboth => hold'.2 ?_]
        · exact h.same other hold'.1 old hold heq
        · cases hot : other.id
          cases hre : rec.id
          rw [heq] at hboth
          rw [hot, hre] at hboth
          cases hboth.1
          cases hboth.2
          rfl
  · have hlen := h.length
    rw [hset, List.length_append, List.length_cons]
    rw [hqueue, List.length_append, List.length_cons] at hlen
    exact hlen

/-- A loss changes the congestion control only. -/
theorem Sync.onLoss (h : Sync r) (now : Nat) : Sync (r.onLoss cc now) := by
  rw [Resender.onLoss, Resender.rebuildSendQueue]
  apply Sync.fillUpSendQueue
  refine ⟨.nil, h.typed, fun rec hrec => absurd hrec List.not_mem_nil, fun i full _ hlt => ?_,
    fun rec hrec => absurd hrec List.not_mem_nil, Nat.zero_le _⟩
  have hzero : PartialPacketId.number ⟨0, 0⟩ = 0 := by decide
  have hlt' : full.part.number < PartialPacketId.number ⟨0, 0⟩ := hlt
  omega

/-- One round of a poll keeps the queues in step. -/
theorem Sync.pollRound {r' : Resender} {round : Resender.Round} {polled : Resender.Polled}
    (h : Sync r) (hround : r.pollRound cc round = some polled) (hleft : left polled = some r') :
    Sync r' := by
  -- Acknowledged, sent for the first time, sent again, given up, or nothing due.
  cases pollRound_cases hround with
  | acked rec hpeek hget =>
      cases hleft
      exact (h.erase hpeek hget).fillUpSendQueue _
  | first rec fullRec hpeek =>
      cases hleft
      exact h.markSent hpeek
  | resend rec fullRec hpeek =>
      cases hleft
      exact (h.markSent hpeek).onLoss _
  | failed => cases hleft
  | _ =>
      cases hleft
      exact h

/-- All rounds of a poll keep the queues in step. -/
theorem Sync.pollResend {r' : Resender} {rounds : List Resender.Round} {sent : List OutUdpPacket}
    (h : Sync r) (hpoll : r.pollResend cc rounds = some (some r', sent)) : Sync r' := by
  induction rounds generalizing r sent with
  | nil => cases hpoll
  | cons round rounds ih =>
      rw [Resender.pollResend] at hpoll
      obtain ⟨polled, hround, hrest⟩ := Option.bind_eq_some_iff.mp hpoll
      cases polled with
      | done r₁ =>
          cases hrest
          exact h.pollRound hround rfl
      | failed => cases hrest
      | again r₁ packet =>
          obtain ⟨⟨r₂, sent₂⟩, hothers, heq⟩ := Option.map_eq_some_iff.mp hrest
          cases heq
          exact ih (h.pollRound hround rfl) hothers

/-- In a run in which ids go up, the send queue is in step with the full queues. -/
theorem sync_of_run (hrun : System.Run (Resender.system cc) Resender.Upward r) : Sync r := by
  induction hrun with
  | start h =>
      obtain ⟨now, rfl⟩ := h
      exact ⟨.nil, fun i full hfull => absurd hfull List.not_mem_nil,
        fun rec hrec => absurd hrec List.not_mem_nil,
        fun i full hfull => absurd hfull List.not_mem_nil,
        fun rec hrec => absurd hrec List.not_mem_nil, Nat.zero_le _⟩
  | step _ hok hnext ih =>
      rename_i e _
      cases e with
      | send now i packet =>
          cases hnext
          obtain ⟨hindex, hlimit⟩ := hok
          -- `Upward` says that the packet is not below the index, and that the ids do not run out.
          rw [PartialPacketId.lt_iff_number] at hindex
          exact ih.sendPacket (Nat.not_lt.mp hindex) hlimit
      | ack now out i pId =>
          cases hnext
          exact ih.ackPacket now out i pId
      | poll rounds =>
          obtain ⟨result, hpoll, hr⟩ := Option.bind_eq_some_iff.mp hnext
          obtain ⟨r₁, sent⟩ := result
          cases hr
          exact ih.pollResend hpoll
      | setState state =>
          cases hnext
          exact ih.congr rfl rfl rfl

/-- In every run the send queue has the packets below the index and no others that are not
acknowledged, each of them once and with the times of its record. At most 32767 are in flight. -/
theorem inFlight_iff (cc : CongestionControl) (r : Resender)
    (hrun : System.Run (Resender.system cc) Resender.Upward r) :
    (r.sendQueue.map SendRecordId.id).Nodup ∧ r.sendQueue.length ≤ 32767 ∧
      ∀ i, ∀ full ∈ (r.fullSendQueue i).records,
        (full.id ∈ r.sendQueue ↔ full.part.lt (r.sendQueueIndices i)) ∧
          ∀ rec ∈ r.sendQueue, rec.id = full.id.id → rec = full.id := by
  have hsync := sync_of_run hrun
  refine ⟨hsync.nodup, hsync.length, fun i full hfull => ?_⟩
  have htype := (hsync.typed i full hfull).1
  rw [PartialPacketId.lt_iff_number]
  refine ⟨⟨fun hmem => ?_, hsync.inFlight i full hfull⟩, fun rec hrec heq => ?_⟩
  · have hlt := hsync.behind full.id hmem
    rw [htype] at hlt
    exact hlt
  · refine (hsync.same rec hrec full ?_ ?_).symm
    · rw [heq, htype]
      exact hfull
    · rw [heq]
      rfl

namespace OnePacket

def window : CongestionControl := ⟨fun _ _ => 10, fun _ _ => by decide, fun _ _ => by decide⟩

def packet : OutUdpPacket := ⟨0, (OutPacket.newWithDir .c2s .empty .command).packetId 5⟩

/-- `Upward`, as it is checked. -/
def upward (r : Resender) : Resender.Event → Bool
  | .send _ i packet =>
    let id : PartialPacketId := ⟨packet.generationId, packet.data.udpPacketId⟩
    decide (¬id.lt (r.sendQueueIndices i)) && decide (id.number + 1 < 2 ^ 48)
  | _ => true

/-- The executable condition decides `Upward`. -/
theorem of_upward (r : Resender) (e : Resender.Event) (h : upward r e = true) :
    Resender.Upward r e := by
  cases e with
  | send now i packet =>
      obtain ⟨hindex, hlimit⟩ := Bool.and_eq_true_iff.mp h
      exact ⟨of_decide_eq_true hindex, of_decide_eq_true hlimit⟩
  | _ => trivial

def rounds : List Resender.Round := [⟨1, 0, false, .sent⟩, ⟨2, 0, false, .sent⟩]

/-- The packet is in flight, and a poll sends it. -/
theorem exists_run : ∃ r r' sent, System.Run (Resender.system window) Resender.Upward r ∧
    r.sendQueue = [⟨0, 0, .command, 0, 5⟩] ∧
      r.pollResend window rounds = some (some r', sent) ∧
        r'.sendQueue = [⟨1, 1, .command, 0, 5⟩] := by
  obtain ⟨r, hrun, hr⟩ := System.Run.exists_of_exec (Resender.system window) Resender.Upward upward
    [.send 0 .command packet]
    (fun r => (r.pollResend window rounds).bind fun result => result.1.map fun r' =>
      (r.sendQueue, r'.sendQueue)) of_upward (.start ⟨0, rfl⟩)
    (by decide +kernel : _ = some (some ([⟨0, 0, .command, 0, 5⟩], [⟨1, 1, .command, 0, 5⟩])))
  obtain ⟨⟨polled, sent⟩, hpoll, hresult⟩ := Option.bind_eq_some_iff.mp hr
  obtain ⟨r', hr', heq⟩ := Option.map_eq_some_iff.mp hresult
  obtain ⟨hqueue, hqueue'⟩ := Prod.mk.inj heq
  have hpolled : polled = some r' := hr'
  exact ⟨r, r', sent, hrun, hqueue, hpolled ▸ hpoll, hqueue'⟩

end OnePacket

/-- One packet that is queued is in flight. -/
theorem inFlight_iff_onePacket : ∃ r : Resender, r.sendQueue = [⟨0, 0, .command, 0, 5⟩] ∧
    ∀ i, ∀ full ∈ (r.fullSendQueue i).records,
      (full.id ∈ r.sendQueue ↔ full.part.lt (r.sendQueueIndices i)) := by
  obtain ⟨r, -, -, hrun, hqueue, -⟩ := OnePacket.exists_run
  exact ⟨r, hqueue, fun i full hfull =>
    ((inFlight_iff OnePacket.window r hrun).2.2 i full hfull).1⟩

end Nek0.Proofs.Protocol.Resender
