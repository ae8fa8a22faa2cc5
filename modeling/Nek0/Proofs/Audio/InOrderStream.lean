import Nek0.Proofs.Audio.Mixing
import Nek0.Proofs.Audio.RingTracking

/-!
# `Nek0.Proofs.Audio.InOrderStream`: when an in-order stream is played completely

One client's packets arrive in order, one per play slot, each before its slot is mixed. The
callback then plays packet `k` at slot `nowSlot + 6 + k`, for every packet, exactly for these
streams: at most 32768 packets, the first number neither 0 nor 32768, and a start slot whose
`base_slot` fits in 32 bits.

* Number 0 leaves `base_seq` at 0, which the reader takes for a buffer that is not in use.
* Number 32768 is at distance 32768 from 0, which `unwrapSeq` sends to `2 ^ 32 - 32768`.
* Packet 32768 of any stream is at distance 32768 from its base, and the sanity check drops it.
-/

set_option autoImplicit false

namespace Nek0.Proofs.Audio

open Nek0.Audio
open Nek0.Audio.Playback (system InOrder PlayedInOrder Starts)
open Nek0.Lib.System (Run)
open Nek0.Native (Instant)

variable {Frame : Type} {st : Stream Frame} {nowSlot n : Nat}

/-- The sequence number of packet `k`, as the truncation of its distance from 0. -/
theorem firstSeq_add (st : Stream Frame) (k : Nat) :
    st.firstSeq + UInt16.ofNat k = UInt16.ofNat (st.firstSeq.toNat + k) := by
  apply UInt16.toNat_inj.mp
  rw [UInt16.toNat_add, UInt16.toNat_ofNat', UInt16.toNat_ofNat']
  omega

/-- The streams that are played completely. -/
structure InRange (st : Stream Frame) (nowSlot n : Nat) : Prop where
  first_ne_zero : st.firstSeq ≠ 0
  first_ne_half : st.firstSeq ≠ 32768
  length_le : n ≤ 32768
  slot_lt : nowSlot + 6 < 2 ^ 32

/-! ### In range, every packet is played in its slot -/

/-- What holds along an in-order stream in range. -/
private structure OnTime (st : Stream Frame) (nowSlot n : Nat) (p : Playback Frame) : Prop where
  sent_le : p.sent ≤ n
  unsent : p.sent = 0 → p.buffer st = none
  tracks : 0 < p.sent → ∃ buf, p.buffer st = some buf ∧
    Tracks st.firstSeq.toNat st.frames 0 (nowSlot + 6) p.sent p.nextSlot buf
  played : PlayedInOrder st nowSlot n p

/-- The next packet joins the ring. -/
private theorem onTime_packet (hcase : n = 0 ∨ InRange st nowSlot n) {p : Playback Frame}
    (h : OnTime st nowSlot n p) {played : UInt64} {now : Instant}
    (hok : InOrder st nowSlot n p (.packet played now)) :
    OnTime st nowSlot n (p.packet st played now) := by
  obtain ⟨hsent, hslot, hearly, hlate⟩ := hok
  have hrange := hcase.resolve_left (by omega)
  have hlow := hrange.slot_lt
  have hlen := hrange.length_le
  have h6 : targetDelay.toNat = 6 := rfl
  refine ⟨hsent, fun h0 => absurd h0 (Nat.succ_ne_zero _), fun _ => ?_, h.played⟩
  refine ⟨_, packet_buffer played now, ?_⟩
  rw [firstSeq_add]
  rcases Nat.eq_zero_or_pos p.sent with h0 | hpos
  · -- The first packet fixes the mapping.
    have hne0 : 0 < st.firstSeq.toNat :=
      Nat.pos_of_ne_zero fun h0 => hrange.first_ne_zero (UInt16.toNat_inj.mp h0)
    have hnehalf : st.firstSeq.toNat ≠ 32768 :=
      fun h0 => hrange.first_ne_half (UInt16.toNat_inj.mp h0)
    have hfirst := tracks_first st.frames hne0 hnehalf st.firstSeq.toNat_lt
      (p.audio.inheritedGain st.client) (played / frameSize) now (p := p.nextSlot) (by omega)
      (by omega)
    rw [hslot, h0, Nat.add_zero] at hfirst
    rw [h.unsent h0, h0, Nat.add_zero]
    show Tracks _ _ _ _ (p.sent + 1) _ _
    rw [h0]
    exact hfirst
  · obtain ⟨buf, hbuf, htracks⟩ := h.tracks hpos
    rw [hbuf]
    exact tracks_accept htracks (by omega) (played / frameSize) now (by omega) (by omega) (by omega)

/-- A slot with a frame adds it to what was played. -/
private theorem playedInOrder_present {p p' : Playback Frame} (h : PlayedInOrder st nowSlot n p)
    (hbase : nowSlot + 6 ≤ p.nextSlot) (hlt : p.nextSlot - (nowSlot + 6) < n)
    (hnext : p'.nextSlot = p.nextSlot + 1)
    (htaken : p'.taken
      = p.taken ++ [(p.nextSlot, st.frames (p.nextSlot - (nowSlot + 6)))]) :
    PlayedInOrder st nowSlot n p' := by
  have h6 : targetDelay.toNat = 6 := rfl
  unfold PlayedInOrder at h ⊢
  rw [h6] at h ⊢
  have hmin : min n (p'.nextSlot - (nowSlot + 6)) = p.nextSlot - (nowSlot + 6) + 1 := by omega
  have hmin' : min n (p.nextSlot - (nowSlot + 6)) = p.nextSlot - (nowSlot + 6) := by omega
  rw [htaken, h, hmin, hmin', List.range_succ, List.map_append, List.map_singleton,
    Nat.add_sub_cancel' hbase]

/-- A slot without a frame, before the first one or after the last. -/
private theorem playedInOrder_absent {p p' : Playback Frame} (h : PlayedInOrder st nowSlot n p)
    (hout : p.nextSlot < nowSlot + 6 ∨ n ≤ p.nextSlot - (nowSlot + 6))
    (hnext : p'.nextSlot = p.nextSlot + 1) (htaken : p'.taken = p.taken) :
    PlayedInOrder st nowSlot n p' := by
  have h6 : targetDelay.toNat = 6 := rfl
  unfold PlayedInOrder at h ⊢
  rw [h6] at h ⊢
  have hmin : min n (p'.nextSlot - (nowSlot + 6)) = min n (p.nextSlot - (nowSlot + 6)) := by omega
  rw [htaken, h, hmin]

/-- The next slot takes the frame that belongs to it. -/
private theorem onTime_mix {p : Playback Frame} (h : OnTime st nowSlot n p) {ids : List UInt16}
    (hok : InOrder st nowSlot n p (.mix ids)) : OnTime st nowSlot n (p.mix st ids) := by
  obtain ⟨hid, hnodup, hcount, hdecoded⟩ := hok
  have h6 : targetDelay.toNat = 6 := rfl
  have h960 : frameSize.toNat = 960 := rfl
  rw [h960] at hcount
  have hslot : (UInt64.ofNat p.nextSlot).toNat = p.nextSlot :=
    UInt64.toNat_ofNat_of_lt' (by rw [UInt64.size]; omega)
  have hbuffer := mix_buffer (p := p) hid hnodup
  have htaken := mix_taken (p := p) hid hnodup
  have hsent := h.sent_le
  rcases Nat.eq_zero_or_pos p.sent with h0 | hpos
  · have hnone := h.unsent h0
    rw [hnone] at hbuffer htaken
    refine ⟨hsent, fun _ => hbuffer, fun hp => absurd hp (by show ¬ 0 < p.sent; omega), ?_⟩
    exact playedInOrder_absent h.played (by omega) rfl (by rw [htaken]; exact List.append_nil _)
  · obtain ⟨buf, hbuf, htracks⟩ := h.tracks hpos
    rw [hbuf] at hbuffer htaken
    simp only [Option.map_some, Option.bind_some] at hbuffer htaken
    by_cases hin : nowSlot + 6 ≤ p.nextSlot ∧ p.nextSlot - (nowSlot + 6) < p.sent
    · obtain ⟨hframe, htracks'⟩ := takeFrame_present htracks hslot hin.1 (by omega)
      rw [hframe, Nat.zero_add] at htaken
      refine ⟨hsent, fun h0 => absurd h0 (Nat.ne_of_gt hpos), fun _ => ⟨_, hbuffer, htracks'⟩, ?_⟩
      exact playedInOrder_present h.played hin.1 (by omega) rfl htaken
    · obtain ⟨hframe, htracks'⟩ := takeFrame_absent htracks hslot (by omega) (by omega)
      rw [hframe] at hbuffer htaken
      refine ⟨hsent, fun h0 => absurd h0 (Nat.ne_of_gt hpos), fun _ => ⟨_, hbuffer, htracks'⟩, ?_⟩
      exact playedInOrder_absent h.played (by omega) rfl
        (by rw [htaken]; exact List.append_nil _)

/-- Every state of an in-order stream in range is on time. -/
private theorem onTime_of_run (hcase : n = 0 ∨ InRange st nowSlot n) {p : Playback Frame}
    (hrun : Run (system st nowSlot) (InOrder st nowSlot n) p) : OnTime st nowSlot n p := by
  refine hrun.invariant ?_ ?_
  · intro p hstart
    refine ⟨by rw [hstart.sent_eq]; exact Nat.zero_le _, fun _ => hstart.noBuffer,
      fun hpos => absurd hpos (by rw [hstart.sent_eq]; exact Nat.lt_irrefl _), ?_⟩
    unfold PlayedInOrder
    rw [hstart.taken_eq, hstart.nextSlot_eq, Nat.sub_eq_zero_of_le (Nat.le_add_right _ _),
      Nat.min_zero]
    rfl
  · intro p p' e h hok hnext
    obtain rfl : p.next st e = p' := Option.some.inj hnext
    cases e with
    | packet played now => exact onTime_packet hcase h hok
    | otherPacket client seq played now decoded =>
        have hbuf := otherPacket_buffer (p := p) hok seq played now decoded
        exact ⟨h.sent_le, fun h0 => hbuf.trans (h.unsent h0), fun hpos => by
          obtain ⟨buf, hb, ht⟩ := h.tracks hpos
          exact ⟨buf, hbuf.trans hb, ht⟩, h.played⟩
    | mix ids => exact onTime_mix h hok

/-! ### Out of range, a packet is missed -/

/-- The frames taken so far were taken from slots already mixed. -/
private theorem taken_lt_nextSlot {p : Playback Frame}
    (hrun : Run (system st nowSlot) (InOrder st nowSlot n) p) :
    ∀ x ∈ p.taken, x.1 < p.nextSlot := by
  refine hrun.invariant (P := fun p => ∀ x ∈ p.taken, x.1 < p.nextSlot) ?_ ?_
  · intro p hstart x hx
    rw [hstart.taken_eq] at hx
    exact absurd hx List.not_mem_nil
  · intro p p' e h hok hnext
    obtain rfl : p.next st e = p' := Option.some.inj hnext
    cases e with
    | packet played now => exact h
    | otherPacket client seq played now decoded => exact h
    | mix ids =>
        intro x hx
        show x.1 < p.nextSlot + 1
        rcases List.mem_append.mp hx with hold | hnew
        · exact Nat.lt_succ_of_lt (h x hold)
        · obtain ⟨y, -, rfl⟩ := List.mem_map.mp hnew
          exact Nat.lt_succ_self _

/-- The reader finds nothing at `slot`, whatever the ring holds. -/
private def Misses (slot : UInt64) (buf : ClientJitterBuffer Frame) : Prop :=
  buf.baseSeq = 0 ∨ buf.writeSeq.toUInt64 < slot - buf.baseSlot + buf.baseSeq.toUInt64

/-- A slot that misses gives no frame. -/
private theorem takeFrame_of_misses {slot : UInt64} {buf : ClientJitterBuffer Frame}
    (h : Misses slot buf) : (buf.takeFrame slot).2 = none := by
  unfold ClientJitterBuffer.takeFrame
  split
  · rfl
  · rename_i hne
    rw [if_neg (UInt64.not_le.mpr (h.resolve_left hne))]

/-- Taking a frame keeps the base and the last accepted number. -/
private theorem misses_takeFrame {slot : UInt64} {buf : ClientJitterBuffer Frame}
    (h : Misses slot buf) (slot' : UInt64) : Misses slot (buf.takeFrame slot').1 := by
  have hkeep : (buf.takeFrame slot').1.basePair = buf.basePair ∧
      (buf.takeFrame slot').1.writeSeq = buf.writeSeq := by
    simp only [ClientJitterBuffer.takeFrame]
    split
    · exact ⟨rfl, rfl⟩
    · split
      · split <;> exact ⟨rfl, rfl⟩
      · exact ⟨rfl, rfl⟩
  unfold Misses ClientJitterBuffer.baseSeq ClientJitterBuffer.baseSlot at h ⊢
  rw [hkeep.1, hkeep.2]
  exact h

/-- Slots up to a little over `2 ^ 54` have a sample count below `2 ^ 64`. -/
private theorem mul_frameSize_lt {slot : Nat} (h : slot < 2 ^ 54 + 2 ^ 20) :
    slot * 960 < 2 ^ 64 := by
  omega

/-- The callback mixes the next slot for this client alone. -/
private theorem run_mix {p : Playback Frame}
    (hrun : Run (system st nowSlot) (InOrder st nowSlot n) p)
    (hcount : p.nextSlot < 2 ^ 54 + 2 ^ 20)
    (hdecoded : p.nextSlot < nowSlot + 6 + p.sent) :
    Run (system st nowSlot) (InOrder st nowSlot n) (p.mix st [st.client]) :=
  hrun.step (i := .mix [st.client])
    ⟨List.mem_singleton_self _, List.nodup_singleton _, mul_frameSize_lt hcount, .inr hdecoded⟩ rfl

/-- What that slot does to the buffer. -/
private theorem run_mix_buffer {p : Playback Frame} {buf : ClientJitterBuffer Frame}
    (hbuf : p.buffer st = some buf) :
    (p.mix st [st.client]).buffer st
      = some (buf.takeFrame (UInt64.ofNat p.nextSlot)).1 := by
  rw [mix_buffer (List.mem_singleton_self _) (List.nodup_singleton _), hbuf, Option.map_some]

/-- Slots are mixed up to the slot of packet `k`, which keeps its miss. -/
private theorem mix_to_slot {k : Nat} (hcount : nowSlot + k + 6 < 2 ^ 54 + 2 ^ 20) {slot : UInt64}
    {p : Playback Frame} (hrun : Run (system st nowSlot) (InOrder st nowSlot n) p)
    (hsent : p.sent = k + 1) (hnext : p.nextSlot = nowSlot + k)
    (hmiss : ∃ buf, p.buffer st = some buf ∧ Misses slot buf) (j : Nat) (hj : j ≤ 6) :
    ∃ p' : Playback Frame, Run (system st nowSlot) (InOrder st nowSlot n) p' ∧
      p'.sent = k + 1 ∧ p'.nextSlot = nowSlot + k + j ∧
      ∃ buf, p'.buffer st = some buf ∧ Misses slot buf := by
  induction j with
  | zero => exact ⟨p, hrun, hsent, hnext, hmiss⟩
  | succ j ih =>
      obtain ⟨q, hq, hqsent, hqnext, buf, hbuf, hqmiss⟩ := ih (by omega)
      refine ⟨q.mix st [st.client], run_mix hq (by omega) (by omega), hqsent, ?_, _,
        run_mix_buffer hbuf, misses_takeFrame hqmiss (UInt64.ofNat q.nextSlot)⟩
      show q.nextSlot + 1 = _
      omega

/-- A packet that the reader misses breaks the playback. -/
private theorem not_played_of_misses {k : Nat} (hcount : nowSlot + k + 6 < 2 ^ 54 + 2 ^ 20)
    (hk : k < n) {p : Playback Frame}
    (hrun : Run (system st nowSlot) (InOrder st nowSlot n) p) (hsent : p.sent = k + 1)
    (hnext : p.nextSlot = nowSlot + k)
    (hmiss : ∃ buf, p.buffer st = some buf ∧ Misses (UInt64.ofNat (nowSlot + k + 6)) buf) :
    ∃ p' : Playback Frame, Run (system st nowSlot) (InOrder st nowSlot n) p' ∧
      ¬ PlayedInOrder st nowSlot n p' := by
  obtain ⟨q, hq, hqsent, hqnext, buf, hbuf, hqmiss⟩ :=
    mix_to_slot hcount hrun hsent hnext hmiss 6 (Nat.le_refl _)
  have h6 : targetDelay.toNat = 6 := rfl
  refine ⟨q.mix st [st.client], run_mix hq (by omega) (by omega), ?_⟩
  intro hplayed
  have htaken : (q.mix st [st.client]).taken = _ :=
    mix_taken (List.mem_singleton_self _) (List.nodup_singleton _)
  rw [hbuf, hqnext, Option.bind_some, takeFrame_of_misses hqmiss] at htaken
  -- Packet `k` belongs to the slot just mixed, and only earlier slots gave frames.
  have hin : (nowSlot + 6 + k, st.frames k) ∈ (q.mix st [st.client]).taken := by
    rw [hplayed]
    refine List.mem_map.mpr ⟨k, List.mem_range.mpr ?_, rfl⟩
    show k < min n (q.nextSlot + 1 - _)
    omega
  rw [htaken, Option.map_none, Option.toList_none, List.append_nil] at hin
  have hlt := taken_lt_nextSlot hq _ hin
  simp only [hqnext] at hlt
  omega

/-- The next packet is decoded in its own slot. -/
private theorem run_packet {p : Playback Frame}
    (hrun : Run (system st nowSlot) (InOrder st nowSlot n) p) (hsent : p.sent < n)
    (hcount : nowSlot + p.sent < 2 ^ 54 + 2 ^ 20) (hnext : p.nextSlot = nowSlot + p.sent) :
    ∃ played : UInt64, (played / frameSize).toNat = nowSlot + p.sent ∧
      Run (system st nowSlot) (InOrder st nowSlot n) (p.packet st played 0) := by
  have hslot : (UInt64.ofNat ((nowSlot + p.sent) * 960) / frameSize).toNat = nowSlot + p.sent := by
    rw [UInt64.toNat_div, UInt64.toNat_ofNat_of_lt' (mul_frameSize_lt hcount),
      show frameSize.toNat = 960 from rfl]
    exact Nat.mul_div_cancel _ (by decide)
  have h6 : targetDelay.toNat = 6 := rfl
  exact ⟨_, hslot, hrun.step (i := .packet _ 0)
    ⟨hsent, hslot, Nat.le_of_eq hnext.symm, by omega⟩ rfl⟩

/-- The first packet, decoded in its own slot. -/
private theorem run_first (st : Stream Frame) (nowSlot : Nat) (hcount : nowSlot < 2 ^ 54 + 2 ^ 20)
    (hn : 0 < n) :
    ∃ p : Playback Frame, Run (system st nowSlot) (InOrder st nowSlot n) p ∧ p.sent = 1 ∧
      p.nextSlot = nowSlot ∧ ∃ (volume : Gain) (t : UInt64) (now : Instant), t.toNat = nowSlot ∧
        p.buffer st
          = some ((ClientJitterBuffer.new volume).accept t now st.firstSeq (st.frames 0)) := by
  let p : Playback Frame :=
    { audio :=
        { clientBuffers := fun _ => none
          playedSamples := 0
          activeClientIds := []
          clients := []
          clientVolumes := fun _ => none }
      sent := 0
      nextSlot := nowSlot
      taken := [] }
  have hstart : Starts st nowSlot p := ⟨rfl, rfl, rfl, rfl⟩
  obtain ⟨played, hslot, hrun⟩ := run_packet (Run.start hstart) hn hcount rfl
  refine ⟨_, hrun, rfl, rfl, .unity, _, 0, hslot, ?_⟩
  rw [packet_buffer]
  show some (ClientJitterBuffer.accept _ _ _ (st.firstSeq + UInt16.ofNat 0) _) = _
  rw [show UInt16.ofNat 0 = 0 from rfl, UInt16.add_zero]
  rfl

/-- Which first packets the reader misses: number 0, number 32768, and any at a slot whose
`base_slot` does not fit in 32 bits. -/
private theorem misses_first {t : UInt64} (ht : t.toNat = nowSlot) (hlt : nowSlot + 6 < 2 ^ 64)
    (hbad : st.firstSeq = 0 ∨ st.firstSeq = 32768 ∨ 2 ^ 32 ≤ nowSlot + 6) (volume : Gain)
    (now : Instant) :
    Misses (UInt64.ofNat (nowSlot + 0 + 6))
      ((ClientJitterBuffer.new volume).accept t now st.firstSeq (st.frames 0)) := by
  set buf := (ClientJitterBuffer.new volume).accept t now st.firstSeq (st.frames 0) with hbuf
  have hpair : buf.basePair = packBase (unwrapSeq st.firstSeq 0) (t + targetDelay) := rfl
  have hwrite : buf.writeSeq = unwrapSeq st.firstSeq buf.baseSeq.toUInt16 := rfl
  have hslot : (t + targetDelay).toNat = nowSlot + 6 := by
    rw [UInt64.toNat_add, show targetDelay.toNat = 6 from rfl]
    omega
  have hslot' : (UInt64.ofNat (nowSlot + 0 + 6)).toNat = nowSlot + 6 :=
    UInt64.toNat_ofNat_of_lt' (by rw [UInt64.size]; omega)
  by_cases hhigh : 2 ^ 32 ≤ nowSlot + 6
  · -- The reader's number has a part above 32 bits.
    right
    have hb : buf.baseSlot.toNat = (nowSlot + 6) % 2 ^ 32 := by
      rw [baseSlot_toNat, hpair, packBase_toNat, Nat.or_mod_two_pow, hslot, Nat.mul_mod_left,
        Nat.zero_or]
    have hs := buf.baseSeq.toNat_lt
    have hw := buf.writeSeq.toNat_lt
    rw [UInt64.lt_iff_toNat_lt, UInt64.toNat_add, UInt64.toNat_sub, UInt32.toNat_toUInt64,
      UInt32.toNat_toUInt64, hb, hslot']
    omega
  -- The slot fits, so both halves of the pair are read back.
  · have hseq : buf.baseSeq.toNat = (unwrapSeq st.firstSeq 0).toNat :=
      baseSeq_packBase hpair (by omega)
    have hb : buf.baseSlot.toNat = nowSlot + 6 := by rw [baseSlot_packBase hpair (by omega), hslot]
    -- A baseline of 0 stands for no baseline.
    rcases hbad with h0 | hhalf | habs
    · left
      apply UInt32.toNat_inj.mp
      rw [hseq, h0]
      rfl
    -- Half a round ahead the baseline is counted from below 0, and the last number is not.
    · right
      rw [hhalf] at hseq hwrite
      have hbase : buf.baseSeq.toNat = 2 ^ 32 - 32768 := hseq
      have hwriteSeq : buf.writeSeq.toNat = 32768 := by
        have h16 : buf.baseSeq.toUInt16 = 32768 := by
          apply UInt16.toNat_inj.mp
          rw [UInt32.toNat_toUInt16, hbase]
          rfl
        rw [hwrite, h16]
        rfl
      rw [UInt64.lt_iff_toNat_lt, UInt64.toNat_add, UInt64.toNat_sub, UInt32.toNat_toUInt64,
        UInt32.toNat_toUInt64, hb, hslot', hbase, hwriteSeq]
      omega
    · exact absurd habs hhigh

/-- The next slot is mixed, and the ring still follows the stream. -/
private theorem run_mix_tracks {p : Playback Frame} {buf : ClientJitterBuffer Frame} {m : Nat}
    (hrun : Run (system st nowSlot) (InOrder st nowSlot n) p) (hcount : p.nextSlot < 2 ^ 33)
    (hdecoded : p.nextSlot < nowSlot + 6 + p.sent) (hbuf : p.buffer st = some buf)
    (htracks : Tracks st.firstSeq.toNat st.frames 0 (nowSlot + 6) m p.nextSlot buf) :
    ∃ buf', Run (system st nowSlot) (InOrder st nowSlot n) (p.mix st [st.client]) ∧
      (p.mix st [st.client]).buffer st = some buf' ∧
      Tracks st.firstSeq.toNat st.frames 0 (nowSlot + 6) m (p.nextSlot + 1) buf' := by
  refine ⟨_, run_mix hrun (by omega) hdecoded, run_mix_buffer hbuf, ?_⟩
  have hslot : (UInt64.ofNat p.nextSlot).toNat = p.nextSlot :=
    UInt64.toNat_ofNat_of_lt' (by rw [UInt64.size]; omega)
  by_cases hin : nowSlot + 6 ≤ p.nextSlot ∧ p.nextSlot - (nowSlot + 6) < m - 0
  · exact (takeFrame_present htracks hslot hin.1 hin.2).2
  · obtain ⟨hframe, htracks'⟩ := takeFrame_absent htracks hslot (by omega) (by omega)
    rw [hframe]
    exact htracks'

/-- One packet and one mixed slot in turn, as long as the half-range lasts. -/
private theorem run_alternating (h0 : st.firstSeq ≠ 0) (hhalf : st.firstSeq ≠ 32768)
    (hslot : nowSlot + 6 < 2 ^ 32) (k : Nat) (hk : k < 32768) (hkn : k < n) :
    ∃ p : Playback Frame, Run (system st nowSlot) (InOrder st nowSlot n) p ∧ p.sent = k + 1 ∧
      p.nextSlot = nowSlot + k ∧ ∃ buf, p.buffer st = some buf ∧
        Tracks st.firstSeq.toNat st.frames 0 (nowSlot + 6) (k + 1) p.nextSlot buf := by
  induction k with
  | zero =>
      obtain ⟨p, hp, hsent, hnext, volume, t, now, ht, hbuf⟩ :=
        run_first st nowSlot (by omega) hkn
      have hfirst := tracks_first st.frames (p := p.nextSlot)
        (Nat.pos_of_ne_zero fun h => h0 (UInt16.toNat_inj.mp h))
        (fun h => hhalf (UInt16.toNat_inj.mp h)) st.firstSeq.toNat_lt volume t now (by omega)
        (by omega)
      rw [ht, UInt16.ofNat_toNat] at hfirst
      exact ⟨p, hp, hsent, hnext, _, hbuf, hfirst⟩
  | succ k ih =>
      obtain ⟨p, hp, hsent, hnext, buf, hbuf, htracks⟩ := ih (by omega) (by omega)
      obtain ⟨buf', hq, hbuf', htracks'⟩ := run_mix_tracks hp (by omega) (by omega) hbuf htracks
      have hqsent : (p.mix st [st.client]).sent = k + 1 := hsent
      have hqnext : (p.mix st [st.client]).nextSlot = nowSlot + (k + 1) := by
        show p.nextSlot + 1 = _
        omega
      obtain ⟨played, ht, hr⟩ := run_packet hq (by omega) (by omega) (by omega)
      rw [hqsent] at ht
      refine ⟨_, hr, by show p.sent + 1 = _; omega, hqnext, _, packet_buffer played 0, ?_⟩
      rw [firstSeq_add, hqsent, hbuf']
      exact tracks_accept htracks' (by omega) (played / frameSize) 0 (by omega) (by omega)
        (by omega)

/-- Packet 32768 is dropped, and the reader misses it. -/
private theorem run_half (h0 : st.firstSeq ≠ 0) (hhalf : st.firstSeq ≠ 32768)
    (hslot : nowSlot + 6 < 2 ^ 32) (hn : 32768 < n) :
    ∃ p : Playback Frame, Run (system st nowSlot) (InOrder st nowSlot n) p ∧
      p.sent = 32768 + 1 ∧ p.nextSlot = nowSlot + 32768 ∧
      ∃ buf, p.buffer st = some buf ∧ Misses (UInt64.ofNat (nowSlot + 32768 + 6)) buf := by
  obtain ⟨p, hp, hsent, hnext, buf, hbuf, htracks⟩ :=
    run_alternating (n := n) h0 hhalf hslot 32767 (by omega) (by omega)
  obtain ⟨buf', hq, hbuf', htracks'⟩ := run_mix_tracks hp (by omega) (by omega) hbuf htracks
  have hqsent : (p.mix st [st.client]).sent = 32768 := hsent
  have hqnext : (p.mix st [st.client]).nextSlot = nowSlot + 32768 := by
    show p.nextSlot + 1 = _
    omega
  obtain ⟨played, ht, hr⟩ := run_packet hq (by omega) (by omega) (by omega)
  refine ⟨_, hr, by show (p.mix st [st.client]).sent + 1 = _; rw [hqsent], hqnext, buf', ?_, ?_⟩
  · rw [packet_buffer, firstSeq_add, hqsent, hbuf']
    exact congrArg some (accept_half htracks' (by omega) (played / frameSize) 0)
  · right
    have hexp : (UInt64.ofNat (nowSlot + 32768 + 6)).toNat = nowSlot + 32768 + 6 :=
      UInt64.toNat_ofNat_of_lt' (by rw [UInt64.size]; omega)
    have hseq := htracks'.baseSeq_eq
    have hb := htracks'.baseSlot_eq
    have hw := htracks'.writeSeq_eq
    have hlt := st.firstSeq.toNat_lt
    rw [UInt64.lt_iff_toNat_lt, UInt64.toNat_add, UInt64.toNat_sub, UInt32.toNat_toUInt64,
      UInt32.toNat_toUInt64, hb, hseq, hexp]
    omega

/-! ### The exact condition -/

/-- Outside the condition some run misses a packet. -/
private theorem exists_not_played (st : Stream Frame) (hcounter : nowSlot < 2 ^ 54) (hn : 0 < n)
    (hout : ¬ InRange st nowSlot n) :
    ∃ p : Playback Frame, Run (system st nowSlot) (InOrder st nowSlot n) p ∧
      ¬ PlayedInOrder st nowSlot n p := by
  by_cases hfirst : st.firstSeq = 0 ∨ st.firstSeq = 32768 ∨ 2 ^ 32 ≤ nowSlot + 6
  · obtain ⟨p, hp, hsent, hnext, volume, t, now, ht, hbuf⟩ :=
      run_first st nowSlot (by omega) hn
    exact not_played_of_misses (k := 0) (by omega) hn hp hsent hnext
      ⟨_, hbuf, misses_first ht (by omega) hfirst volume now⟩
  · rw [not_or, not_or, Nat.not_le] at hfirst
    obtain ⟨h0, hhalf, hslot⟩ := hfirst
    have hlong : 32768 < n := Nat.lt_of_not_le fun hle => hout ⟨h0, hhalf, hle, hslot⟩
    obtain ⟨p, hp, hsent, hnext, hmiss⟩ := run_half h0 hhalf hslot hlong
    exact not_played_of_misses (k := 32768) (by omega) hlong hp hsent hnext hmiss

/-- An in-order stream is played completely, whatever the interleaving with the callback, exactly
when it is empty or in range. -/
theorem inOrder_played_iff (st : Stream Frame) (nowSlot n : Nat) (hcounter : nowSlot < 2 ^ 54) :
    (∀ p : Playback Frame, Run (system st nowSlot) (InOrder st nowSlot n) p →
      PlayedInOrder st nowSlot n p) ↔ n = 0 ∨ InRange st nowSlot n := by
  constructor
  · intro hall
    rcases Nat.eq_zero_or_pos n with h0 | hpos
    · exact .inl h0
    · right
      by_contra hout
      obtain ⟨p, hrun, hnot⟩ := exists_not_played st hcounter hpos hout
      exact hnot (hall p hrun)
  · intro hcase p hrun
    exact (onTime_of_run hcase hrun).played

/-- Three packets from number 1, and three packets from number 0. -/
theorem inOrder_played_iff_three :
    ((∀ p : Playback Nat, Run (system ⟨7, 1, id⟩ 100) (InOrder ⟨7, 1, id⟩ 100 3) p →
        PlayedInOrder ⟨7, 1, id⟩ 100 3 p) ↔ 3 = 0 ∨ InRange (⟨7, 1, id⟩ : Stream Nat) 100 3) :=
  inOrder_played_iff ⟨7, 1, id⟩ 100 3 (by decide)

/-- One packet with number 0 is never played. -/
theorem inOrder_zero_not_played :
    ¬ ∀ p : Playback Nat, Run (system ⟨7, 0, id⟩ 100) (InOrder ⟨7, 0, id⟩ 100 1) p →
      PlayedInOrder ⟨7, 0, id⟩ 100 1 p := by
  intro hall
  obtain ⟨p, hrun, hnot⟩ := exists_not_played (⟨7, 0, id⟩ : Stream Nat) (n := 1)
    (by decide : 100 < 2 ^ 54) (by decide) fun hrange => hrange.first_ne_zero rfl
  exact hnot (hall p hrun)

end Nek0.Proofs.Audio
