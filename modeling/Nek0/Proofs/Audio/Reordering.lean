import Nek0.Proofs.Audio.SlotMapping

/-!
# `Nek0.Proofs.Audio.Reordering`: a newer frame after a late packet

The reader takes a frame only up to `write_seq`, and every accepted packet stores its own number
there, also a smaller one. When its play slot is mixed, a frame in the ring is taken exactly if the
client is in the snapshot, the base is not number 0, and the last accepted packet is not older than
the frame (`taken_iff`).
-/

set_option autoImplicit false

namespace Nek0.Proofs.Audio

open Nek0.Audio
open Nek0.Audio.Reception (system)
open Nek0.Native (Instant)

variable {Frame : Type} {client : UInt16}

/-- `write_seq` is the number of the last accepted packet. -/
def WritesLast (client : UInt16) (p : Reception Frame) : Prop :=
  ∀ buf ∈ p.audio.clientBuffers client, p.accepted.getLast? = some buf.writeSeq

/-- An accepted packet stores its number. -/
theorem writeSeq_accept {buf : ClientJitterBuffer (Numbered Frame)} {seq : UInt16} {t : UInt64}
    (now : Instant) {g : UInt32} (frame : Frame)
    (hg : unwrapSeq seq (buf.initBase seq t).baseSeq.toUInt16 = g) :
    (buf.accept t now seq ⟨g, frame⟩).writeSeq =
      if (buf.initBase seq t).isStray g then buf.writeSeq else g := by
  have hinit : (buf.initBase seq t).writeSeq = buf.writeSeq := by
    unfold ClientJitterBuffer.initBase
    split <;> rfl
  unfold ClientJitterBuffer.accept
  dsimp only
  rw [hg]
  split
  · exact hinit
  · split <;> rfl

/-- The first packet of a buffer is accepted. -/
theorem isStray_new (volume : Gain) (seq : UInt16) (t : UInt64) (g : UInt32) :
    ((ClientJitterBuffer.new volume : ClientJitterBuffer Frame).initBase seq t).isStray g =
      false := by
  have hzero : ((ClientJitterBuffer.new volume : ClientJitterBuffer Frame).initBase
      seq t).writeSeq = 0 := by
    unfold ClientJitterBuffer.initBase
    split <;> rfl
  unfold ClientJitterBuffer.isStray
  rw [hzero]
  rfl

/-- The reader changes neither the base nor `write_seq`. -/
theorem writeSeq_takeFrame (buf : ClientJitterBuffer Frame) (slot : UInt64) :
    (buf.takeFrame slot).1.writeSeq = buf.writeSeq := by
  simp only [ClientJitterBuffer.takeFrame]
  repeat' split
  all_goals rfl

/-- A packet keeps it. -/
theorem writesLast_packet {p : Reception Frame} (h : WritesLast client p) (seq : UInt16)
    (played : UInt64) (now : Instant) (decoded : Option Frame) :
    ∀ buf ∈ (Reception.decode client seq played now decoded p.audio).clientBuffers client,
      (if Reception.isAccepted client seq (played / frameSize) decoded p.audio then
        p.accepted ++ [Reception.number client seq (played / frameSize) p.audio]
      else p.accepted).getLast? = some buf.writeSeq := by
  intro buf hbuf
  rw [decode_self] at hbuf
  cases decoded with
  | none => exact h buf hbuf
  | some frame =>
      obtain rfl := Option.some.inj hbuf
      rw [writeSeq_accept now frame
        (g := Reception.number client seq (played / frameSize) p.audio) rfl]
      cases hstray : ((Reception.entry client p.audio).initBase seq (played / frameSize)).isStray
          (Reception.number client seq (played / frameSize) p.audio) with
      | false =>
          rw [Reception.isAccepted, hstray]
          simp
      | true =>
          rw [Reception.isAccepted, hstray]
          simp only [Bool.not_true, Bool.and_false, Bool.false_eq_true, if_false, if_true]
          cases hentry : p.audio.clientBuffers client with
          | none =>
              -- A new buffer takes any packet.
              have hnew : Reception.entry client p.audio =
                  .new (p.audio.inheritedGain client) := by
                unfold Reception.entry
                rw [hentry]
                rfl
              rw [hnew, isStray_new] at hstray
              cases hstray
          | some old =>
              have hold : Reception.entry client p.audio = old := by
                unfold Reception.entry
                rw [hentry]
                rfl
              rw [hold]
              exact h old hentry

/-- In every run `write_seq` is the number of the last accepted packet. -/
theorem writesLast_of_reachable {p : Reception Frame} (hreach : (system client).Reachable p) :
    WritesLast client p := by
  refine hreach.invariant ?_ ?_
  · rintro p ⟨hnone, _, _⟩ buf hbuf
    rw [hnone] at hbuf
    cases hbuf
  · intro p p' e h _ hnext
    cases e with
    | packet seq played now decoded =>
        simp only [system, Reception.next] at hnext
        split at hnext
        · obtain rfl := Option.some.inj hnext
          exact writesLast_packet h seq played now decoded
        · cases hnext
    -- The buffer of the client is not touched.
    | otherPacket from_ seq played now decoded =>
        simp only [system, Reception.next] at hnext
        split at hnext
        · cases hnext
        · rename_i hne
          obtain rfl := Option.some.inj hnext
          intro buf hbuf
          rw [decode_of_ne hne] at hbuf
          exact h buf hbuf
    -- The reader takes frames out and leaves `write_seq` as it is.
    | mix ids =>
        by_cases hguard : ids.Nodup ∧ p.nextSlot * frameSize.toNat < 2 ^ 64
        · simp only [system, Reception.next, if_pos hguard, Option.some.injEq] at hnext
          subst hnext
          intro buf hbuf
          rw [Option.mem_def, (mixSlot_buffer hguard.1 (UInt64.ofNat p.nextSlot)).1] at hbuf
          split at hbuf
          · obtain ⟨old, hold, rfl⟩ := Option.map_eq_some_iff.mp hbuf
            rw [writeSeq_takeFrame]
            exact h old hold
          · exact h buf hbuf
        · simp only [system, Reception.next, if_neg hguard] at hnext
          cases hnext
    -- A buffer that stays is the same one.
    | cleanUp now =>
        obtain rfl := Option.some.inj hnext
        intro buf hbuf
        have hsome : ((p.audio.cleanUp now).clientBuffers client).isNone = false := by
          rw [show (p.audio.cleanUp now).clientBuffers client = some buf from hbuf]
          rfl
        simp only [hsome, Bool.false_eq_true, if_false]
        exact h buf (Option.mem_filter_iff.mp hbuf).1
    | restart =>
        obtain rfl := Option.some.inj hnext
        intro buf hbuf
        cases hbuf

/-- The reader at the play slot of a frame in the ring. -/
theorem takeFrame_due {buf : ClientJitterBuffer (Numbered Frame)} {f : Numbered Frame}
    (hin : buf.slots (ringIndex (f.number - buf.baseSeq).toNat) = some f) {slot : UInt64}
    (hslot : (slot.toNat : ℤ) = playSlot buf f.number) :
    (buf.takeFrame slot).2 =
      if buf.baseSeq ≠ 0 ∧ f.number ≤ buf.writeSeq then some f else none := by
  have hs := slot.toNat_lt
  have hb := buf.baseSlot.toNat_lt
  have hq := buf.baseSeq.toNat_lt
  have hf := f.number.toNat_lt
  have hexp : (slot - buf.baseSlot + buf.baseSeq.toUInt64).toNat = f.number.toNat := by
    simp only [UInt64.toNat_add, UInt64.toNat_sub, UInt32.toNat_toUInt64]
    unfold playSlot at hslot
    omega
  have hge : buf.writeSeq.toUInt64 ≥ slot - buf.baseSlot + buf.baseSeq.toUInt64 ↔
      f.number ≤ buf.writeSeq := by
    rw [ge_iff_le, UInt64.le_iff_toNat_le, UInt32.le_iff_toNat_le, hexp, UInt32.toNat_toUInt64]
  have hidx : ringIndex (slot - buf.baseSlot + buf.baseSeq.toUInt64
      - buf.baseSeq.toUInt64).toNat = ringIndex (f.number - buf.baseSeq).toNat := by
    apply Fin.ext
    have hr := ringIndex_of_slot slot buf.baseSlot buf.baseSeq.toUInt64
    have hw := ringIndex_of_number f.number buf.baseSeq
    unfold playSlot at hslot
    omega
  unfold ClientJitterBuffer.takeFrame
  dsimp only
  rw [hidx, hin]
  by_cases hzero : buf.baseSeq = 0
  · rw [if_pos hzero, if_neg fun h => h.1 hzero]
  · by_cases hle : f.number ≤ buf.writeSeq
    · rw [if_neg hzero, if_pos (hge.mpr hle), if_pos ⟨hzero, hle⟩]
    · rw [if_neg hzero, if_neg fun h => hle (hge.mp h), if_neg fun h => hle h.2]

/-- What the callback takes from the client when the play slot of a frame in the ring is mixed. -/
theorem taken_mix {p p' : Reception Frame} {ids : List UInt16}
    (hnext : Reception.next client (.mix ids) p = some p')
    {buf : ClientJitterBuffer (Numbered Frame)} (hbuf : p.audio.clientBuffers client = some buf)
    {f : Numbered Frame} (hin : buf.slots (ringIndex (f.number - buf.baseSeq).toNat) = some f)
    (hslot : (p.nextSlot : ℤ) = playSlot buf f.number) :
    p'.taken = p.taken ++
      if client ∈ ids ∧ buf.baseSeq ≠ 0 ∧ f.number ≤ buf.writeSeq then
        [⟨p.nextSlot, buf.baseSeq, buf.baseSlot, f⟩]
      else [] := by
  by_cases hguard : ids.Nodup ∧ p.nextSlot * frameSize.toNat < 2 ^ 64
  · have hslot64 : (UInt64.ofNat p.nextSlot).toNat = p.nextSlot := by
      rw [show frameSize.toNat = 960 from rfl] at hguard
      exact UInt64.toNat_ofNat_of_lt' (by rw [UInt64.size]; omega)
    have hshare := (@mixSlot_buffer _ client p.audio _ hguard.1
      (UInt64.ofNat p.nextSlot)).2
    have hentry : Reception.entry client p.audio = buf := by
      unfold Reception.entry
      rw [hbuf]
      rfl
    simp only [Reception.next, if_pos hguard, Option.some.injEq] at hnext
    subst hnext
    simp only [share] at hshare
    dsimp only
    rw [hshare, hentry, hbuf, Option.bind_some, takeFrame_due hin (by rw [hslot64, hslot])]
    congr 1
    by_cases hid : client ∈ ids
    · by_cases htake : buf.baseSeq ≠ 0 ∧ f.number ≤ buf.writeSeq
      · rw [if_pos hid, if_pos htake, if_pos ⟨hid, htake⟩]
        rfl
      · rw [if_pos hid, if_neg htake, if_neg fun h => htake h.2]
        rfl
    · rw [if_neg hid, if_neg fun h => hid h.1]
      rfl
  · simp only [Reception.next, if_neg hguard] at hnext
    cases hnext

/-- In every reachable state, a frame that is in its ring slot when its play slot is mixed is taken
exactly if the client is in the snapshot, the base is not number 0, and the last accepted packet is
not older than the frame. -/
theorem taken_iff {p p' : Reception Frame} {ids : List UInt16}
    (hreach : (system client).Reachable p) (hnext : Reception.next client (.mix ids) p = some p')
    {buf : ClientJitterBuffer (Numbered Frame)} (hbuf : p.audio.clientBuffers client = some buf)
    {f : Numbered Frame} (hin : buf.slots (ringIndex (f.number - buf.baseSeq).toNat) = some f)
    (hslot : (p.nextSlot : ℤ) = playSlot buf f.number) :
    p'.taken = p.taken ++ [⟨p.nextSlot, buf.baseSeq, buf.baseSlot, f⟩] ↔
      client ∈ ids ∧ buf.baseSeq ≠ 0 ∧ ∃ g, p.accepted.getLast? = some g ∧ f.number ≤ g := by
  have hlast := writesLast_of_reachable hreach buf hbuf
  rw [taken_mix hnext hbuf hin hslot, List.append_cancel_left_eq, hlast]
  constructor
  · intro h
    split at h
    · rename_i htake
      exact ⟨htake.1, htake.2.1, buf.writeSeq, rfl, htake.2.2⟩
    · cases h
  · rintro ⟨hid, hbase, g, hg, hle⟩
    obtain rfl := Option.some.inj hg
    rw [if_pos ⟨hid, hbase, hle⟩]

/-- Packets 1, 2 and 3, then `last`, and the slots up to that of packet 3. -/
def thirdDue (last : UInt16) : List (Reception.Event Nat) :=
  [.packet 1 96000 0 (some 10), .packet 2 96000 0 (some 20), .packet 3 96000 0 (some 30),
    .packet last 96000 0 (some 0)] ++ List.replicate 8 (.mix [7])

/-- Packet 3 is in the ring, its slot is mixed next, and `accepted` are the packets so far. -/
def IsThirdDue (accepted : List UInt32) (p : Reception Nat) : Prop :=
  p.nextSlot = 108 ∧ p.accepted = accepted ∧ (Reception.next 7 (.mix [7]) p).isSome ∧
    (p.audio.clientBuffers 7).map (fun buf => (buf.baseSeq, buf.baseSlot)) = some (1, 106) ∧
    (p.audio.clientBuffers 7).bind (fun buf => buf.slots (ringIndex 2)) = some ⟨3, 30⟩

instance (accepted : List UInt32) (p : Reception Nat) : Decidable (IsThirdDue accepted p) :=
  inferInstanceAs (Decidable (_ ∧ _))

/-- A run to that state. -/
theorem exists_thirdDue (last : UInt16) (accepted : List UInt32)
    (h : ((system 7).exec (fun _ _ => true) (thirdDue last) silence).map
      (fun p => decide (IsThirdDue accepted p)) = some true) :
    ∃ (p p' : Reception Nat) (buf : ClientJitterBuffer (Numbered Nat)),
      (system 7).Reachable p ∧ Reception.next 7 (.mix [7]) p = some p' ∧
      p.audio.clientBuffers 7 = some buf ∧ p.accepted = accepted ∧ buf.baseSeq = 1 ∧
      buf.slots (ringIndex ((3 : UInt32) - buf.baseSeq).toNat) = some ⟨3, 30⟩ ∧
      (p.nextSlot : ℤ) = playSlot buf 3 := by
  obtain ⟨p, hrun, hobs⟩ := Nek0.Lib.System.Run.exists_of_exec (system 7)
    (fun _ _ => True) (fun _ _ => true) (thirdDue last)
    (fun p => decide (IsThirdDue accepted p)) (fun _ _ _ => trivial)
    (.start (s := silence) ⟨rfl, rfl, rfl⟩) h
  have hdue : IsThirdDue accepted p := of_decide_eq_true hobs
  obtain ⟨hslot, haccepted, hnext, hmap, hin⟩ := hdue
  obtain ⟨p', hnext⟩ := Option.isSome_iff_exists.mp hnext
  obtain ⟨buf, hbuf, hpair⟩ := Option.map_eq_some_iff.mp hmap
  obtain ⟨hbase, hbslot⟩ := Prod.mk.inj hpair
  rw [hbuf] at hin
  refine ⟨p, p', buf, hrun, hnext, hbuf, haccepted, hbase, ?_, ?_⟩
  · rw [hbase]
    exact hin
  · rw [hslot, playSlot, hbase, hbslot]
    rfl

/-- After packet 4, packet 3 is taken. -/
theorem taken_iff_fourth :
    ∃ (p p' : Reception Nat) (buf : ClientJitterBuffer (Numbered Nat)),
      p'.taken = p.taken ++ [⟨p.nextSlot, buf.baseSeq, buf.baseSlot, ⟨3, 30⟩⟩] := by
  obtain ⟨p, p', buf, hreach, hnext, hbuf, haccepted, hbase, hin, hslot⟩ :=
    exists_thirdDue 4 [1, 2, 3, 4] (by decide +kernel)
  refine ⟨p, p', buf, (taken_iff (f := ⟨3, 30⟩) hreach hnext hbuf hin hslot).mpr
    ⟨by decide, ?_, 4, ?_, ?_⟩⟩
  · rw [hbase]
    decide
  · rw [haccepted]
    rfl
  · decide

/-- After packet 2 for the second time, packet 3 is not taken. -/
theorem third_not_taken :
    ¬ ∀ (p p' : Reception Nat) (ids : List UInt16) (buf : ClientJitterBuffer (Numbered Nat))
        (f : Numbered Nat), (system 7).Reachable p → 7 ∈ ids →
      Reception.next 7 (.mix ids) p = some p' → p.audio.clientBuffers 7 = some buf →
      buf.slots (ringIndex (f.number - buf.baseSeq).toNat) = some f →
      (p.nextSlot : ℤ) = playSlot buf f.number →
      p'.taken = p.taken ++ [⟨p.nextSlot, buf.baseSeq, buf.baseSlot, f⟩] := by
  intro hall
  obtain ⟨p, p', buf, hreach, hnext, hbuf, haccepted, _, hin, hslot⟩ :=
    exists_thirdDue 2 [1, 2, 3, 2] (by decide +kernel)
  have htaken := hall p p' [7] buf ⟨3, 30⟩ hreach (by decide) hnext hbuf hin hslot
  have hlast := writesLast_of_reachable hreach buf hbuf
  rw [haccepted] at hlast
  have hwrite : buf.writeSeq = 2 := (Option.some.inj hlast).symm
  rw [taken_mix (f := ⟨3, 30⟩) hnext hbuf hin hslot, List.append_cancel_left_eq, if_neg] at htaken
  · cases htaken
  · rintro ⟨_, _, hle⟩
    rw [hwrite] at hle
    revert hle
    decide

end Nek0.Proofs.Audio
