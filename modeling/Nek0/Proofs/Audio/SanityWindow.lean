import Nek0.Proofs.Audio.RingTracking
import Nek0.Proofs.Audio.SlotMapping

/-!
# `Nek0.Proofs.Audio.SanityWindow`: which packets are near enough

A packet should be accepted just if its `u16` number is at most 1000 away from the number of the
last accepted packet, in either direction and across the wrap. `unwrap_seq` always goes forward from
the low 16 bits of the base, so it reaches one number out of each residue class, and the number next
to `write_seq` may be another one. A `write_seq` of 0 is taken for no packet at all.

* `toUInt16_unwrapSeq`: the number is congruent to the packet's number in any case.
* `unwrapSeq_eq_iff`: the numbers that are reached from a base.
* `sane_iff`: the packets for which the check does what it is for.
-/

set_option autoImplicit false

namespace Nek0.Proofs.Audio

open Nek0.Audio
open Nek0.Audio.Reception (system number isAccepted entry)
open Nek0.Native (Instant)

variable {Frame : Type}

/-- The distance of two packets around the circle of 65536 numbers. -/
def circular (a b : UInt16) : UInt16 := min (a - b) (b - a)

/-- The distance of two numbers around the circle of `2 ^ 32` numbers. -/
def apart (a b : UInt32) : UInt32 := min (a - b) (b - a)

/-- The check does what it is for: a packet that is near the last accepted one is placed near it,
under its own number, and is accepted. Another packet is discarded. -/
structure Sane (client : UInt16) (p : Reception Frame) (last : UInt32) (seq : UInt16)
    (currentSlot : UInt64) (frame : Frame) : Prop where
  near : circular seq last.toUInt16 ≤ 1000 →
    apart (number client seq currentSlot p.audio) last ≤ 1000 ∧
      (number client seq currentSlot p.audio).toUInt16 = seq ∧
      isAccepted client seq currentSlot (some frame) p.audio = true
  far : 1000 < circular seq last.toUInt16 →
    isAccepted client seq currentSlot (some frame) p.audio = false

/-- The number next to `last` that is congruent to the packet's number. -/
def nearest (last : UInt32) (seq : UInt16) : UInt32 :=
  if seq - last.toUInt16 ≤ 1000 then last + (seq - last.toUInt16).toUInt32
  else last - (last.toUInt16 - seq).toUInt32

/-- `unwrap_seq` reaches the 65536 numbers from the low 16 bits of the base on. In place of the one
in the middle it reaches the number 32768 below. -/
def reaches (base : UInt16) (n : UInt32) : Bool :=
  let forward := n - base.toUInt32
  (decide (forward < 65536) && forward != 32768) || forward == 4294934528

/-- The condition on the last accepted number, the base and the packet. -/
def inReach (base : UInt16) (last : UInt32) (seq : UInt16) : Bool :=
  if circular seq last.toUInt16 ≤ 1000 then reaches base (nearest last seq) else last != 0

/-! ### What `unwrap_seq` reaches -/

/-- The unwrapped number ends with the packet number. -/
theorem toUInt16_unwrapSeq (seq base : UInt16) : (unwrapSeq seq base).toUInt16 = seq := by
  apply UInt16.toNat_inj.mp
  have hunwrap := unwrapSeq_toNat seq base
  have hseq := seq.toNat_lt
  have hbase := base.toNat_lt
  rw [UInt32.toNat_toUInt16, hunwrap]
  rw [UInt16.toNat_sub]
  split <;> omega

/-- The numbers that unwrapping from `base` can give. -/
theorem reaches_iff (base : UInt16) (n : UInt32) :
    reaches base n = true ↔
      ((n.toNat + (2 ^ 32 - base.toNat)) % 2 ^ 32 < 65536 ∧
        (n.toNat + (2 ^ 32 - base.toNat)) % 2 ^ 32 ≠ 32768) ∨
      (n.toNat + (2 ^ 32 - base.toNat)) % 2 ^ 32 = 2 ^ 32 - 32768 := by
  have hforward : (n - base.toUInt32).toNat = (n.toNat + (2 ^ 32 - base.toNat)) % 2 ^ 32 := by
    rw [UInt32.toNat_sub, UInt16.toNat_toUInt32, Nat.add_comm]
  simp only [reaches, Bool.or_eq_true, Bool.and_eq_true, decide_eq_true_iff, bne_iff_ne, ne_eq,
    beq_iff_eq, UInt32.lt_iff_toNat_lt, ← UInt32.toNat_inj, hforward]
  rfl

/-- The numbers that are reached from a base. -/
theorem unwrapSeq_eq_iff (seq base : UInt16) (n : UInt32) :
    unwrapSeq seq base = n ↔ n.toUInt16 = seq ∧ reaches base n = true := by
  constructor
  · rintro rfl
    refine ⟨toUInt16_unwrapSeq seq base, ?_⟩
    have hunwrap := unwrapSeq_toNat seq base
    have hseq := seq.toNat_lt
    have hbase := base.toNat_lt
    rw [UInt16.toNat_sub] at hunwrap
    rw [reaches_iff, hunwrap]
    split <;> omega
  · rintro ⟨rfl, hreach⟩
    rw [reaches_iff] at hreach
    apply UInt32.toNat_inj.mp
    have hn := n.toNat_lt
    have hbase := base.toNat_lt
    rw [unwrapSeq_toNat, UInt16.toNat_sub, UInt32.toNat_toUInt16]
    split <;> omega

/-! ### Distances -/

/-- The circular distance is small in one direction or the other. -/
theorem circular_le_iff (a b : UInt16) :
    circular a b ≤ 1000 ↔ (a.toNat + (65536 - b.toNat)) % 65536 ≤ 1000 ∨
      (b.toNat + (65536 - a.toNat)) % 65536 ≤ 1000 := by
  have h1000 : (1000 : UInt16).toNat = 1000 := rfl
  show (if a - b ≤ b - a then a - b else b - a) ≤ 1000 ↔ _
  split
  · next h =>
      rw [UInt16.le_iff_toNat_le, UInt16.toNat_sub, UInt16.toNat_sub] at h
      rw [UInt16.le_iff_toNat_le, UInt16.toNat_sub]
      omega
  · next h =>
      rw [UInt16.le_iff_toNat_le, UInt16.toNat_sub, UInt16.toNat_sub] at h
      rw [UInt16.le_iff_toNat_le, UInt16.toNat_sub]
      omega

/-- The same of the distance modulo `2 ^ 32`. -/
theorem apart_le_iff (a b : UInt32) :
    apart a b ≤ 1000 ↔ (a.toNat + (2 ^ 32 - b.toNat)) % 2 ^ 32 ≤ 1000 ∨
      (b.toNat + (2 ^ 32 - a.toNat)) % 2 ^ 32 ≤ 1000 := by
  have h1000 : (1000 : UInt32).toNat = 1000 := rfl
  show (if a - b ≤ b - a then a - b else b - a) ≤ 1000 ↔ _
  split
  · next h =>
      rw [UInt32.le_iff_toNat_le, UInt32.toNat_sub, UInt32.toNat_sub] at h
      rw [UInt32.le_iff_toNat_le, UInt32.toNat_sub]
      omega
  · next h =>
      rw [UInt32.le_iff_toNat_le, UInt32.toNat_sub, UInt32.toNat_sub] at h
      rw [UInt32.le_iff_toNat_le, UInt32.toNat_sub]
      omega

/-- A number is stray if it is far from the last one that was written. -/
theorem isStray_eq (buf : ClientJitterBuffer Frame) (g : UInt32) :
    buf.isStray g = true ↔ buf.writeSeq ≠ 0 ∧ ¬ apart g buf.writeSeq ≤ 1000 := by
  simp only [ClientJitterBuffer.isStray, Bool.and_eq_true, bne_iff_ne, decide_eq_true_iff,
    gt_iff_lt, UInt32.not_le]
  rfl

/-- A number near `last` that is congruent to the packet's number is the one next to `last`. -/
theorem apart_le_iff_nearest {g last : UInt32} {seq : UInt16} (hg : g.toUInt16 = seq)
    (hnear : circular seq last.toUInt16 ≤ 1000) : apart g last ≤ 1000 ↔ g = nearest last seq := by
  subst hg
  have hlt := g.toNat_lt
  have hlast := last.toNat_lt
  have h1000 : (1000 : UInt16).toNat = 1000 := rfl
  rw [circular_le_iff, UInt32.toNat_toUInt16, UInt32.toNat_toUInt16] at hnear
  rw [apart_le_iff, ← UInt32.toNat_inj]
  unfold nearest
  split
  · next h =>
      rw [UInt16.le_iff_toNat_le, UInt16.toNat_sub, UInt32.toNat_toUInt16, UInt32.toNat_toUInt16]
        at h
      rw [UInt32.toNat_add, UInt16.toNat_toUInt32, UInt16.toNat_sub, UInt32.toNat_toUInt16,
        UInt32.toNat_toUInt16]
      omega
  · next h =>
      rw [UInt16.le_iff_toNat_le, UInt16.toNat_sub, UInt32.toNat_toUInt16, UInt32.toNat_toUInt16]
        at h
      rw [UInt32.toNat_sub, UInt16.toNat_toUInt32, UInt16.toNat_sub, UInt32.toNat_toUInt16,
        UInt32.toNat_toUInt16]
      omega

/-- The nearest number ends with the packet number. -/
theorem toUInt16_nearest (last : UInt32) (seq : UInt16) : (nearest last seq).toUInt16 = seq := by
  have hlast := last.toNat_lt
  have hseq := seq.toNat_lt
  apply UInt16.toNat_inj.mp
  unfold nearest
  split
  · rw [UInt32.toNat_toUInt16, UInt32.toNat_add, UInt16.toNat_toUInt32, UInt16.toNat_sub,
      UInt32.toNat_toUInt16]
    omega
  · rw [UInt32.toNat_toUInt16, UInt32.toNat_sub, UInt16.toNat_toUInt32, UInt16.toNat_sub,
      UInt32.toNat_toUInt16]
    omega

/-- Numbers are at least as far apart as the packets. -/
theorem circular_le_of_apart {g last : UInt32} (h : apart g last ≤ 1000) :
    circular g.toUInt16 last.toUInt16 ≤ 1000 := by
  have hlt := g.toNat_lt
  have hlast := last.toNat_lt
  rw [apart_le_iff] at h
  rw [circular_le_iff, UInt32.toNat_toUInt16, UInt32.toNat_toUInt16]
  omega

/-! ### The last accepted packet -/

/-- The buffer still has the number of the last accepted packet, and a mapping. -/
def RemembersLast (client : UInt16) (p : Reception Frame) : Prop :=
  ∀ last, p.accepted.getLast? = some last →
    ∃ buf, p.audio.clientBuffers client = some buf ∧ buf.writeSeq = last ∧ buf.basePair ≠ 0

section Buffer

variable (buf : ClientJitterBuffer Frame)

/-- A base is set from the first packet on. -/
theorem basePair_initBase (seq : UInt16) {t : UInt64} (ht : t.toNat < 2 ^ 63) :
    (buf.initBase seq t).basePair ≠ 0 := by
  have hslot : 0 < (t + targetDelay).toNat := by
    rw [UInt64.toNat_add, show targetDelay.toNat = 6 from rfl]
    omega
  unfold ClientJitterBuffer.initBase
  split
  · exact packBase_ne_zero _ hslot
  · next h => exact h

/-- A packet that is not a stray is the last one that the buffer remembers. -/
theorem accept_of_not_isStray {seq : UInt16} {t : UInt64} (ht : t.toNat < 2 ^ 63) (now : Instant)
    (frame : Frame)
    (h : (buf.initBase seq t).isStray
      (unwrapSeq seq (buf.initBase seq t).baseSeq.toUInt16) = false) :
    (buf.accept t now seq frame).writeSeq =
        unwrapSeq seq (buf.initBase seq t).baseSeq.toUInt16 ∧
      (buf.accept t now seq frame).basePair ≠ 0 := by
  have hslot : 0 < (t + targetDelay).toNat := by
    rw [UInt64.toNat_add, show targetDelay.toNat = 6 from rfl]
    omega
  unfold ClientJitterBuffer.accept
  simp only [h, Bool.false_eq_true, if_false]
  split
  · exact ⟨rfl, packBase_ne_zero _ hslot⟩
  · exact ⟨rfl, basePair_initBase buf seq ht⟩

/-- A stray leaves the buffer alone, once its mapping is set. -/
theorem accept_of_isStray {seq : UInt16} {t : UInt64} (hpair : buf.basePair ≠ 0) (now : Instant)
    (frame : Frame) (h : buf.isStray (unwrapSeq seq buf.baseSeq.toUInt16) = true) :
    buf.accept t now seq frame = buf := by
  unfold ClientJitterBuffer.accept
  rw [initBase_of_ne_zero hpair]
  exact if_pos h

/-- The reader changes neither the number nor the mapping. -/
theorem takeFrame_writeSeq (slot : UInt64) :
    (buf.takeFrame slot).1.writeSeq = buf.writeSeq ∧
      (buf.takeFrame slot).1.basePair = buf.basePair := by
  unfold ClientJitterBuffer.takeFrame
  split
  · exact ⟨rfl, rfl⟩
  · dsimp only
    split
    · split <;> exact ⟨rfl, rfl⟩
    · exact ⟨rfl, rfl⟩

end Buffer

section Remembers

variable {client : UInt16} {p p' : Reception Frame}

theorem entry_of_some {buf : ClientJitterBuffer (Numbered Frame)}
    (h : p.audio.clientBuffers client = some buf) : entry client p.audio = buf := by
  rw [entry, h]
  rfl

theorem toNat_currentSlot (played : UInt64) : (played / frameSize).toNat < 2 ^ 63 := by
  have hplayed := played.toNat_lt
  rw [UInt64.toNat_div, show frameSize.toNat = 960 from rfl]
  omega

/-- Is the packet written, when the client has a buffer with a mapping? -/
theorem isAccepted_of_some {buf : ClientJitterBuffer (Numbered Frame)}
    (hbuf : p.audio.clientBuffers client = some buf) (hpair : buf.basePair ≠ 0) (seq : UInt16)
    (t : UInt64) (frame : Frame) :
    number client seq t p.audio = unwrapSeq seq buf.baseSeq.toUInt16 ∧
      isAccepted client seq t (some frame) p.audio =
        !buf.isStray (unwrapSeq seq buf.baseSeq.toUInt16) := by
  have hentry := entry_of_some hbuf
  rw [isAccepted, number, hentry, initBase_of_ne_zero hpair]
  exact ⟨rfl, Bool.true_and _⟩

/-- A packet of the client keeps the memory of the last accepted one. -/
theorem remembersLast_packet (h : RemembersLast client p) (seq : UInt16) (played : UInt64)
    (now : Instant) (decoded : Option Frame) (nextSlot : Nat) (taken : List (Take Frame)) :
    RemembersLast client
      { audio := Reception.decode client seq played now decoded p.audio
        nextSlot := nextSlot
        accepted :=
          if isAccepted client seq (played / frameSize) decoded p.audio then
            p.accepted ++ [number client seq (played / frameSize) p.audio]
          else p.accepted
        taken := taken } := by
  intro last hlast
  dsimp only at hlast ⊢
  rw [decode_self]
  cases decoded with
  | none => exact h last hlast
  | some frame =>
      -- The packet is accepted, and so the last one, or it is stray and changes nothing.
      cases haccepted : isAccepted client seq (played / frameSize) (some frame) p.audio with
      | true =>
          rw [haccepted, if_pos rfl, List.getLast?_concat, Option.some.injEq] at hlast
          subst hlast
          have hstray : ((entry client p.audio).initBase seq (played / frameSize)).isStray
              (number client seq (played / frameSize) p.audio) = false := by
            simpa [isAccepted] using haccepted
          obtain ⟨hwrite, hpair⟩ := accept_of_not_isStray _ (toNat_currentSlot played) now
            (⟨number client seq (played / frameSize) p.audio, frame⟩ : Numbered Frame) hstray
          exact ⟨_, rfl, hwrite, hpair⟩
      | false =>
          rw [haccepted, if_neg Bool.false_ne_true] at hlast
          obtain ⟨buf, hbuf, hwrite, hpair⟩ := h last hlast
          rw [(isAccepted_of_some hbuf hpair seq _ frame).2, Bool.not_eq_false'] at haccepted
          refine ⟨buf, ?_, hwrite, hpair⟩
          rw [entry_of_some hbuf]
          exact congrArg some (accept_of_isStray buf hpair now _ haccepted)

/-- Mixing keeps the memory of the last accepted packet. -/
theorem remembersLast_mix (h : RemembersLast client p) {ids : List UInt16} (hnodup : ids.Nodup)
    (slot : UInt64) (nextSlot : Nat) (taken : List (Take Frame)) :
    RemembersLast client
      { audio := ({ p.audio with activeClientIds := ids }.mixSlot slot).1
        nextSlot := nextSlot
        accepted := p.accepted
        taken := taken } := by
  intro last hlast
  obtain ⟨buf, hbuf, hwrite, hpair⟩ := h last hlast
  dsimp only
  rw [(mixSlot_buffer hnodup slot).1, hbuf]
  split
  · have hsame := takeFrame_writeSeq buf slot
    exact ⟨_, rfl, hsame.1.trans hwrite, hsame.2.symm ▸ hpair⟩
  · exact ⟨buf, rfl, hwrite, hpair⟩

/-- In every run the buffer remembers the last accepted packet. -/
theorem remembersLast_of_reachable (hreach : (system client).Reachable p) :
    RemembersLast client p := by
  refine hreach.invariant ?_ ?_
  · rintro p ⟨_, haccepted, _⟩ last hlast
    rw [haccepted] at hlast
    cases hlast
  -- Only a packet of this client can move its base. The other events leave the buffer or drop it.
  · intro p p' e h _ hnext
    cases e with
    | packet seq played now decoded =>
        simp only [system, Reception.next, Option.ite_none_right_eq_some] at hnext
        obtain ⟨_, hnext⟩ := hnext
        cases hnext
        exact remembersLast_packet h seq played now decoded _ _
    | otherPacket from_ seq played now decoded =>
        simp only [system, Reception.next, Option.ite_none_left_eq_some] at hnext
        obtain ⟨hne, hnext⟩ := hnext
        cases hnext
        intro last hlast
        obtain ⟨buf, hbuf, hrest⟩ := h last hlast
        exact ⟨buf, (decode_of_ne hne seq played now decoded).trans hbuf, hrest⟩
    | mix ids =>
        simp only [system, Reception.next, Option.ite_none_right_eq_some] at hnext
        obtain ⟨hguard, hnext⟩ := hnext
        cases hnext
        exact remembersLast_mix h hguard.1 _ _ _
    | cleanUp now =>
        cases hnext
        intro last hlast
        dsimp only at hlast ⊢
        cases hbuf : (p.audio.cleanUp now).clientBuffers client with
        | none =>
            rw [hbuf] at hlast
            cases hlast
        | some buf =>
            rw [hbuf] at hlast
            obtain ⟨old, hold, hrest⟩ := h last hlast
            -- The clean-up keeps the buffer or removes it.
            have hsame := (Option.mem_filter_iff.mp hbuf).1
            rw [hold] at hsame
            cases hsame
            exact ⟨buf, rfl, hrest⟩
    | restart =>
        cases hnext
        intro last hlast
        cases hlast

end Remembers

/-! ### The check -/

/-- After any run with an accepted packet, the check does what it is for just if the packet is in
reach. -/
theorem sane_iff {client : UInt16} {p : Reception Frame} (hreach : (system client).Reachable p)
    {last : UInt32} (hlast : p.accepted.getLast? = some last) (seq : UInt16) (currentSlot : UInt64)
    (frame : Frame) :
    Sane client p last seq currentSlot frame ↔
      inReach (entry client p.audio).baseSeq.toUInt16 last seq = true := by
  obtain ⟨buf, hbuf, hwrite, hpair⟩ := remembersLast_of_reachable hreach last hlast
  obtain ⟨hnumber, haccepted⟩ := isAccepted_of_some hbuf hpair seq currentSlot frame
  have hcongruent := toUInt16_unwrapSeq seq buf.baseSeq.toUInt16
  have hstray := isStray_eq buf (unwrapSeq seq buf.baseSeq.toUInt16)
  rw [hwrite] at hstray
  rw [entry_of_some hbuf, inReach]
  by_cases hnear : circular seq last.toUInt16 ≤ 1000
  · rw [if_pos hnear]
    have hplaced := apart_le_iff_nearest hcongruent hnear
    have hreached := unwrapSeq_eq_iff seq buf.baseSeq.toUInt16 (nearest last seq)
    constructor
    · intro h
      have hapart := (h.near hnear).1
      rw [hnumber, hplaced, hreached] at hapart
      exact hapart.2
    · intro h
      have hapart := hplaced.mpr (hreached.mpr ⟨toUInt16_nearest last seq, h⟩)
      refine ⟨fun _ => ?_, fun hfar => absurd hnear (UInt16.not_le.mpr hfar)⟩
      rw [hnumber, haccepted, Bool.not_eq_true', Bool.eq_false_iff, ne_eq, hstray]
      exact ⟨hapart, hcongruent, fun hfar => hfar.2 hapart⟩
  · rw [if_neg hnear]
    -- The numbers are no nearer than the packets, so only a last number of 0 lets the packet in.
    have hapart : ¬ apart (unwrapSeq seq buf.baseSeq.toUInt16) last ≤ 1000 := by
      intro h
      rw [← hcongruent] at hnear
      exact hnear (circular_le_of_apart h)
    constructor
    · intro h
      have hdiscarded := h.far (UInt16.not_le.mp hnear)
      rw [haccepted, Bool.not_eq_false', hstray] at hdiscarded
      exact bne_iff_ne.mpr hdiscarded.1
    · intro h
      refine ⟨fun h => absurd h hnear, fun _ => ?_⟩
      rw [haccepted, Bool.not_eq_false', hstray]
      exact ⟨bne_iff_ne.mp h, hapart⟩

/-- Packet 40 was accepted. -/
def firstForty : List (Reception.Event Nat) := [.packet 40 96000 0 (some 400)]

/-- Packet 40 comes first. -/
theorem exists_firstForty : ∃ p : Reception Nat, (system 7).Reachable p ∧
    p.accepted.getLast? = some 40 ∧ (entry 7 p.audio).baseSeq.toUInt16 = 40 := by
  obtain ⟨p, hrun, hview⟩ := Nek0.Lib.System.Run.exists_of_exec (system 7)
    (fun _ _ => True) (fun _ _ => true) firstForty
    (fun p => (p.accepted.getLast?, (entry 7 p.audio).baseSeq.toUInt16)) (fun _ _ _ => trivial)
    (.start (s := silence) ⟨rfl, rfl, rfl⟩) (a := (some 40, 40)) (by decide +kernel)
  simp only [Prod.mk.injEq] at hview
  exact ⟨p, hrun, hview.1, hview.2⟩

/-- Packet 1040 is placed 1000 ahead, and packet 1041 is discarded. -/
theorem sane_thousand : ∃ p : Reception Nat, (system 7).Reachable p ∧
    Sane 7 p 40 1040 100 0 ∧ Sane 7 p 40 1041 100 0 := by
  obtain ⟨p, hreach, hlast, hbase⟩ := exists_firstForty
  exact ⟨p, hreach, (sane_iff hreach hlast 1040 100 0).mpr (by rw [hbase]; decide),
    (sane_iff hreach hlast 1041 100 0).mpr (by rw [hbase]; decide)⟩

/-- Packet 39 is one number before the base. It is placed 65535 ahead, and discarded. -/
theorem not_sane : ∃ p : Reception Nat, (system 7).Reachable p ∧
    p.accepted.getLast? = some 40 ∧ ¬ Sane 7 p 40 39 100 390 := by
  obtain ⟨p, hrun, hview⟩ := Nek0.Lib.System.Run.exists_of_exec (system 7)
    (fun _ _ => True) (fun _ _ => true) firstForty
    (fun p => (p.accepted.getLast?, isAccepted 7 39 100 (some 390) p.audio)) (fun _ _ _ => trivial)
    (.start (s := silence) ⟨rfl, rfl, rfl⟩) (a := (some 40, false)) (by decide +kernel)
  simp only [Prod.mk.injEq] at hview
  refine ⟨p, hrun, hview.1, fun h => ?_⟩
  have haccepted := (h.near (by decide)).2.2
  rw [hview.2] at haccepted
  cases haccepted

end Nek0.Proofs.Audio
