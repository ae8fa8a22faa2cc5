import Nek0.Audio.Playback
import Nek0.Proofs.Audio.SequenceSpace

/-!
# `Nek0.Proofs.Audio.RingTracking`: the ring follows the stream

An in-order stream from `s0` plays packet `m` at slot `baseSlot + (m - base)`, where packet `base`
is the first one under the mapping in force. `Tracks` says that a buffer follows this rule after
`n` packets, with the slots below `p` mixed: every frame whose slot is still to come lies in its
ring slot, and a ring slot holds nothing but a frame of the last 64.

* `tracks_first`, `tracks_accept`: what a packet does. A packet keeps the mapping while the reader
  is at most 3 slots past it.
* `takeFrame_present`, `takeFrame_absent`: what mixing a slot does.

The rules need the mapping to stay in the `u16` half-range: at most 32768 packets under one base,
and a base below 65536.
-/

set_option autoImplicit false

namespace Nek0.Proofs.Audio

open Nek0.Audio
open Nek0.Native (Instant)

variable {Frame : Type}

/-- The ring index of a distance, as a number. -/
@[simp] theorem ringIndex_val (d : Nat) : (ringIndex d).val = d % 64 := rfl

/-- Two distances share a ring slot exactly when they agree modulo 64. -/
theorem ringIndex_eq_iff (d e : Nat) : ringIndex d = ringIndex e ↔ d % 64 = e % 64 := by
  rw [Fin.ext_iff, ringIndex_val, ringIndex_val]

/-- The buffer follows the stream: `n` packets are decoded, the slots below `p` are mixed, and
packet `m` plays at slot `baseSlot + (m - base)`. -/
structure Tracks (s0 : Nat) (frames : Nat → Frame) (base baseSlot n p : Nat)
    (buf : ClientJitterBuffer Frame) : Prop where
  baseSeq_eq : buf.baseSeq.toNat = s0 + base
  base_pos : 0 < s0
  base_lt : s0 + base < 65536
  baseSlot_eq : buf.baseSlot.toNat = baseSlot
  writeSeq_eq : buf.writeSeq.toNat + 1 = s0 + n
  started : base < n
  window : n ≤ base + 32768
  lead : baseSlot + (n - 1 - base) ≤ p + 6
  present : ∀ m, base ≤ m → m < n → p ≤ baseSlot + (m - base) →
    buf.slots (ringIndex (m - base)) = some (frames m)
  sound : ∀ i f, buf.slots i = some f →
    ∃ m, base ≤ m ∧ m < n ∧ n ≤ m + 64 ∧ ringIndex (m - base) = i ∧ f = frames m

/-! ### Where a packet lands -/

/-- Under a base in the half-range, `unwrapSeq` gives packet `n` its own number. -/
theorem unwrapSeq_stream {s0 base n : Nat} {b : UInt32} (hb : b.toNat = s0 + base)
    (hlt : s0 + base < 65536) (hbn : base ≤ n) (hwin : n < base + 32768) :
    (unwrapSeq (UInt16.ofNat (s0 + n)) b.toUInt16).toNat = s0 + n := by
  have hb16 : b.toUInt16 = UInt16.ofNat (s0 + base) := by
    apply UInt16.toNat_inj.mp
    rw [UInt32.toNat_toUInt16, hb, UInt16.toNat_ofNat']
  have hdist := toNat_ofNat_sub_ofNat (a := s0 + n) (b := s0 + base) (by omega) (by omega)
  rw [hb16, unwrapSeq_toNat, hdist, UInt16.toNat_ofNat', if_neg (by omega)]
  omega

/-- A buffer whose base is set keeps it. -/
theorem initBase_of_ne_zero {buf : ClientJitterBuffer Frame} (h : buf.basePair ≠ 0)
    (seq : UInt16) (nowSlot : UInt64) : buf.initBase seq nowSlot = buf := if_neg h

/-- A nonzero base sequence means a base that is set. -/
theorem basePair_ne_zero {buf : ClientJitterBuffer Frame} (h : 0 < buf.baseSeq.toNat) :
    buf.basePair ≠ 0 := by
  intro h0
  rw [baseSeq_toNat, h0] at h
  exact absurd h (by decide)

/-- The next number after the last accepted one is not a stray. -/
theorem isStray_succ {buf : ClientJitterBuffer Frame} {g : UInt32} {k : Nat}
    (hw : buf.writeSeq.toNat + 1 = k) (hg : g.toNat = k) : buf.isStray g = false := by
  have hlt := g.toNat_lt
  have hdist : (g - buf.writeSeq).toNat = 1 := by
    rw [UInt32.toNat_sub]
    omega
  unfold ClientJitterBuffer.isStray
  rw [Bool.and_eq_false_iff]
  right
  rw [decide_eq_false_iff_not, gt_iff_lt, UInt32.lt_iff_toNat_lt]
  have hmin : (min (g - buf.writeSeq) (buf.writeSeq - g)).toNat ≤ (g - buf.writeSeq).toNat := by
    show (if g - buf.writeSeq ≤ buf.writeSeq - g then g - buf.writeSeq
      else buf.writeSeq - g).toNat ≤ _
    split
    · exact Nat.le_refl _
    · rename_i h
      rw [UInt32.le_iff_toNat_le] at h
      omega
  have h1000 : (1000 : UInt32).toNat = 1000 := rfl
  omega

/-- A number more than 1000 away from the last accepted one, both ways around, is a stray. -/
theorem isStray_of_far {buf : ClientJitterBuffer Frame} {g : UInt32}
    (hw : 0 < buf.writeSeq.toNat)
    (hforward : 1000 < (g.toNat + (2 ^ 32 - buf.writeSeq.toNat)) % 2 ^ 32)
    (hbackward : 1000 < (buf.writeSeq.toNat + (2 ^ 32 - g.toNat)) % 2 ^ 32) :
    buf.isStray g = true := by
  have hne : buf.writeSeq ≠ 0 := by
    intro h0
    rw [h0] at hw
    exact absurd hw (by decide)
  have h1000 : (1000 : UInt32).toNat = 1000 := rfl
  have hfwd : (1000 : UInt32) < g - buf.writeSeq := by
    rw [UInt32.lt_iff_toNat_lt, UInt32.toNat_sub]
    omega
  have hbwd : (1000 : UInt32) < buf.writeSeq - g := by
    rw [UInt32.lt_iff_toNat_lt, UInt32.toNat_sub]
    omega
  have hmin : (1000 : UInt32) < min (g - buf.writeSeq) (buf.writeSeq - g) := by
    show _ < (if _ then _ else _)
    split
    · exact hfwd
    · exact hbwd
  simp [ClientJitterBuffer.isStray, hne, hmin]

/-- `behind` as a number: the current slot against the packet's slot. -/
theorem behind_toNat {s0 base baseSlot n : Nat} {buf : ClientJitterBuffer Frame}
    (currentSlot : UInt64) {g : UInt32} (hseq : buf.baseSeq.toNat = s0 + base)
    (hslot : buf.baseSlot.toNat = baseSlot) (hg : g.toNat = s0 + n) (hbn : base ≤ n) :
    (buf.behind currentSlot g).toNat
      = (currentSlot.toNat + (2 ^ 64 - (baseSlot + (n - base)))) % 2 ^ 64 := by
  have h1 := currentSlot.toNat_lt
  have h2 := buf.baseSlot.toNat_lt
  have h3 := buf.baseSeq.toNat_lt
  have h4 := g.toNat_lt
  have h5 : baseSlot < 2 ^ 32 := by
    rw [← hslot, baseSlot_toNat]
    exact Nat.mod_lt _ (by decide)
  unfold ClientJitterBuffer.behind
  simp only [UInt64.toNat_sub, UInt64.toNat_add, UInt32.toNat_toUInt64, hseq, hslot, hg]
  omega

/-- The reader's position decides: with the packet at most 6 slots away and the reader at most 3
slots past it, there is no realignment. -/
theorem needsRebase_eq_false {s0 base baseSlot n : Nat} {buf : ClientJitterBuffer Frame}
    {currentSlot : UInt64} {g : UInt32} (hseq : buf.baseSeq.toNat = s0 + base)
    (hslot : buf.baseSlot.toNat = baseSlot) (hg : g.toNat = s0 + n) (hbn : base ≤ n)
    (hlead : baseSlot + (n - base) ≤ currentSlot.toNat + 6)
    (hlag : currentSlot.toNat ≤ baseSlot + (n - base) + 3) :
    buf.needsRebase currentSlot g = false := by
  have hbeh := behind_toNat currentSlot hseq hslot hg hbn
  have hcur := currentSlot.toNat_lt
  have h4 : (4 : UInt64).toNat = 4 := rfl
  have h4096 : (4096 : UInt64).toNat = 4096 := rfl
  have hor : ¬ (rebaseLead ≤ buf.behind currentSlot g ∧ buf.behind currentSlot g < 4096) := by
    rw [UInt64.le_iff_toNat_le, UInt64.lt_iff_toNat_lt, show rebaseLead.toNat = 4 from rfl, h4096,
      hbeh]
    have hg32 := g.toNat_lt
    have hs32 : baseSlot < 2 ^ 32 := by
      rw [← hslot, baseSlot_toNat]
      exact Nat.mod_lt _ (by decide)
    omega
  unfold ClientJitterBuffer.needsRebase
  cases hb : buf.needsRebase currentSlot g with
  | false => simpa [ClientJitterBuffer.needsRebase] using hb
  | true =>
      simp only [ClientJitterBuffer.needsRebase, Bool.and_eq_true, decide_eq_true_eq,
        ge_iff_le] at hb
      exact absurd ⟨hb.1.2, hb.2⟩ hor

/-! ### What a packet does -/

/-- The first packet fixes the mapping: it plays 6 slots from now. -/
theorem tracks_first {s0 p : Nat} (frames : Nat → Frame) (hpos : 0 < s0) (hhalf : s0 ≠ 32768)
    (hlt : s0 < 65536) (volume : Gain) (t : UInt64) (now : Instant) (ht : t.toNat + 6 < 2 ^ 32)
    (hp : t.toNat ≤ p) :
    Tracks s0 frames 0 (t.toNat + 6) 1 p
      ((ClientJitterBuffer.new volume).accept t now (UInt16.ofNat s0) (frames 0)) := by
  have hunwrap : (unwrapSeq (UInt16.ofNat s0) 0).toNat = s0 := by
    rw [unwrapSeq_toNat, UInt16.sub_zero, UInt16.toNat_ofNat', Nat.mod_eq_of_lt (by omega),
      if_neg hhalf]
    simp
  have hslot : (t + targetDelay).toNat = t.toNat + 6 := by
    rw [UInt64.toNat_add, show targetDelay.toNat = 6 from rfl]
    omega
  -- The base is set by this packet.
  set buf : ClientJitterBuffer Frame :=
    (ClientJitterBuffer.new volume).initBase (UInt16.ofNat s0) t with hbuf
  have hpair : buf.basePair = packBase (unwrapSeq (UInt16.ofNat s0) 0) (t + targetDelay) := rfl
  have hbase : buf.baseSeq.toNat = s0 := by rw [baseSeq_packBase hpair (by omega), hunwrap]
  have hbslot : buf.baseSlot.toNat = t.toNat + 6 := by
    rw [baseSlot_packBase hpair (by omega), hslot]
  have hg : (unwrapSeq (UInt16.ofNat (s0 + 0)) buf.baseSeq.toUInt16).toNat = s0 + 0 :=
    unwrapSeq_stream (hbase.trans (Nat.add_zero s0).symm) (by omega) (Nat.le_refl 0) (by omega)
  rw [Nat.add_zero] at hg
  have hidx : ringIndex
      (unwrapSeq (UInt16.ofNat s0) buf.baseSeq.toUInt16 - buf.baseSeq).toNat = ringIndex 0 := by
    rw [UInt32.toNat_sub, hg, hbase, ringIndex_eq_iff]
    omega
  have haccept : (ClientJitterBuffer.new volume).accept t now (UInt16.ofNat s0) (frames 0)
      = buf.writeFrame now buf.baseSeq (unwrapSeq (UInt16.ofNat s0) buf.baseSeq.toUInt16)
          (frames 0) := rfl
  rw [haccept]
  refine ⟨hbase, hpos, by omega, hbslot, ?_, by omega, by omega, by omega, ?_, ?_⟩
  · show (unwrapSeq _ _).toNat + 1 = s0 + 1
    rw [hg]
  · intro m _ hm _
    obtain rfl : m = 0 := by omega
    simp only [ClientJitterBuffer.writeFrame, hidx, Function.update_self, Nat.sub_zero]
  · intro i f hi
    simp only [ClientJitterBuffer.writeFrame, hidx] at hi
    by_cases h0 : i = ringIndex 0
    · subst h0
      rw [Function.update_self] at hi
      exact ⟨0, by omega, by omega, by omega, rfl, (Option.some.inj hi).symm⟩
    · rw [Function.update_of_ne h0] at hi
      exact absurd hi (by simp [hbuf, ClientJitterBuffer.initBase, ClientJitterBuffer.new])

/-- Writing packet `n` under the mapping in force. -/
private theorem tracks_writeFrame {s0 base baseSlot n p : Nat} {frames : Nat → Frame}
    {buf : ClientJitterBuffer Frame} (h : Tracks s0 frames base baseSlot n p buf)
    (hwin : n < base + 32768) (hlead : baseSlot + (n - base) ≤ p + 6) {g : UInt32}
    (hg : g.toNat = s0 + n) (now : Instant) :
    Tracks s0 frames base baseSlot (n + 1) p (buf.writeFrame now buf.baseSeq g (frames n)) := by
  have hstarted := h.started
  have hidx : ringIndex (g - buf.baseSeq).toNat = ringIndex (n - base) := by
    have hglt := g.toNat_lt
    rw [UInt32.toNat_sub, hg, h.baseSeq_eq, ringIndex_eq_iff]
    omega
  refine ⟨h.baseSeq_eq, h.base_pos, h.base_lt, h.baseSlot_eq, ?_, by omega, by omega, by omega,
    ?_, ?_⟩
  · show g.toNat + 1 = s0 + (n + 1)
    omega
  · intro m hbm hm hpm
    simp only [ClientJitterBuffer.writeFrame, hidx]
    by_cases hmn : m = n
    · subst hmn
      rw [Function.update_self]
    · -- A frame still to come is within 7 of packet `n`, so it sits in another ring slot.
      have hne : ringIndex (m - base) ≠ ringIndex (n - base) := by
        rw [Ne, ringIndex_eq_iff]
        omega
      rw [Function.update_of_ne hne]
      exact h.present m hbm (by omega) hpm
  · intro i f hi
    simp only [ClientJitterBuffer.writeFrame, hidx] at hi
    by_cases hin : i = ringIndex (n - base)
    · subst hin
      rw [Function.update_self] at hi
      exact ⟨n, by omega, by omega, by omega, rfl, (Option.some.inj hi).symm⟩
    · rw [Function.update_of_ne hin] at hi
      obtain ⟨m, hbm, hmn, hm64, hmi, hf⟩ := h.sound i f hi
      -- The frame of 64 packets ago sat in the slot just written.
      have hne : n ≠ m + 64 := by
        intro hnm
        apply hin
        rw [← hmi, ringIndex_eq_iff]
        omega
      exact ⟨m, hbm, by omega, by omega, hmi, hf⟩

/-- A packet at most 6 slots early and at most 3 slots late keeps the mapping. -/
theorem tracks_accept {s0 base baseSlot n p : Nat} {frames : Nat → Frame}
    {buf : ClientJitterBuffer Frame} (h : Tracks s0 frames base baseSlot n p buf)
    (hwin : n < base + 32768) (t : UInt64) (now : Instant) (htp : t.toNat ≤ p)
    (hlead : baseSlot + (n - base) ≤ t.toNat + 6)
    (hlag : t.toNat ≤ baseSlot + (n - base) + 3) :
    Tracks s0 frames base baseSlot (n + 1) p
      (buf.accept t now (UInt16.ofNat (s0 + n)) (frames n)) := by
  have hstarted := h.started
  have hpos := h.base_pos
  have hg := unwrapSeq_stream h.baseSeq_eq h.base_lt (by omega) hwin
  have hpair : buf.basePair ≠ 0 := basePair_ne_zero (by rw [h.baseSeq_eq]; omega)
  have hstray := isStray_succ h.writeSeq_eq hg
  have hrebase := needsRebase_eq_false h.baseSeq_eq h.baseSlot_eq hg (by omega) hlead hlag
  have haccept : buf.accept t now (UInt16.ofNat (s0 + n)) (frames n)
      = buf.writeFrame now buf.baseSeq (unwrapSeq (UInt16.ofNat (s0 + n)) buf.baseSeq.toUInt16)
          (frames n) := by
    simp only [ClientJitterBuffer.accept, initBase_of_ne_zero hpair, hstray, hrebase,
      Bool.false_eq_true, if_false]
  rw [haccept]
  exact tracks_writeFrame h hwin (by omega) hg now

/-- The packet at distance 32768 from the base is dropped: `unwrapSeq` puts it 65535 behind the
last one. -/
theorem accept_half {s0 base baseSlot n p : Nat} {frames : Nat → Frame}
    {buf : ClientJitterBuffer Frame} (h : Tracks s0 frames base baseSlot n p buf)
    (hn : n = base + 32768) (t : UInt64) (now : Instant) :
    buf.accept t now (UInt16.ofNat (s0 + n)) (frames n) = buf := by
  have hpos := h.base_pos
  have hbase := h.base_lt
  have hwrite := h.writeSeq_eq
  have hpair : buf.basePair ≠ 0 := basePair_ne_zero (by rw [h.baseSeq_eq]; omega)
  have hb16 : buf.baseSeq.toUInt16 = UInt16.ofNat (s0 + base) := by
    apply UInt16.toNat_inj.mp
    rw [UInt32.toNat_toUInt16, h.baseSeq_eq, UInt16.toNat_ofNat']
  have hdist := toNat_ofNat_sub_ofNat (a := s0 + n) (b := s0 + base) (by omega) (by omega)
  have hg : (unwrapSeq (UInt16.ofNat (s0 + n)) buf.baseSeq.toUInt16).toNat
      = (s0 + base + (2 ^ 32 - 32768)) % 2 ^ 32 := by
    rw [hb16, unwrapSeq_toNat, hdist, UInt16.toNat_ofNat', if_pos (by omega)]
    omega
  set g := unwrapSeq (UInt16.ofNat (s0 + n)) buf.baseSeq.toUInt16 with hgdef
  have hstray : buf.isStray g = true := isStray_of_far (by omega) (by omega) (by omega)
  simp only [ClientJitterBuffer.accept, initBase_of_ne_zero hpair, ← hgdef, hstray, if_true]

/-! ### What mixing a slot does -/

/-- Emptying the slot just mixed keeps the tracking. -/
private theorem tracks_clear {s0 base baseSlot n p : Nat} {frames : Nat → Frame}
    {buf : ClientJitterBuffer Frame} (h : Tracks s0 frames base baseSlot n p buf)
    (hp : baseSlot ≤ p) (pool : List Frame) :
    Tracks s0 frames base baseSlot n (p + 1)
      { buf with
          slots := Function.update buf.slots (ringIndex (p - baseSlot)) none
          framePool := pool } := by
  have hlead := h.lead
  refine ⟨h.baseSeq_eq, h.base_pos, h.base_lt, h.baseSlot_eq, h.writeSeq_eq, h.started, h.window,
    by omega, ?_, ?_⟩
  · intro m hbm hmn hpm
    have hne : ringIndex (m - base) ≠ ringIndex (p - baseSlot) := by
      rw [Ne, ringIndex_eq_iff]
      omega
    show Function.update _ _ _ _ = _
    rw [Function.update_of_ne hne]
    exact h.present m hbm hmn (by omega)
  · intro i f hi
    change Function.update _ _ _ _ = _ at hi
    by_cases hip : i = ringIndex (p - baseSlot)
    · rw [hip, Function.update_self] at hi
      exact absurd hi (by simp)
    · rw [Function.update_of_ne hip] at hi
      exact h.sound i f hi

/-- A slot that passes without a frame keeps the tracking. -/
private theorem tracks_skip {s0 base baseSlot n p : Nat} {frames : Nat → Frame}
    {buf : ClientJitterBuffer Frame} (h : Tracks s0 frames base baseSlot n p buf) :
    Tracks s0 frames base baseSlot n (p + 1) buf := by
  have hlead := h.lead
  exact ⟨h.baseSeq_eq, h.base_pos, h.base_lt, h.baseSlot_eq, h.writeSeq_eq, h.started, h.window,
    by omega, fun m hbm hmn hpm => h.present m hbm hmn (by omega), h.sound⟩

/-- The slot of a decoded packet: its frame is taken. -/
theorem takeFrame_present {s0 base baseSlot n p : Nat} {frames : Nat → Frame}
    {buf : ClientJitterBuffer Frame} (h : Tracks s0 frames base baseSlot n p buf)
    {slot : UInt64} (hslot : slot.toNat = p) (hp : baseSlot ≤ p) (hdec : p - baseSlot < n - base) :
    (buf.takeFrame slot).2 = some (frames (base + (p - baseSlot))) ∧
      Tracks s0 frames base baseSlot n (p + 1) (buf.takeFrame slot).1 := by
  have hpos := h.base_pos
  have hwin := h.window
  have hbase := h.base_lt
  have hwrite := h.writeSeq_eq
  have hne : buf.baseSeq ≠ 0 := by
    intro h0
    have := h.baseSeq_eq
    rw [h0, show (0 : UInt32).toNat = 0 from rfl] at this
    omega
  have hexp : (slot - buf.baseSlot + buf.baseSeq.toUInt64).toNat = s0 + base + (p - baseSlot) := by
    have hlt := slot.toNat_lt
    simp only [UInt64.toNat_add, UInt64.toNat_sub, UInt32.toNat_toUInt64, h.baseSeq_eq,
      h.baseSlot_eq, hslot]
    omega
  have hge : buf.writeSeq.toUInt64 ≥ slot - buf.baseSlot + buf.baseSeq.toUInt64 := by
    show _ ≤ _
    rw [UInt64.le_iff_toNat_le, hexp, UInt32.toNat_toUInt64]
    omega
  have hidx : ringIndex (slot - buf.baseSlot + buf.baseSeq.toUInt64
      - buf.baseSeq.toUInt64).toNat = ringIndex (p - baseSlot) := by
    rw [UInt64.toNat_sub, hexp, UInt32.toNat_toUInt64, h.baseSeq_eq, ringIndex_eq_iff]
    omega
  have hin := h.present (base + (p - baseSlot)) (by omega) (by omega) (by omega)
  rw [show base + (p - baseSlot) - base = p - baseSlot by omega] at hin
  have htake : buf.takeFrame slot =
      ({ buf with
          slots := Function.update buf.slots (ringIndex (p - baseSlot)) none
          framePool := buf.framePool ++ [frames (base + (p - baseSlot))] },
        some (frames (base + (p - baseSlot)))) := by
    simp only [ClientJitterBuffer.takeFrame, if_neg hne, if_pos hge, hidx, hin]
  rw [htake]
  exact ⟨rfl, tracks_clear h hp _⟩

/-- Any other slot: nothing is taken. Before the first packet's slot the ring index points at one
of the last six slots, which hold nothing yet. After the last decoded packet the reader's number
is past `writeSeq`. -/
theorem takeFrame_absent {s0 base baseSlot n p : Nat} {frames : Nat → Frame}
    {buf : ClientJitterBuffer Frame} (h : Tracks s0 frames base baseSlot n p buf)
    {slot : UInt64} (hslot : slot.toNat = p) (hmax : p < 2 ^ 63)
    (hdec : p < baseSlot ∨ n - base ≤ p - baseSlot) :
    buf.takeFrame slot = (buf, none) ∧ Tracks s0 frames base baseSlot n (p + 1) buf := by
  have hpos := h.base_pos
  have hwin := h.window
  have hbase := h.base_lt
  have hwrite := h.writeSeq_eq
  have hstarted := h.started
  have hlead := h.lead
  refine ⟨?_, tracks_skip h⟩
  -- The number that the reader expects, in plain arithmetic modulo `2 ^ 64`.
  have hexp : (slot - buf.baseSlot + buf.baseSeq.toUInt64).toNat
      = (p + (2 ^ 64 - baseSlot) + (s0 + base)) % 2 ^ 64 := by
    have hlt := buf.baseSlot.toNat_lt
    rw [h.baseSlot_eq] at hlt
    simp only [UInt64.toNat_add, UInt64.toNat_sub, UInt32.toNat_toUInt64, h.baseSeq_eq,
      h.baseSlot_eq, hslot]
    omega
  have hslot32 : baseSlot < 2 ^ 32 := by
    rw [← h.baseSlot_eq, baseSlot_toNat]
    exact Nat.mod_lt _ (by decide)
  unfold ClientJitterBuffer.takeFrame
  split
  · rfl
  · by_cases hge : buf.writeSeq.toUInt64 ≥ slot - buf.baseSlot + buf.baseSeq.toUInt64
    · have hgeNat := UInt64.le_iff_toNat_le.mp hge
      rw [hexp, UInt32.toNat_toUInt64] at hgeNat
      -- The writer is past the number, so the slot is before the first packet's.
      have hearly : p < baseSlot := by omega
      have hempty : buf.slots (ringIndex (slot - buf.baseSlot + buf.baseSeq.toUInt64
          - buf.baseSeq.toUInt64).toNat) = none := by
        rw [Option.eq_none_iff_forall_ne_some]
        intro f hf
        obtain ⟨m, hbm, hmn, -, hmi, -⟩ := h.sound _ f hf
        rw [ringIndex_eq_iff, UInt64.toNat_sub, hexp, UInt32.toNat_toUInt64, h.baseSeq_eq] at hmi
        omega
      simp only [if_pos hge, hempty]
    · rw [if_neg hge]

end Nek0.Proofs.Audio
