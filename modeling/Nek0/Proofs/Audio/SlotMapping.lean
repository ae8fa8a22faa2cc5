import Nek0.Audio.Reception
import Nek0.Proofs.Audio.Mixing
import Nek0.Proofs.Audio.SequenceSpace

/-!
# `Nek0.Proofs.Audio.SlotMapping`: the frame that a play slot takes

Under a mapping, number `g` plays at slot `base_slot + (g - base_seq)`. The ring index is only that
slot modulo 64, so a frame that is left behind in the ring can be taken one turn later.

`timely` is the condition under which every frame is taken at its own slot (`ownSlots_of_run`): each
packet is written before its slot is mixed and less than a turn ahead of the reader, a realignment
keeps no frame that is a turn ahead, and no slot is passed while its frame stays in the ring. The
invariant is `InWindow`: every frame in the ring belongs to one of the next 64 slots.
-/

set_option autoImplicit false

namespace Nek0.Proofs.Audio

open Nek0.Audio
open Nek0.Audio.ClientJitterBuffer (rehomeSlot)
open Nek0.Audio.Reception (system)
open Nek0.Native (Instant)

variable {Frame : Type}

/-- The play slot of number `g` under the buffer's mapping. -/
def playSlot {Frame : Type} (buf : ClientJitterBuffer Frame) (g : UInt32) : ℤ :=
  buf.baseSlot.toNat + g.toNat - buf.baseSeq.toNat

/-- The frames that a realignment onto `g` keeps are less than a turn ahead of the reader. -/
def keepsWindow (n : Nat) (buf : ClientJitterBuffer (Numbered Frame)) (t : UInt64) (g : UInt32) :
    Prop :=
  ∀ i, ∀ f ∈ buf.slots i, g ≤ f.number →
    t.toNat + 6 + (f.number.toNat - g.toNat) < n + 64

instance (n : Nat) (buf : ClientJitterBuffer (Numbered Frame)) (t : UInt64) (g : UInt32) :
    Decidable (keepsWindow n buf t g) :=
  inferInstanceAs (Decidable (∀ i : Fin jitterSlots, ∀ f ∈ buf.slots i, _ → _))

/-- The packet's slot, under the mapping in force once it is written, is still to come and less than
a turn ahead. -/
def writesInTime (n : Nat) (buf : ClientJitterBuffer (Numbered Frame)) (t : UInt64) (g : UInt32) :
    Prop :=
  if buf.needsRebase t g then
    t.toNat + 6 < 2 ^ 32 ∧ n ≤ t.toNat + 6 ∧ keepsWindow n buf t g
  else (n : ℤ) ≤ playSlot buf g ∧ playSlot buf g < n + 64

instance (n : Nat) (buf : ClientJitterBuffer (Numbered Frame)) (t : UInt64) (g : UInt32) :
    Decidable (writesInTime n buf t g) :=
  inferInstanceAs (Decidable (if buf.needsRebase t g then
    t.toNat + 6 < 2 ^ 32 ∧ n ≤ t.toNat + 6 ∧ keepsWindow n buf t g
    else (n : ℤ) ≤ playSlot buf g ∧ playSlot buf g < n + 64))

/-- When the slot is mixed, its ring slot is empty, or its frame is taken. -/
def leavesNothing (isMixed : Bool) (slot : UInt64) (buf : ClientJitterBuffer (Numbered Frame)) :
    Prop :=
  (buf.slots (ringIndex (slot - buf.baseSlot).toNat)).isNone = true ∨
    (isMixed = true ∧ buf.baseSeq ≠ 0 ∧
      slot - buf.baseSlot + buf.baseSeq.toUInt64 ≤ buf.writeSeq.toUInt64)

instance (isMixed : Bool) (slot : UInt64) (buf : ClientJitterBuffer (Numbered Frame)) :
    Decidable (leavesNothing isMixed slot buf) :=
  inferInstanceAs (Decidable (_ = true ∨ (isMixed = true ∧ ¬ buf.baseSeq = 0 ∧
    slot - buf.baseSlot + buf.baseSeq.toUInt64 ≤ buf.writeSeq.toUInt64)))

/-- The condition under which every frame is taken at its own slot. -/
def timely (client : UInt16) (p : Reception Frame) : Reception.Event Frame → Prop
  | .packet seq played _ decoded =>
      Reception.isAccepted client seq (played / frameSize) decoded p.audio = true →
        writesInTime p.nextSlot
          ((Reception.entry client p.audio).initBase seq (played / frameSize))
          (played / frameSize) (Reception.number client seq (played / frameSize) p.audio)
  | .mix ids =>
      ∀ buf ∈ p.audio.clientBuffers client,
        leavesNothing (decide (client ∈ ids)) (UInt64.ofNat p.nextSlot) buf
  | _ => True

instance (client : UInt16) (p : Reception Frame) (e : Reception.Event Frame) :
    Decidable (timely client p e) :=
  match e with
  | .packet seq played _ decoded =>
      inferInstanceAs (Decidable
        (Reception.isAccepted client seq (played / frameSize) decoded p.audio = true →
          writesInTime p.nextSlot
            ((Reception.entry client p.audio).initBase seq (played / frameSize))
            (played / frameSize) (Reception.number client seq (played / frameSize) p.audio)))
  | .otherPacket _ _ _ _ _ => .isTrue trivial
  | .mix ids =>
      inferInstanceAs (Decidable (∀ buf ∈ p.audio.clientBuffers client,
        leavesNothing (decide (client ∈ ids)) (UInt64.ofNat p.nextSlot) buf))
  | .cleanUp _ => .isTrue trivial
  | .restart => .isTrue trivial

/-- Every frame in the ring belongs to one of the 64 slots from `n` on, and lies in the ring slot of
its number. -/
def InWindow (n : Nat) (buf : ClientJitterBuffer (Numbered Frame)) : Prop :=
  ∀ i f, buf.slots i = some f →
    (n : ℤ) ≤ playSlot buf f.number ∧ playSlot buf f.number < n + 64 ∧
      (i.val : ℤ) = ((f.number.toNat : ℤ) - buf.baseSeq.toNat) % 64

/-! ### Ring indices -/

/-- The writer's ring index. -/
theorem ringIndex_of_number (g base : UInt32) :
    ((ringIndex (g - base).toNat).val : ℤ) = ((g.toNat : ℤ) - base.toNat) % 64 := by
  have hg := g.toNat_lt
  have hb := base.toNat_lt
  show (((g - base).toNat % 64 : Nat) : ℤ) = _
  rw [UInt32.toNat_sub]
  omega

/-- The reader's ring index. -/
theorem ringIndex_of_slot (slot baseSlot baseSeq : UInt64) :
    ((ringIndex (slot - baseSlot + baseSeq - baseSeq).toNat).val : ℤ) =
      ((slot.toNat : ℤ) - baseSlot.toNat) % 64 := by
  have hs := slot.toNat_lt
  have hb := baseSlot.toNat_lt
  rw [UInt64.add_sub_cancel]
  show (((slot - baseSlot).toNat % 64 : Nat) : ℤ) = _
  rw [UInt64.toNat_sub]
  omega

/-! ### Writing -/

/-- A frame written in time joins the window. -/
theorem inWindow_writeFrame {n : Nat} {buf : ClientJitterBuffer (Numbered Frame)}
    (h : InWindow n buf) {g : UInt32} (hlow : (n : ℤ) ≤ playSlot buf g)
    (hhigh : playSlot buf g < n + 64) (now : Instant) (frame : Frame) :
    InWindow n (buf.writeFrame now buf.baseSeq g ⟨g, frame⟩) := by
  intro i f hi
  simp only [ClientJitterBuffer.writeFrame] at hi
  by_cases hidx : i = ringIndex (g - buf.baseSeq).toNat
  · subst hidx
    rw [Function.update_self] at hi
    obtain rfl := Option.some.inj hi
    exact ⟨hlow, hhigh, ringIndex_of_number g buf.baseSeq⟩
  · rw [Function.update_of_ne hidx] at hi
    exact h i f hi

/-! ### Realigning -/

/-- One round moves the frame of slot `i`, or drops it. -/
theorem rehomeSlot_cases {oldBase newBase : UInt32}
    (st : (Fin jitterSlots → Option Frame) × List Frame) (i : Fin jitterSlots) {j : Fin jitterSlots}
    {f : Frame} (h : (rehomeSlot oldBase newBase st i).1 j = some f) :
    (j ≠ i ∧ st.1 j = some f) ∨
      (st.1 i = some f ∧ (oldBase + UInt32.ofNat i.val - newBase).toNat = j.val) := by
  unfold rehomeSlot at h
  split at h
  · rename_i hnone
    refine .inl ⟨?_, h⟩
    rintro rfl
    rw [hnone] at h
    cases h
  · rename_i frame hsome
    have hkept : ∀ k, Function.update st.1 i none k = some f → k ≠ i ∧ st.1 k = some f := by
      intro k hk
      by_cases hki : k = i
      · rw [hki, Function.update_self] at hk
        cases hk
      · rw [Function.update_of_ne hki] at hk
        exact ⟨hki, hk⟩
    dsimp only at h
    split at h
    · rename_i hdist
      dsimp only at h
      by_cases hj : j = ⟨(oldBase + UInt32.ofNat i.val - newBase).toNat, hdist⟩
      · subst hj
        rw [Function.update_self] at h
        obtain rfl := Option.some.inj h
        exact .inr ⟨hsome, rfl⟩
      · rw [Function.update_of_ne hj] at h
        exact .inl (hkept j h)
    · exact .inl (hkept j h)

/-- When frames move down or stay, each comes from the slot that the loop took it out of. -/
theorem rehome_down {oldBase newBase : UInt32} {orig : Fin jitterSlots → Option Frame}
    (hdown : ∀ i : Fin jitterSlots, orig i ≠ none →
      (oldBase + UInt32.ofNat i.val - newBase).toNat < jitterSlots →
      (oldBase + UInt32.ofNat i.val - newBase).toNat ≤ i.val)
    (is : List (Fin jitterSlots)) (hsorted : is.Pairwise (· < ·))
    (st : (Fin jitterSlots → Option Frame) × List Frame)
    (hst : ∀ j f, st.1 j = some f → (j ∈ is ∧ orig j = some f) ∨
      (j ∉ is ∧ ∃ i, orig i = some f ∧ (oldBase + UInt32.ofNat i.val - newBase).toNat = j.val)) :
    ∀ j f, (is.foldl (rehomeSlot oldBase newBase) st).1 j = some f →
      ∃ i, orig i = some f ∧ (oldBase + UInt32.ofNat i.val - newBase).toNat = j.val := by
  induction is generalizing st with
  | nil =>
      intro j f hj
      rcases hst j f hj with ⟨hmem, _⟩ | ⟨_, hfrom⟩
      · cases hmem
      · exact hfrom
  | cons i is ih =>
      obtain ⟨hlt, hsorted⟩ := List.pairwise_cons.mp hsorted
      refine ih hsorted _ ?_
      intro j f hj
      rcases rehomeSlot_cases st i hj with ⟨hne, hj⟩ | ⟨hi, hdist⟩
      · rcases hst j f hj with ⟨hmem, horig⟩ | ⟨hnot, hfrom⟩
        · exact .inl ⟨(List.mem_cons.mp hmem).resolve_left hne, horig⟩
        · exact .inr ⟨fun hmem => hnot (.tail _ hmem), hfrom⟩
      · -- The frame of slot `i` has moved down, out of what the loop still visits.
        rcases hst i f hi with ⟨_, horig⟩ | ⟨hnot, _⟩
        · refine .inr ⟨?_, i, horig, hdist⟩
          intro hmem
          have hle := hdown i (by rw [horig]; exact Option.some_ne_none f)
            (by rw [hdist]; exact j.isLt)
          have hji := hlt j hmem
          rw [Fin.lt_def] at hji
          omega
        · exact absurd List.mem_cons_self hnot

/-- When frames move up, the loop meets each of them again until it drops it. -/
theorem rehome_up {oldBase newBase : UInt32}
    (hup : ∀ i : Fin jitterSlots,
      (oldBase + UInt32.ofNat i.val - newBase).toNat < jitterSlots →
      i.val < (oldBase + UInt32.ofNat i.val - newBase).toNat)
    (is : List (Fin jitterSlots)) (hclosed : ∀ i ∈ is, ∀ j, i < j → j ∈ is)
    (hsorted : is.Pairwise (· < ·)) (st : (Fin jitterSlots → Option Frame) × List Frame)
    (hst : ∀ j f, st.1 j = some f → j ∈ is) :
    ∀ j f, (is.foldl (rehomeSlot oldBase newBase) st).1 j ≠ some f := by
  induction is generalizing st with
  | nil =>
      intro j f hj
      exact absurd (hst j f hj) List.not_mem_nil
  | cons i is ih =>
      obtain ⟨hlt, hsorted⟩ := List.pairwise_cons.mp hsorted
      refine ih ?_ hsorted _ ?_
      · intro k hk j hkj
        rcases List.mem_cons.mp (hclosed k (.tail _ hk) j hkj) with rfl | hmem
        · exact absurd (hkj.trans (hlt k hk)) (lt_irrefl _)
        · exact hmem
      · intro j f hj
        rcases rehomeSlot_cases st i hj with ⟨hne, hj⟩ | ⟨hi, hdist⟩
        · exact (List.mem_cons.mp (hst j f hj)).resolve_left hne
        · have hij : i < j := by
            rw [Fin.lt_def]
            have := hup i (by rw [hdist]; exact j.isLt)
            omega
          rcases List.mem_cons.mp (hclosed i List.mem_cons_self j hij) with rfl | hmem
          · exact absurd hij (lt_irrefl _)
          · exact hmem

/-- The reader is 4 to 4095 frames past the packet's number when the buffer realigns. -/
theorem playSlot_of_needsRebase {buf : ClientJitterBuffer Frame} {t : UInt64} {g : UInt32}
    (h : buf.needsRebase t g = true) (ht : t.toNat < 2 ^ 63) : playSlot buf g + 4 ≤ t.toNat := by
  simp only [ClientJitterBuffer.needsRebase, Bool.and_eq_true, decide_eq_true_eq, ge_iff_le,
    UInt64.le_iff_toNat_le, UInt64.lt_iff_toNat_lt] at h
  obtain ⟨⟨_, hge⟩, hlt⟩ := h
  have hbslot : buf.baseSlot.toNat < 2 ^ 32 := by
    rw [baseSlot_toNat]
    exact Nat.mod_lt _ (by decide)
  have hbase := buf.baseSeq.toNat_lt
  have hg := g.toNat_lt
  rw [show rebaseLead.toNat = 4 from rfl] at hge
  rw [show (4096 : UInt64).toNat = 4096 from rfl] at hlt
  unfold ClientJitterBuffer.behind at hge hlt
  simp only [UInt64.toNat_sub, UInt64.toNat_add, UInt32.toNat_toUInt64] at hge hlt
  unfold playSlot
  omega

/-- A realignment that keeps no frame a turn ahead leaves the window in order. -/
theorem inWindow_rebase {n : Nat} {buf : ClientJitterBuffer (Numbered Frame)} (h : InWindow n buf)
    {t : UInt64} {g : UInt32} (ht : t.toNat + 6 < 2 ^ 32) (htn : t.toNat ≤ n) (hn : n ≤ t.toNat + 6)
    (hneeds : buf.needsRebase t g = true)
    (hkept : ∀ i f, buf.slots i = some f → g ≤ f.number →
      t.toNat + 6 + (f.number.toNat - g.toNat) < n + 64) : InWindow n (buf.rebase t g) := by
  have hpast := playSlot_of_needsRebase hneeds (by omega)
  have hslot : (t + targetDelay).toNat = t.toNat + 6 := by
    rw [UInt64.toNat_add, show targetDelay.toNat = 6 from rfl]
    omega
  have hpair : (buf.rebase t g).basePair = packBase g (t + targetDelay) := rfl
  have hseq : (buf.rebase t g).baseSeq.toNat = g.toNat := baseSeq_packBase hpair (by omega)
  have hbslot : (buf.rebase t g).baseSlot.toNat = t.toNat + 6 := by
    rw [baseSlot_packBase hpair (by omega), hslot]
  have hg := g.toNat_lt
  have hb := buf.baseSeq.toNat_lt
  have hdistance : ∀ i : Fin jitterSlots, (buf.baseSeq + UInt32.ofNat i.val - g).toNat =
      (buf.baseSeq.toNat + i.val + (2 ^ 32 - g.toNat)) % 2 ^ 32 := by
    intro i
    have hi : i.val < 64 := i.isLt
    rw [UInt32.toNat_sub, UInt32.toNat_add, UInt32.toNat_ofNat']
    omega
  intro j f hj
  -- A kept frame comes from a slot whose number is the one that the loop takes it for.
  suffices hfrom : ∃ i, buf.slots i = some f ∧
      (buf.baseSeq + UInt32.ofNat i.val - g).toNat = j.val by
    -- The distance between the slots is the distance between the numbers, modulo the ring.
    obtain ⟨i, hi, hdist⟩ := hfrom
    obtain ⟨hlow, hhigh, hidx⟩ := h i f hi
    have hf := f.number.toNat_lt
    have hi64 : i.val < 64 := i.isLt
    have hj64 : j.val < 64 := j.isLt
    have hgf : g.toNat < f.number.toNat := by
      unfold playSlot at hlow hpast
      omega
    have hbound := hkept i f hi (UInt32.le_iff_toNat_le.mpr hgf.le)
    rw [hdistance] at hdist
    have hnumber : f.number.toNat = g.toNat + j.val := by
      unfold playSlot at hlow hpast
      omega
    refine ⟨?_, ?_, ?_⟩
    · simp only [playSlot, hseq, hbslot]
      omega
    · simp only [playSlot, hseq, hbslot]
      omega
    · rw [hseq]
      omega
  -- Frames move down by the distance between the bases, unless the new base is just below.
  by_cases hdir : (buf.baseSeq.toNat + (2 ^ 32 - g.toNat)) % 2 ^ 32 = 0 ∨
      64 ≤ (buf.baseSeq.toNat + (2 ^ 32 - g.toNat)) % 2 ^ 32
  · refine rehome_down ?_ (List.finRange jitterSlots) (List.pairwise_lt_finRange _)
      (buf.slots, buf.framePool) (fun j f hj => .inl ⟨List.mem_finRange j, hj⟩) j f hj
    intro i hi hlt
    rw [hdistance] at hlt ⊢
    have hi64 : i.val < 64 := i.isLt
    change _ < 64 at hlt
    omega
  -- The new base is just below the old one: then every frame moves up, and none comes from above.
  · exfalso
    refine rehome_up ?_ (List.finRange jitterSlots) (fun _ _ j _ => List.mem_finRange j)
      (List.pairwise_lt_finRange _) (buf.slots, buf.framePool) (fun j _ _ => List.mem_finRange j)
      j f hj
    intro i hlt
    rw [hdistance] at hlt ⊢
    have hi64 : i.val < 64 := i.isLt
    change _ < 64 at hlt
    omega

/-! ### What a step does to the buffer -/

/-- A buffer whose mapping is set, with the window in order. -/
structure Mapped (n : Nat) (buf : ClientJitterBuffer (Numbered Frame)) : Prop where
  pair_ne : buf.basePair ≠ 0
  window : InWindow n buf

/-- A base with a play slot is not the unset one. -/
theorem packBase_ne_zero (seq : UInt32) {slot : UInt64} (h : 0 < slot.toNat) :
    packBase seq slot ≠ 0 := by
  intro h0
  have hle := Nat.right_le_or (n := seq.toNat * 2 ^ 32) (m := slot.toNat)
  rw [← packBase_toNat, h0] at hle
  have hz : (0 : UInt64).toNat = 0 := rfl
  omega

/-- The frame that a slot takes belongs to it. -/
theorem takeFrame_number {n : Nat} {buf : ClientJitterBuffer (Numbered Frame)} (h : InWindow n buf)
    {slot : UInt64} (hslot : slot.toNat = n) {f : Numbered Frame}
    (htake : (buf.takeFrame slot).2 = some f) : playSlot buf f.number = n := by
  unfold ClientJitterBuffer.takeFrame at htake
  split at htake
  · cases htake
  · dsimp only at htake
    split at htake
    · split at htake
      · cases htake
      · rename_i g hg
        obtain rfl := Option.some.inj htake
        obtain ⟨hlow, hhigh, hidx⟩ := h _ _ hg
        rw [ringIndex_of_slot, hslot] at hidx
        unfold playSlot at hlow hhigh ⊢
        omega
    · cases htake

/-- A slot that leaves nothing of its own behind moves the window on. -/
theorem inWindow_succ {n : Nat} {buf buf' : ClientJitterBuffer (Numbered Frame)}
    (h : InWindow n buf) (hpair : buf'.basePair = buf.basePair) {slot : UInt64}
    (hslot : slot.toNat = n)
    (hslots : ∀ i f, buf'.slots i = some f →
      buf.slots i = some f ∧ i ≠ ringIndex (slot - buf.baseSlot).toNat) :
    InWindow (n + 1) buf' := by
  intro i f hi
  obtain ⟨hold, hne⟩ := hslots i f hi
  obtain ⟨hlow, hhigh, hidx⟩ := h i f hold
  have hval : i.val ≠ (ringIndex (slot - buf.baseSlot).toNat).val := fun heq => hne (Fin.ext heq)
  have hring := ringIndex_of_slot slot buf.baseSlot 0
  rw [UInt64.add_zero, UInt64.sub_zero, hslot] at hring
  have hseq : buf'.baseSeq = buf.baseSeq := by
    unfold ClientJitterBuffer.baseSeq
    rw [hpair]
  have hbslot : buf'.baseSlot = buf.baseSlot := by
    unfold ClientJitterBuffer.baseSlot
    rw [hpair]
  unfold playSlot at hlow hhigh ⊢
  rw [hseq, hbslot]
  refine ⟨?_, ?_, hidx⟩
  · omega
  · omega

/-- The client's turn takes the frame of the slot, or nothing is there. -/
theorem mapped_takeFrame {n : Nat} {buf : ClientJitterBuffer (Numbered Frame)} (h : Mapped n buf)
    {slot : UInt64} (hslot : slot.toNat = n)
    (hok : leavesNothing true slot buf) : Mapped (n + 1) (buf.takeFrame slot).1 := by
  have hidx : ringIndex (slot - buf.baseSlot + buf.baseSeq.toUInt64
      - buf.baseSeq.toUInt64).toNat = ringIndex (slot - buf.baseSlot).toNat := by
    rw [UInt64.add_sub_cancel]
  have hkeep : buf.slots (ringIndex (slot - buf.baseSlot).toNat) = none →
      Mapped (n + 1) buf := by
    intro hnone
    refine ⟨h.pair_ne, inWindow_succ h.window rfl hslot ?_⟩
    rintro i f hi
    refine ⟨hi, ?_⟩
    rintro rfl
    rw [hnone] at hi
    cases hi
  unfold ClientJitterBuffer.takeFrame
  dsimp only
  rw [hidx]
  split
  · rename_i hzero
    exact hkeep (Option.isNone_iff_eq_none.mp (hok.resolve_right fun hr => hr.2.1 hzero))
  · split
    · split
      · rename_i hnone
        exact hkeep hnone
      · refine ⟨h.pair_ne, inWindow_succ h.window rfl hslot ?_⟩
        intro i f hi
        by_cases hi' : i = ringIndex (slot - buf.baseSlot).toNat
        · simp only [hi', Function.update_self] at hi
          cases hi
        · simp only [Function.update_of_ne hi'] at hi
          exact ⟨hi, hi'⟩
    · rename_i hlt
      exact hkeep (Option.isNone_iff_eq_none.mp (hok.resolve_right fun hr => hlt hr.2.2))

/-- An accepted packet in time joins the window. -/
theorem mapped_accept {n : Nat} {buf : ClientJitterBuffer (Numbered Frame)}
    (h : buf.basePair ≠ 0 ∧ InWindow n buf ∨ ∀ i, buf.slots i = none) {seq : UInt16} {t : UInt64}
    (ht : t.toNat < 2 ^ 63) (htn : t.toNat ≤ n) (now : Instant) {g : UInt32} (frame : Frame)
    (hg : unwrapSeq seq (buf.initBase seq t).baseSeq.toUInt16 = g)
    (hok : (buf.initBase seq t).isStray g = false → writesInTime n (buf.initBase seq t) t g) :
    Mapped n (buf.accept t now seq ⟨g, frame⟩) := by
  have hslot : 0 < (t + targetDelay).toNat := by
    rw [UInt64.toNat_add, show targetDelay.toNat = 6 from rfl]
    omega
  -- Without a base the ring is empty, and the first packet sets one.
  have hinit : Mapped n (buf.initBase seq t) := by
    unfold ClientJitterBuffer.initBase
    split
    · rename_i hzero
      refine ⟨packBase_ne_zero _ hslot, ?_⟩
      rcases h with ⟨hne, _⟩ | hnone
      · exact absurd hzero hne
      · intro i f hi
        simp only [hnone] at hi
        cases hi
    · rename_i hne
      rcases h with hmapped | hnone
      · exact ⟨hmapped.1, hmapped.2⟩
      · refine ⟨hne, ?_⟩
        intro i f hi
        rw [hnone] at hi
        cases hi
  unfold ClientJitterBuffer.accept
  dsimp only
  rw [hg]
  -- A stray packet changes nothing else.
  split
  · exact hinit
  · rename_i hstray
    have hok := hok (by simpa using hstray)
    unfold writesInTime at hok
    -- Is the number outside of the window?
    split
    · rename_i hneeds
      rw [if_pos hneeds] at hok
      obtain ⟨h32, hn, hkept⟩ := hok
      -- After the realignment the packet is the new base, at the delay from now.
      have hwindow := inWindow_rebase hinit.window h32 htn hn hneeds fun i f hi => hkept i f hi
      have hpair : ((buf.initBase seq t).rebase t g).basePair = packBase g (t + targetDelay) := rfl
      have h6 : (t + targetDelay).toNat = t.toNat + 6 := by
        rw [UInt64.toNat_add, show targetDelay.toNat = 6 from rfl]
        omega
      have hbase : ((buf.initBase seq t).rebase t g).baseSeq = g :=
        UInt32.toNat_inj.mp (baseSeq_packBase hpair (by omega))
      have hnew : playSlot ((buf.initBase seq t).rebase t g) g = t.toNat + 6 := by
        rw [playSlot, hbase, baseSlot_packBase hpair (by omega), h6]
        omega
      have hwritten : InWindow n
        (((buf.initBase seq t).rebase t g).writeFrame now _ g ⟨g, frame⟩) :=
        inWindow_writeFrame hwindow (by omega) (by omega) now frame
      rw [hbase] at hwritten
      exact ⟨packBase_ne_zero _ hslot, hwritten⟩
    · rename_i hneeds
      rw [if_neg hneeds] at hok
      exact ⟨hinit.pair_ne, inWindow_writeFrame hinit.window hok.1 hok.2 now frame⟩

/-! ### Runs -/

/-- Every frame was taken at its own slot: the one that the mapping then in force gives its number.
-/
def OwnSlots (p : Reception Frame) : Prop :=
  ∀ x ∈ p.taken, (x.slot : ℤ) = x.baseSlot.toNat + x.frame.number.toNat - x.baseSeq.toNat

/-- What holds along a timely run. -/
structure InTime (client : UInt16) (p : Reception Frame) : Prop where
  mapped : ∀ buf ∈ p.audio.clientBuffers client, Mapped p.nextSlot buf
  own : OwnSlots p

/-- A packet of the client in time keeps its buffer mapped. -/
theorem inTime_packet {client : UInt16} {p : Reception Frame} (h : InTime client p)
    {seq : UInt16} {played : UInt64} {now : Instant} {decoded : Option Frame}
    (hok : timely client p (.packet seq played now decoded))
    (hslot : (played / frameSize).toNat ≤ p.nextSlot) :
    ∀ buf ∈ (Reception.decode client seq played now decoded p.audio).clientBuffers client,
      Mapped p.nextSlot buf := by
  intro buf hbuf
  rw [decode_self] at hbuf
  cases decoded with
  | none => exact h.mapped buf hbuf
  | some frame =>
      obtain rfl := Option.some.inj hbuf
      have hlt : (played / frameSize).toNat < 2 ^ 63 := by
        have hp := played.toNat_lt
        rw [UInt64.toNat_div, show frameSize.toNat = 960 from rfl]
        omega
      -- The buffer is an old one, or a new and empty one.
      refine mapped_accept ?_ hlt hslot now frame rfl ?_
      · unfold Reception.entry
        cases hentry : p.audio.clientBuffers client with
        | none => exact .inr fun i => rfl
        | some old =>
            have hmapped := h.mapped old hentry
            exact .inl ⟨hmapped.pair_ne, hmapped.window⟩
      · intro hstray
        refine hok ?_
        rw [Reception.isAccepted, hstray]
        rfl

/-- Mixing a slot keeps the client in time: its frame is taken at its own slot. -/
theorem inTime_mix {client : UInt16} {p : Reception Frame} (h : InTime client p) {ids : List UInt16}
    (hok : timely client p (.mix ids)) (hnodup : ids.Nodup)
    (hcount : p.nextSlot * frameSize.toNat < 2 ^ 64) {p' : Reception Frame}
    (hnext : Reception.next client (.mix ids) p = some p') : InTime client p' := by
  have hslot : (UInt64.ofNat p.nextSlot).toNat = p.nextSlot := by
    rw [show frameSize.toNat = 960 from rfl] at hcount
    exact UInt64.toNat_ofNat_of_lt' (by rw [UInt64.size]; omega)
  obtain ⟨hbuffer, hshare⟩ := @mixSlot_buffer _ client p.audio _ hnodup
    (UInt64.ofNat p.nextSlot)
  simp only [Reception.next, if_pos (And.intro hnodup hcount), Option.some.injEq] at hnext
  subst hnext
  refine ⟨?_, ?_⟩
  · intro buf hbuf
    rw [Option.mem_def, hbuffer] at hbuf
    by_cases hid : client ∈ ids
    · rw [if_pos hid, Option.map_eq_some_iff] at hbuf
      obtain ⟨old, hold, rfl⟩ := hbuf
      refine mapped_takeFrame (h.mapped old hold) hslot ?_
      have hleaves := hok old hold
      rwa [decide_eq_true hid] at hleaves
    · -- The slot passes without the client: nothing of it is in the ring.
      rw [if_neg hid] at hbuf
      have hnone := Option.isNone_iff_eq_none.mp
        ((hok buf hbuf).resolve_right fun hr => hid (of_decide_eq_true hr.1))
      have hmapped := h.mapped buf hbuf
      refine ⟨hmapped.pair_ne, inWindow_succ hmapped.window rfl hslot ?_⟩
      rintro i f hi
      refine ⟨hi, ?_⟩
      rintro rfl
      rw [hnone] at hi
      cases hi
  -- What was taken now is at this slot, and its number is the one that is mapped to it.
  · intro x hx
    rcases List.mem_append.mp hx with hold | hnew
    · exact h.own x hold
    · obtain ⟨y, hy, rfl⟩ := List.mem_map.mp hnew
      change y ∈ share client _ at hy
      rw [hshare] at hy
      split at hy
      -- The client takes part, and its ring may have nothing at this slot.
      · cases hbuf : p.audio.clientBuffers client with
        | none =>
            rw [hbuf] at hy
            cases hy
        | some buf =>
            rw [hbuf, Option.bind_some, Option.mem_toList, Option.map_eq_some_iff] at hy
            obtain ⟨f, hf, rfl⟩ := hy
            have hentry : Reception.entry client p.audio = buf := by
              unfold Reception.entry
              rw [hbuf]
              rfl
            have hnumber := takeFrame_number (h.mapped buf hbuf).window hslot hf
            rw [hentry]
            exact hnumber.symm
      · cases hy

/-- In every timely run, every frame is taken at its own slot. -/
theorem ownSlots_of_run {client : UInt16} {p : Reception Frame}
    (hrun : (system client).Run (timely client) p) : OwnSlots p := by
  suffices h : InTime client p from h.own
  refine hrun.invariant ?_ ?_
  · rintro p ⟨hnone, _, htaken⟩
    refine ⟨?_, ?_⟩
    · intro buf hbuf
      rw [hnone] at hbuf
      cases hbuf
    · intro x hx
      rw [htaken] at hx
      cases hx
  -- A packet of the client, of another one, a mixed slot, a clean-up, or a restart of the stream.
  · intro p p' e h hok hnext
    cases e with
    | packet seq played now decoded =>
        simp only [system, Reception.next] at hnext
        split at hnext
        · rename_i hslot
          obtain rfl := Option.some.inj hnext
          exact ⟨inTime_packet h hok hslot, h.own⟩
        · cases hnext
    | otherPacket from_ seq played now decoded =>
        simp only [system, Reception.next] at hnext
        split at hnext
        · cases hnext
        · rename_i hne
          obtain rfl := Option.some.inj hnext
          refine ⟨?_, h.own⟩
          intro buf hbuf
          rw [decode_of_ne hne] at hbuf
          exact h.mapped buf hbuf
    | mix ids =>
        by_cases hguard : ids.Nodup ∧ p.nextSlot * frameSize.toNat < 2 ^ 64
        · exact inTime_mix h hok hguard.1 hguard.2 hnext
        · simp only [system, Reception.next, if_neg hguard] at hnext
          cases hnext
    | cleanUp now =>
        obtain rfl := Option.some.inj hnext
        refine ⟨?_, h.own⟩
        intro buf hbuf
        exact h.mapped buf (Option.mem_filter_iff.mp hbuf).1
    | restart =>
        obtain rfl := Option.some.inj hnext
        refine ⟨?_, h.own⟩
        intro buf hbuf
        cases hbuf

/-- Nobody has talked yet, and play slot 100 is the next one. -/
def silence : Reception Nat :=
  { audio :=
      { clientBuffers := fun _ => none
        playedSamples := 0
        activeClientIds := []
        clients := []
        clientVolumes := fun _ => none }
    nextSlot := 100
    accepted := []
    taken := [] }

/-- Packets 1 and 3, then 2, then 4, all before their slots are mixed. -/
def reorderedInTime : List (Reception.Event Nat) :=
  [.packet 1 96000 0 (some 10), .packet 3 96000 0 (some 30), .packet 2 96000 0 (some 20),
    .packet 4 96000 0 (some 40)] ++ List.replicate 10 (.mix [7])

/-- They are taken at slots 106 to 109. -/
theorem ownSlots_reorderedInTime : ∃ p : Reception Nat,
    p.taken.map (fun x => (x.slot, x.frame.number)) = [(106, 1), (107, 2), (108, 3), (109, 4)] ∧
      OwnSlots p := by
  obtain ⟨p, hrun, hobs⟩ := Nek0.Lib.System.Run.exists_of_exec (system 7)
    (timely 7) (fun p e => decide (timely 7 p e)) reorderedInTime
    (fun p => p.taken.map fun x => (x.slot, x.frame.number)) (fun _ _ h => of_decide_eq_true h)
    (.start (s := silence) ⟨rfl, rfl, rfl⟩)
    (a := [(106, 1), (107, 2), (108, 3), (109, 4)]) (by decide +kernel)
  exact ⟨p, hobs, ownSlots_of_run hrun⟩

/-- Packet 2 arrives after its slot 107 was mixed, packet 66 is lost, and packet 70 is in time. -/
def lateAndLost : List (Reception.Event Nat) :=
  [.packet 1 96000 0 (some 10)] ++ List.replicate 8 (.mix [7]) ++
    [.packet 2 103680 0 (some 20)] ++ List.replicate 63 (.mix [7]) ++
    [.packet 70 164160 0 (some 700), .mix [7]]

/-- Slot 171, which belongs to packet 66, takes packet 2. -/
theorem not_ownSlots : ¬ ∀ p : Reception Nat, (system 7).Reachable p → OwnSlots p := by
  intro hall
  obtain ⟨p, hrun, hobs⟩ := Nek0.Lib.System.Run.exists_of_exec (system 7)
    (fun _ _ => True) (fun _ _ => true) lateAndLost
    (fun p => p.taken.getLast?) (fun _ _ _ => trivial) (.start (s := silence) ⟨rfl, rfl, rfl⟩)
    (a := some ⟨171, 1, 106, ⟨2, 20⟩⟩) (by decide +kernel)
  have h := hall p hrun _ (List.mem_of_getLast? hobs)
  revert h
  decide

end Nek0.Proofs.Audio
