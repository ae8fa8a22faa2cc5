import Nek0.Lib.Slots
import Nek0.Proofs.Audio.SlotMapping

/-!
# `Nek0.Proofs.Audio.Rehoming`: what a realignment keeps

The rebase loop takes the frame of slot `i` for the frame of number `old_base + i`. This is its
number only if it lies less than 64 numbers after the old base: a packet that is further ahead
shares its slot with an older number. A frame that is taken for an older one is dropped, and one
that is taken for a newer one stays in the ring.

`rehome_take` says what the ring holds after each round when the new base is 0 to 63 numbers ahead.
When it is just behind the old base, the loop moves frames up into slots that it has not visited,
meets them again, and drops them all in the end (`rehome_up`).
-/

set_option autoImplicit false

namespace Nek0.Proofs.Audio

open Nek0.Audio
open Nek0.Audio.ClientJitterBuffer (rehomeSlot)
open Nek0.Audio.Reception (system)
open Nek0.Lib.Slots
open Nek0.Native (Instant)

variable {Frame : Type}

/-- The number is one of the 64 from `newBase` on. -/
def isPlayable (newBase g : UInt32) : Bool := decide ((g - newBase).toNat < jitterSlots)

/-- The ring holds the frames that are still playable, each at its slot under the new base, and the
other ones have moved to the pool. -/
structure KeepsPlayable (buf buf' : ClientJitterBuffer (Numbered Frame)) (newBase : UInt32) :
    Prop where
  ring : ∀ j f, buf'.slots j = some f ↔
    ∃ i, buf.slots i = some f ∧ (f.number - newBase).toNat = j.val
  pool : (buf'.framePool : Multiset (Numbered Frame)) =
    buf.framePool + contents fun i => (buf.slots i).filter fun f => !isPlayable newBase f.number

/-- The number that the frame of slot `i` is taken for. -/
def inferred (buf : ClientJitterBuffer (Numbered Frame)) (i : Fin jitterSlots) : UInt32 :=
  buf.baseSeq + UInt32.ofNat i.val

/-- The new base is 0 to 63 numbers ahead of the old one. -/
def isAhead (buf : ClientJitterBuffer (Numbered Frame)) (newBase : UInt32) : Bool :=
  isPlayable buf.baseSeq newBase

/-- A frame that is playable under the new base, or is taken for a playable one, has the number that
it is taken for. -/
def OwnNumbers (buf : ClientJitterBuffer (Numbered Frame)) (newBase : UInt32) : Prop :=
  ∀ i f, buf.slots i = some f →
    (isPlayable newBase f.number = true ∨
      (isAhead buf newBase = true ∧ isPlayable newBase (inferred buf i) = true)) →
    isAhead buf newBase = true ∧ f.number = inferred buf i

/-! ### The loop -/

/-- No round loses a frame or makes one up. -/
theorem contents_rehomeSlot (oldBase newBase : UInt32)
    (st : (Fin jitterSlots → Option Frame) × List Frame) (i : Fin jitterSlots) :
    contents (rehomeSlot oldBase newBase st i).1 +
        ((rehomeSlot oldBase newBase st i).2 : Multiset Frame) =
      contents st.1 + (st.2 : Multiset Frame) := by
  unfold rehomeSlot
  cases hi : st.1 i with
  | none => rfl
  | some frame =>
      have hout := contents_update st.1 i none
      rw [hi, Option.toList_none, Multiset.coe_nil, add_zero] at hout
      dsimp only
      split
      · next h =>
          -- The frame goes in, and what was there goes to the pool.
          have hin := contents_update (Function.update st.1 i none) ⟨_, h⟩ (some frame)
          rw [← Multiset.coe_add, add_comm (st.2 : Multiset Frame), ← add_assoc, hin, hout]
      · rw [← Multiset.coe_add, add_comm (st.2 : Multiset Frame), ← add_assoc, ← hout]
        rfl

/-- The loop neither loses a buffer nor doubles one. -/
theorem contents_rehome (oldBase newBase : UInt32) (is : List (Fin jitterSlots))
    (st : (Fin jitterSlots → Option Frame) × List Frame) :
    contents (is.foldl (rehomeSlot oldBase newBase) st).1 +
        ((is.foldl (rehomeSlot oldBase newBase) st).2 : Multiset Frame) =
      contents st.1 + (st.2 : Multiset Frame) := by
  induction is generalizing st with
  | nil => rfl
  | cons i is ih => rw [List.foldl_cons, ih, contents_rehomeSlot]

/-- The slot of a number, and nothing behind the last slot. -/
def slotAt? (slots : Fin jitterSlots → Option Frame) (n : Nat) : Option Frame :=
  if h : n < jitterSlots then slots ⟨n, h⟩ else none

theorem slotAt?_of_lt (slots : Fin jitterSlots → Option Frame) {n : Nat} (h : n < jitterSlots) :
    slotAt? slots n = slots ⟨n, h⟩ := dif_pos h

theorem slotAt?_val (slots : Fin jitterSlots → Option Frame) (i : Fin jitterSlots) :
    slotAt? slots i.val = slots i := slotAt?_of_lt slots i.isLt

/-- The ring after `k` rounds when the new base is `d` numbers ahead: the slots that were visited
hold the frames that moved down, and the others are as before. -/
def stage (slots : Fin jitterSlots → Option Frame) (d k : Nat) (j : Fin jitterSlots) :
    Option Frame :=
  if k ≤ j.val then slots j else if j.val + d < k then slotAt? slots (j.val + d) else none

section Ahead

variable {oldBase newBase : UInt32} {d : Nat}

/-- The distance of the number that slot `i` is taken for. -/
theorem rehome_distance (hd : (newBase - oldBase).toNat = d) {k : Nat} (hk : k < jitterSlots) :
    (oldBase + UInt32.ofNat k - newBase).toNat = if d ≤ k then k - d else 2 ^ 32 + k - d := by
  have hold := oldBase.toNat_lt
  have hnew := newBase.toNat_lt
  change k < 64 at hk
  rw [UInt32.toNat_sub] at hd
  rw [UInt32.toNat_sub, UInt32.toNat_add, UInt32.toNat_ofNat']
  split <;> omega

/-- A round of the loop touches its own slot and the one that it writes to. -/
theorem stage_succ_of_ne (slots : Fin jitterSlots → Option Frame) {k : Nat} {j : Fin jitterSlots}
    (hj : j.val ≠ k) (hjd : j.val + d ≠ k) : stage slots d (k + 1) j = stage slots d k j := by
  unfold stage
  by_cases hle : k ≤ j.val
  · rw [if_pos hle, if_pos (by omega)]
  · rw [if_neg hle, if_neg (by omega)]
    by_cases hvisited : j.val + d < k
    · rw [if_pos hvisited, if_pos (by omega)]
    · rw [if_neg hvisited, if_neg (by omega)]

/-- The slot that the frame of slot `k` moves down to. -/
theorem stage_succ_down (slots : Fin jitterSlots → Option Frame) {k : Nat} (hk : k < jitterSlots)
    {j : Fin jitterSlots} (hjd : j.val + d = k) : stage slots d (k + 1) j = slots ⟨k, hk⟩ := by
  unfold stage
  rw [if_neg (by omega), if_pos (by omega), hjd, slotAt?_of_lt slots hk]

/-- The slot just visited, when its frame is not its own. -/
theorem stage_succ_self (slots : Fin jitterSlots → Option Frame) (hd : 0 < d) {k : Nat}
    {j : Fin jitterSlots} (hj : j.val = k) : stage slots d (k + 1) j = none := by
  unfold stage
  rw [if_neg (by omega), if_neg (by omega)]

/-- One round. -/
theorem rehomeSlot_stage (hd : (newBase - oldBase).toNat = d) (hahead : d < jitterSlots)
    (slots : Fin jitterSlots → Option Frame) {k : Nat} (hk : k < jitterSlots)
    {st : (Fin jitterSlots → Option Frame) × List Frame} (hst : st.1 = stage slots d k) :
    (rehomeSlot oldBase newBase st ⟨k, hk⟩).1 = stage slots d (k + 1) := by
  have hvisit : st.1 ⟨k, hk⟩ = slots ⟨k, hk⟩ := by
    rw [hst]
    exact if_pos (Nat.le_refl k)
  have hdistance := rehome_distance hd hk
  -- Nothing has moved down to its place yet.
  have hempty : ∀ j : Fin jitterSlots, j.val ≠ k → j.val + d = k → st.1 j = none := by
    intro j hj hjd
    rw [hst, stage, if_neg (by omega), if_neg (by omega)]
  funext j
  unfold rehomeSlot
  rw [hvisit]
  cases hframe : slots ⟨k, hk⟩ with
  | none =>
      by_cases hjd : j.val + d = k
      · rw [stage_succ_down slots hk hjd, hframe]
        by_cases hj : j.val = k
        · rw [show j = ⟨k, hk⟩ from Fin.ext hj, hvisit, hframe]
        · exact hempty j hj hjd
      · by_cases hj : j.val = k
        · rw [stage_succ_self slots (by omega) hj, show j = ⟨k, hk⟩ from Fin.ext hj, hvisit, hframe]
        · rw [stage_succ_of_ne slots hj hjd, hst]
  | some frame =>
      dsimp only
      by_cases hle : d ≤ k
      · rw [if_pos hle] at hdistance
        have hlt : (oldBase + UInt32.ofNat k - newBase).toNat < jitterSlots := by
          rw [hdistance]
          omega
        rw [dif_pos hlt]
        dsimp only
        by_cases hjd : j.val + d = k
        · -- The frame goes to slot `k - d`.
          have hj : j = ⟨_, hlt⟩ := Fin.ext
            (show j.val = (oldBase + UInt32.ofNat k - newBase).toNat by omega)
          rw [stage_succ_down slots hk hjd, hframe, hj, Function.update_self]
        · have hj : j ≠ ⟨_, hlt⟩ := by
            intro heq
            have hval : j.val = (oldBase + UInt32.ofNat k - newBase).toNat := congrArg Fin.val heq
            omega
          rw [Function.update_of_ne hj]
          by_cases hjk : j.val = k
          · rw [stage_succ_self slots (by omega) hjk, show j = ⟨k, hk⟩ from Fin.ext hjk,
              Function.update_self]
          · rw [Function.update_of_ne fun heq => hjk (congrArg Fin.val heq),
              stage_succ_of_ne slots hjk hjd, hst]
      · -- The frame is taken for an older one.
        rw [if_neg hle] at hdistance
        have hdrop : ¬ (oldBase + UInt32.ofNat k - newBase).toNat < jitterSlots := by
          change d < 64 at hahead
          rw [hdistance]
          show ¬ 2 ^ 32 + k - d < 64
          omega
        rw [dif_neg hdrop]
        dsimp only
        by_cases hj : j.val = k
        · rw [stage_succ_self slots (by omega) hj, show j = ⟨k, hk⟩ from Fin.ext hj,
            Function.update_self]
        · rw [Function.update_of_ne fun heq => hj (congrArg Fin.val heq),
            stage_succ_of_ne slots hj (by omega), hst]

/-- After `k` rounds. -/
theorem rehome_take (hd : (newBase - oldBase).toNat = d) (hahead : d < jitterSlots)
    (slots : Fin jitterSlots → Option Frame) (pool : List Frame) (k : Nat) (hk : k ≤ jitterSlots) :
    (((List.finRange jitterSlots).take k).foldl (rehomeSlot oldBase newBase) (slots, pool)).1 =
      stage slots d k := by
  induction k with
  | zero =>
      funext j
      exact (if_pos (Nat.zero_le j.val)).symm
  | succ k ih =>
      have hlt : k < (List.finRange jitterSlots).length := by
        rw [List.length_finRange]
        omega
      have hround : (List.finRange jitterSlots)[k] = ⟨k, hk⟩ := by simp
      rw [List.take_succ_eq_append_getElem hlt, List.foldl_append, List.foldl_cons, List.foldl_nil,
        hround]
      exact rehomeSlot_stage hd hahead slots hk (ih (by omega))

end Ahead

/-! ### What a realignment leaves in the ring -/

section Rebase

variable {buf : ClientJitterBuffer (Numbered Frame)} {t : UInt64} {newBase : UInt32}

instance : NeZero jitterSlots := ⟨by decide⟩

/-- The slots whose frames the loop keeps. -/
def isKept (buf : ClientJitterBuffer (Numbered Frame)) (newBase : UInt32) (i : Fin jitterSlots) :
    Bool :=
  isAhead buf newBase && isPlayable newBase (inferred buf i)

/-- With the new base 0 to 63 numbers ahead, the frames from that slot on move down. -/
theorem slots_rebase (hahead : isAhead buf newBase = true) (j : Fin jitterSlots) :
    (buf.rebase t newBase).slots j = slotAt? buf.slots (j.val + (newBase - buf.baseSeq).toNat) := by
  have hlt : (newBase - buf.baseSeq).toNat < jitterSlots := of_decide_eq_true hahead
  have hrounds := rehome_take rfl hlt buf.slots buf.framePool jitterSlots (Nat.le_refl _)
  rw [List.take_of_length_le (by simp)] at hrounds
  show ((List.finRange jitterSlots).foldl (rehomeSlot buf.baseSeq newBase)
    (buf.slots, buf.framePool)).1 j = _
  rw [hrounds, stage, if_neg (by omega)]
  split
  · rfl
  · next h => rw [slotAt?, dif_neg h]

/-- Otherwise the frames move up, or are dropped at once, and the ring is empty. -/
theorem slots_rebase_of_not_ahead (hahead : isAhead buf newBase = false) (j : Fin jitterSlots) :
    (buf.rebase t newBase).slots j = none := by
  have hfar : ¬ (newBase - buf.baseSeq).toNat < 64 := of_decide_eq_false hahead
  refine Option.eq_none_iff_forall_ne_some.mpr fun f => ?_
  refine rehome_up ?_ (List.finRange jitterSlots) (fun _ _ j _ => List.mem_finRange j)
    (List.pairwise_lt_finRange _) (buf.slots, buf.framePool) (fun j _ _ => List.mem_finRange j) j f
  intro i _
  have hi : i.val < 64 := i.isLt
  have hold := buf.baseSeq.toNat_lt
  have hnew := newBase.toNat_lt
  rw [UInt32.toNat_sub] at hfar
  rw [UInt32.toNat_sub, UInt32.toNat_add, UInt32.toNat_ofNat']
  omega

/-- The slot that a kept frame moves to. -/
theorem isKept_iff (i : Fin jitterSlots) :
    isKept buf newBase i = true ↔
      (newBase - buf.baseSeq).toNat < 64 ∧ (newBase - buf.baseSeq).toNat ≤ i.val := by
  have hi : i.val < 64 := i.isLt
  rw [isKept, Bool.and_eq_true, isAhead, isPlayable, isPlayable, decide_eq_true_iff,
    decide_eq_true_iff]
  refine and_congr_right fun hlt => ?_
  change (newBase - buf.baseSeq).toNat < 64 at hlt
  rw [inferred, rehome_distance rfl i.isLt]
  change _ < 64 ↔ _
  split <;> omega

/-- The frames that the loop keeps are in the ring, and no others. -/
theorem slots_rebase_iff (j : Fin jitterSlots) (f : Numbered Frame) :
    (buf.rebase t newBase).slots j = some f ↔
      ∃ i, buf.slots i = some f ∧ isKept buf newBase i = true ∧
        (inferred buf i - newBase).toNat = j.val := by
  cases hahead : isAhead buf newBase with
  | false =>
      rw [slots_rebase_of_not_ahead hahead]
      simp [isKept, hahead]
  | true =>
      have hlt : (newBase - buf.baseSeq).toNat < 64 := of_decide_eq_true hahead
      have hj : j.val < 64 := j.isLt
      rw [slots_rebase hahead]
      constructor
      · intro h
        unfold slotAt? at h
        split at h
        · next hi =>
            refine ⟨_, h, (isKept_iff _).mpr ⟨hlt, Nat.le_add_left _ _⟩, ?_⟩
            rw [inferred, rehome_distance rfl hi, if_pos (Nat.le_add_left _ _)]
            omega
        · cases h
      · rintro ⟨i, hi, hkept, hplace⟩
        have hle := ((isKept_iff i).mp hkept).2
        rw [inferred, rehome_distance rfl i.isLt, if_pos hle] at hplace
        rw [show j.val + (newBase - buf.baseSeq).toNat = i.val by omega, slotAt?_val, hi]

/-- The frames that the loop does not keep are in the pool. -/
theorem framePool_rebase :
    ((buf.rebase t newBase).framePool : Multiset (Numbered Frame)) =
      buf.framePool + contents fun i => if isKept buf newBase i then none else buf.slots i := by
  have hsame : contents (buf.rebase t newBase).slots +
        ((buf.rebase t newBase).framePool : Multiset (Numbered Frame)) =
      contents buf.slots + (buf.framePool : Multiset (Numbered Frame)) :=
    contents_rehome buf.baseSeq newBase _ (buf.slots, buf.framePool)
  have hring : contents (buf.rebase t newBase).slots =
      contents fun i => if isKept buf newBase i = true then buf.slots i else none := by
    cases hahead : isAhead buf newBase with
    | false =>
        have hnone : ∀ i, isKept buf newBase i = false := fun i => by
          rw [isKept, hahead, Bool.false_and]
        simp only [hnone, Bool.false_eq_true, if_false]
        exact congrArg contents (funext fun j => slots_rebase_of_not_ahead hahead j)
    | true =>
        have hlt : (newBase - buf.baseSeq).toNat < jitterSlots := of_decide_eq_true hahead
        -- The kept frames turn around the ring, and no frame comes around its end.
        refine Eq.trans ?_ (contents_comp (Equiv.addRight ⟨_, hlt⟩) fun i =>
          if isKept buf newBase i = true then buf.slots i else none)
        refine congrArg contents (funext fun j => ?_)
        have hj : j.val < 64 := j.isLt
        have hval : (j + ⟨_, hlt⟩ : Fin jitterSlots).val =
            (j.val + (newBase - buf.baseSeq).toNat) % jitterSlots := Fin.val_add _ _
        have hlt64 : (newBase - buf.baseSeq).toNat < 64 := hlt
        rw [slots_rebase hahead]
        show _ = if isKept buf newBase (j + ⟨_, hlt⟩) = true then buf.slots (j + ⟨_, hlt⟩) else none
        generalize j + ⟨_, hlt⟩ = k at hval ⊢
        by_cases hin : j.val + (newBase - buf.baseSeq).toNat < jitterSlots
        · rw [Nat.mod_eq_of_lt hin] at hval
          rw [← hval, slotAt?_val, if_pos ((isKept_iff k).mpr ⟨hlt64, by omega⟩)]
        · have hturned : ¬ isKept buf newBase k = true := by
            change k.val = _ % 64 at hval
            change ¬ _ < 64 at hin
            rw [isKept_iff]
            omega
          rw [slotAt?, dif_neg hin, if_neg hturned]
  rw [hring, ← contents_split (fun i => isKept buf newBase i = true) buf.slots, add_assoc] at hsame
  rw [add_left_cancel hsame, add_comm]

/-- A frame that matters has the number that it is taken for: then the loop keeps the playable
ones. -/
theorem OwnNumbers.isKept_eq (h : OwnNumbers buf newBase) {i : Fin jitterSlots}
    {f : Numbered Frame} (hi : buf.slots i = some f) :
    isKept buf newBase i = isPlayable newBase f.number := by
  rw [Bool.eq_iff_iff]
  constructor
  · intro hk
    have hparts := Bool.and_eq_true_iff.mp hk
    rw [(h i f hi (.inr hparts)).2]
    exact hparts.2
  · intro hplayable
    have hown := h i f hi (.inl hplayable)
    rw [hown.2] at hplayable
    exact Bool.and_eq_true_iff.mpr ⟨hown.1, hplayable⟩

/-- A realignment keeps what is playable just if each frame that matters has the number that it is
taken for. -/
theorem keepsPlayable_rebase_iff (buf : ClientJitterBuffer (Numbered Frame)) (t : UInt64)
    (newBase : UInt32) :
    KeepsPlayable buf (buf.rebase t newBase) newBase ↔ OwnNumbers buf newBase := by
  constructor
  · intro h
    -- A kept frame lies where its own number says, so it has the number that it is taken for.
    have hkept : ∀ i f, buf.slots i = some f → isKept buf newBase i = true →
        f.number = inferred buf i := by
      intro i f hi hk
      have hplace : (inferred buf i - newBase).toNat < jitterSlots :=
        of_decide_eq_true (Bool.and_eq_true_iff.mp hk).2
      obtain ⟨i', -, hown⟩ := (h.ring ⟨_, hplace⟩ f).mp
        ((slots_rebase_iff _ f).mpr ⟨i, hi, hk, rfl⟩)
      exact (UInt32.sub_left_inj newBase).mp (UInt32.toNat_inj.mp hown)
    -- So the frames that are no longer playable are dropped, and by the pool only those are.
    have hrest : ∀ i, ((buf.slots i).filter fun f => !isPlayable newBase f.number) = none ∨
        ((buf.slots i).filter fun f => !isPlayable newBase f.number) =
          if isKept buf newBase i = true then none else buf.slots i := by
      intro i
      cases hi : buf.slots i with
      | none => exact .inl rfl
      | some f =>
          by_cases hplayable : isPlayable newBase f.number = true
          · simp [hplayable]
          · refine .inr ?_
            have hnot : ¬ isKept buf newBase i = true := by
              intro hk
              rw [hkept i f hi hk] at hplayable
              exact hplayable (Bool.and_eq_true_iff.mp hk).2
            rw [if_neg hnot]
            simp [hplayable]
    have hpool := h.pool
    rw [framePool_rebase] at hpool
    have hdropped := eq_of_contents_eq hrest (add_left_cancel hpool).symm
    intro i f hi hmatters
    have hk : isKept buf newBase i = true := by
      by_contra hnot
      have hdrop := congrFun hdropped i
      rw [if_neg hnot, hi] at hdrop
      have hold : isPlayable newBase f.number = false := by simpa using hdrop
      rcases hmatters with hplayable | hparts
      · rw [hold] at hplayable
        cases hplayable
      · exact hnot (Bool.and_eq_true_iff.mpr hparts)
    exact ⟨(Bool.and_eq_true_iff.mp hk).1, hkept i f hi hk⟩
  · intro h
    constructor
    · intro j f
      rw [slots_rebase_iff]
      constructor
      · rintro ⟨i, hi, hk, hplace⟩
        refine ⟨i, hi, ?_⟩
        rw [(h i f hi (.inr (Bool.and_eq_true_iff.mp hk))).2]
        exact hplace
      · rintro ⟨i, hi, hplace⟩
        have hplayable : isPlayable newBase f.number = true :=
          decide_eq_true (by rw [hplace]; exact j.isLt)
        refine ⟨i, hi, (h.isKept_eq hi).trans hplayable, ?_⟩
        rw [← (h i f hi (.inl hplayable)).2]
        exact hplace
    · rw [framePool_rebase]
      refine congrArg _ (congrArg contents (funext fun i => ?_))
      cases hi : buf.slots i with
      | none => simp
      | some f =>
          rw [h.isKept_eq hi]
          cases hp : isPlayable newBase f.number with
          | false => exact (Option.filter_some_pos (by simp [hp])).symm
          | true => exact (Option.filter_some_neg (by simp [hp])).symm

end Rebase

/-! ### A packet that realigns the buffer -/

/-- The buffer that a packet of the client finds, with its mapping set. -/
def found (client seq : UInt16) (currentSlot : UInt64) (audio : AudioState (Numbered Frame)) :
    ClientJitterBuffer (Numbered Frame) :=
  (Reception.entry client audio).initBase seq currentSlot

section

open Nek0.Audio.Reception (number decode isAccepted)

/-- An accepted packet that realigns the buffer is written after the realignment, at the new base.
The realignment keeps what is still playable just if each frame that matters has the number that it
is taken for. -/
theorem keepsPlayable_iff (client seq : UInt16) (played : UInt64) (now : Instant) (frame : Frame)
    (p : Reception Frame) {g : UInt32} (hg : number client seq (played / frameSize) p.audio = g)
    (haccepted : isAccepted client seq (played / frameSize) (some frame) p.audio = true)
    (hrebase : (found client seq (played / frameSize) p.audio).needsRebase (played / frameSize) g =
      true) :
    let buf := found client seq (played / frameSize) p.audio
    let buf' := buf.rebase (played / frameSize) g
    (decode client seq played now (some frame) p.audio).clientBuffers client =
        some (buf'.writeFrame now g g ⟨g, frame⟩) ∧
      (KeepsPlayable buf buf' g ↔ OwnNumbers buf g) := by
  intro buf buf'
  subst hg
  have hstray : (found client seq (played / frameSize) p.audio).isStray
      (number client seq (played / frameSize) p.audio) = false := by
    simpa [isAccepted, found] using haccepted
  refine ⟨?_, keepsPlayable_rebase_iff _ (played / frameSize) _⟩
  show Function.update p.audio.clientBuffers client
    (some ((Reception.entry client p.audio).accept (played / frameSize) now seq _)) client = _
  rw [Function.update_self]
  refine congrArg some ?_
  unfold ClientJitterBuffer.accept
  exact (if_neg (by rw [Bool.not_eq_true]; exact hstray)).trans (if_pos hrebase)

instance (buf : ClientJitterBuffer (Numbered Frame)) (newBase : UInt32) :
    Decidable (OwnNumbers buf newBase) :=
  inferInstanceAs (Decidable (∀ i : Fin jitterSlots, ∀ f ∈ buf.slots i, _ → _))

/-- Frame 42 came before frame 40. -/
def swapped : Reception Nat :=
  { audio :=
      { clientBuffers := fun _ => some
          { slots := fun i =>
              if i.val = 0 then some ⟨40, 400⟩ else if i.val = 2 then some ⟨42, 420⟩ else none
            writeSeq := 40
            basePair := packBase 40 106
            lastPacket := some 0
            framePool := []
            volume := .unity }
        playedSamples := 0
        activeClientIds := [7]
        clients := []
        clientVolumes := fun _ => none }
    nextSlot := 150
    accepted := [42, 40]
    taken := [] }

/-- Packet 41 realigns the buffer, and frame 42 moves to slot 1. -/
theorem keepsPlayable_swapped :
    let buf := found 7 41 150 swapped.audio
    KeepsPlayable buf (buf.rebase 150 41) 41 ∧ (buf.rebase 150 41).slots 1 = some ⟨42, 420⟩ := by
  have hown : OwnNumbers (found 7 41 150 swapped.audio) 41 := by decide +kernel
  have hkeeps := (keepsPlayable_iff 7 41 144000 0 410 swapped (g := 41) (by decide +kernel)
    (by decide +kernel) (by decide +kernel)).2.mpr hown
  exact ⟨hkeeps, (hkeeps.ring 1 _).mpr ⟨2, by decide +kernel, by decide +kernel⟩⟩

/-- Packet 40 comes, then 69 packets are lost, and 110 comes before 105 and 107. -/
def lostThenReordered : List (Reception.Event Nat) :=
  [.packet 40 96000 0 (some 400)] ++ List.replicate 72 (.mix [7]) ++
    [.packet 110 165120 0 (some 1100), .packet 105 165120 0 (some 1050)] ++
    List.replicate 5 (.mix [7])

/-- Packet 107 realigns the buffer, and frame 110 is dropped, though it is less than 64 numbers
ahead. -/
theorem not_keepsPlayable : ∃ p : Reception Nat, (system 7).Reachable p ∧
    number 7 107 177 p.audio = 107 ∧ isAccepted 7 107 177 (some 1070) p.audio = true ∧
    (found 7 107 177 p.audio).needsRebase 177 107 = true ∧
    ¬ KeepsPlayable (found 7 107 177 p.audio) ((found 7 107 177 p.audio).rebase 177 107) 107 := by
  obtain ⟨p, hrun, hview⟩ := Nek0.Lib.System.Run.exists_of_exec (system 7)
    (fun _ _ => True) (fun _ _ => true) lostThenReordered
    (fun p => (number 7 107 177 p.audio,
      [isAccepted 7 107 177 (some 1070) p.audio, (found 7 107 177 p.audio).needsRebase 177 107],
      [(found 7 107 177 p.audio).slots 6, ((found 7 107 177 p.audio).rebase 177 107).slots 3]))
    (fun _ _ _ => trivial) (.start (s := silence) ⟨rfl, rfl, rfl⟩)
    (a := (107, [true, true], [some ⟨110, 1100⟩, none])) (by decide +kernel)
  simp only [Prod.mk.injEq, List.cons.injEq, and_true] at hview
  obtain ⟨hnumber, ⟨haccepted, hrebase⟩, hslot, hgone⟩ := hview
  refine ⟨p, hrun, hnumber, haccepted, hrebase, fun h => ?_⟩
  have hkept := (h.ring 3 ⟨110, 1100⟩).mpr ⟨6, hslot, rfl⟩
  rw [hgone] at hkept
  cases hkept

end

end Nek0.Proofs.Audio
