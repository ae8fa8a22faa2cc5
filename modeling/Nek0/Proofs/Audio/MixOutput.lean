import Nek0.Audio.OutputStream

/-!
# `Nek0.Proofs.Audio.MixOutput`: the output does not depend on the callback sizes

`mixes` is the specification: the mix frames of the slots 0, 1, 2, ..., one after the other.
`written_of_play`: the samples written are a prefix of them, whatever the lengths of the output
buffers are, and `PLAYED_SAMPLES` is their number modulo 2 ^ 64.

The invariant is `Played`. Its step is one turn of the copy loop: `entered_of_played` says that the
loop has the frame of its slot, and `played_of_copy` that the piece it copies is the next one.
-/

set_option autoImplicit false

namespace Nek0.Proofs.Audio

open Nek0.Audio

variable {Frame : Type} {v : Voice Frame} {shared : Nat → Shared Frame}

/-- The mix frames of the slots below `n`, and the sfx slots after them. -/
def mixes (v : Voice Frame) (shared : Nat → Shared Frame) :
    Nat → List (UInt64 × MixBuf) × List SfxSlot
  | 0 => ([], OutputStream.new.sfxSlots)
  | n + 1 =>
    let p := mixes v shared n
    let r := mixFrame v (shared n) p.2 (UInt64.ofNat n)
    (p.1 ++ [(UInt64.ofNat n, r.1)], r.2)

/-- The samples of some mix frames. -/
def samples (frames : List (UInt64 × MixBuf)) : List Float32 :=
  frames.flatMap fun frame => frame.2.toList

/-- The sum of the buffer lengths. -/
def total (lens : List UInt64) : Nat := (lens.map UInt64.toNat).sum

@[simp]
theorem length_mixes (n : Nat) : (mixes v shared n).1.length = n := by
  induction n with
  | zero => rfl
  | succ n ih => rw [mixes, List.length_append, ih, List.length_singleton]

/-- The frames are those of the slots 0, 1, 2, ..., each once. -/
theorem slots_mixes (n : Nat) :
    (mixes v shared n).1.map Prod.fst = (List.range n).map UInt64.ofNat := by
  induction n with
  | zero => rfl
  | succ n ih =>
      rw [mixes, List.map_append, ih, List.range_succ, List.map_append]
      rfl

theorem samples_concat (frames : List (UInt64 × MixBuf)) (frame : UInt64 × MixBuf) :
    samples (frames ++ [frame]) = samples frames ++ frame.2.toList := by
  simp [samples]

/-- A frame has 960 samples. -/
theorem length_samples (frames : List (UInt64 × MixBuf)) :
    (samples frames).length = 960 * frames.length := by
  induction frames with
  | nil => rfl
  | cons frame frames ih =>
      rw [samples, List.flatMap_cons, List.length_append, Vector.length_toList, ← samples, ih,
        List.length_cons, Nat.mul_succ, Nat.add_comm]
      rfl

/-- `t` samples are written, and they are `out`. The frames mixed for them are `mixes`, and the last
one is the current one. -/
structure Played (v : Voice Frame) (shared : Nat → Shared Frame) (t : Nat) (st : OutputStream)
    (out : List Float32) : Prop where
  frames : (st.mixed, st.sfxSlots) = mixes v shared ((t + 959) / 960)
  current : ∀ frame, st.mixed.getLast? = some frame →
    frame = (st.currentMixSlot, st.currentMixBuf)
  noFrame : st.mixed = [] → st.currentMixSlot = UInt64.ofNat (2 ^ 64 - 1)
  written : out = (samples st.mixed).take t

/-- As `Played`, while the frame of sample `t` is the current one. -/
structure Entered (v : Voice Frame) (shared : Nat → Shared Frame) (t : Nat) (st : OutputStream)
    (out : List Float32) : Prop where
  frames : (st.mixed, st.sfxSlots) = mixes v shared (t / 960 + 1)
  current : st.mixed.getLast? = some (st.currentMixSlot, st.currentMixBuf)
  written : out = (samples st.mixed).take t

variable {t : Nat} {st : OutputStream} {out : List Float32}

/-- The frame that is mixed last. -/
theorem getLast?_mixes (v : Voice Frame) (shared : Nat → Shared Frame) (n : Nat) :
    (mixes v shared (n + 1)).1.getLast? =
      some (UInt64.ofNat n, (mixFrame v (shared n) (mixes v shared n).2 (UInt64.ofNat n)).1) := by
  rw [mixes]
  exact List.getLast?_concat

/-- Below the wrap different slots have different numbers. -/
theorem ofNat_ne {m n : Nat} (hm : m < 2 ^ 64) (hn : n < 2 ^ 64) (h : m ≠ n) :
    UInt64.ofNat m ≠ UInt64.ofNat n := by
  intro heq
  have hnat := congrArg UInt64.toNat heq
  rw [UInt64.toNat_ofNat_of_lt' hm, UInt64.toNat_ofNat_of_lt' hn] at hnat
  exact h hnat

/-- At the start of a logical frame its slot is not the current one. -/
theorem currentMixSlot_ne (h : Played v shared t st out) (hstart : t % 960 = 0)
    (ht : t / 960 < 2 ^ 64 - 1) : UInt64.ofNat (t / 960) ≠ st.currentMixSlot := by
  have hcount : (t + 959) / 960 = t / 960 := by omega
  have hmixed : st.mixed = (mixes v shared (t / 960)).1 := by
    rw [← hcount, ← h.frames]
  cases hn : t / 960 with
  | zero =>
      rw [h.noFrame (by rw [hmixed, hn]; rfl)]
      exact ofNat_ne (by omega) (by omega) (by omega)
  | succ n =>
      have hlast := h.current _ (by rw [hmixed, hn]; exact getLast?_mixes v shared n)
      have hslot : UInt64.ofNat n = st.currentMixSlot := congrArg Prod.fst hlast
      rw [← hslot]
      exact ofNat_ne (by omega) (by omega) (by omega)

/-- The frame of the slot is mixed if it was not, and nothing else happens. -/
theorem entered_of_played (h : Played v shared t st out) (ht : t / 960 < 2 ^ 64 - 1) :
    Entered v shared t (st.enterFrame v shared (UInt64.ofNat (t / 960))) out := by
  unfold OutputStream.enterFrame
  by_cases hstart : t % 960 = 0
  · -- A new logical frame starts here.
    have hcount : (t + 959) / 960 = t / 960 := by omega
    have hmixes : (st.mixed, st.sfxSlots) = mixes v shared (t / 960) := hcount ▸ h.frames
    have hmixed : st.mixed = (mixes v shared (t / 960)).1 := congrArg Prod.fst hmixes
    have hsfx : st.sfxSlots = (mixes v shared (t / 960)).2 := congrArg Prod.snd hmixes
    have hlength : st.mixed.length = t / 960 := by rw [hmixed, length_mixes]
    rw [if_pos (currentMixSlot_ne h hstart ht), hlength, hmixed, hsfx]
    constructor
    · rfl
    · exact List.getLast?_concat
    · show out = (samples (_ ++ [_])).take t
      rw [samples_concat, ← hmixed, List.take_append_of_le_length, h.written]
      rw [length_samples, hlength]
      omega
  · -- The frame was entered before.
    have hcount : (t + 959) / 960 = t / 960 + 1 := by omega
    have hmixes : (st.mixed, st.sfxSlots) = mixes v shared (t / 960 + 1) := hcount ▸ h.frames
    have hmixed : st.mixed = (mixes v shared (t / 960 + 1)).1 := congrArg Prod.fst hmixes
    have hlast := getLast?_mixes v shared (t / 960)
    rw [← hmixed] at hlast
    have hcurrent := h.current _ hlast
    rw [if_neg (not_not.mpr (congrArg Prod.fst hcurrent))]
    constructor
    · exact hmixes
    · rw [hlast, hcurrent]
    · exact h.written

/-- The piece that is copied from the current frame is the next one. -/
theorem played_of_copy (h : Entered v shared t st out) {copy : Nat} (hpos : 0 < copy)
    (hcopy : t % 960 + copy ≤ 960) :
    Played v shared (t + copy) st
      (out ++ (st.currentMixBuf.toList.drop (t % 960)).take copy) := by
  -- The position is within a frame, and so the copy is from the last one that was mixed.
  have hcount : (t + copy + 959) / 960 = t / 960 + 1 := by omega
  have hmixed : st.mixed = (mixes v shared (t / 960 + 1)).1 := congrArg Prod.fst h.frames
  have hlength : st.mixed.length = t / 960 + 1 := by rw [hmixed, length_mixes]
  constructor
  · rw [hcount]
    exact h.frames
  · intro frame hframe
    rw [h.current] at hframe
    exact (Option.some.inj hframe).symm
  · intro hnil
    rw [hnil] at hlength
    exact absurd hlength (Nat.succ_ne_zero _).symm
  · -- The frames before the current one have `960 * (t / 960)` samples.
    obtain ⟨pre, hpre⟩ : ∃ pre, st.mixed = pre ++ [(st.currentMixSlot, st.currentMixBuf)] :=
      List.getLast?_eq_some_iff.mp h.current
    have hprelength : (samples pre).length = 960 * (t / 960) := by
      rw [hpre, List.length_append, List.length_singleton] at hlength
      rw [length_samples]
      omega
    have ht : t = (samples pre).length + t % 960 := by omega
    have hsamples : samples st.mixed = samples pre ++ st.currentMixBuf.toList := by
      rw [hpre, samples_concat]
    calc out ++ (st.currentMixBuf.toList.drop (t % 960)).take copy
        = (samples pre ++ st.currentMixBuf.toList.take (t % 960)) ++
            (st.currentMixBuf.toList.drop (t % 960)).take copy := by
          rw [h.written, hsamples]
          conv_lhs => rw [ht, List.take_length_add_append]
          rw [← ht]
      _ = samples pre ++ st.currentMixBuf.toList.take (t % 960 + copy) := by
          rw [List.append_assoc, List.take_add]
      _ = (samples st.mixed).take (t + copy) := by
          rw [hsamples, ← List.take_length_add_append]
          congr 1
          omega

theorem playedSamples_enterFrame (slot : UInt64) :
    (st.enterFrame v shared slot).playedSamples = st.playedSamples := by
  unfold OutputStream.enterFrame
  split <;> rfl

/-- One turn of the loop: `copy` samples, and the rest from where they end. -/
theorem copyLoop_eq {remaining copy : Nat} (hne : remaining ≠ 0) (slot : UInt64)
    (offset : Fin frameSize.toNat) (hcopy : copy = min remaining (frameSize.toNat - offset))
    (slot' : UInt64) (offset' : Fin frameSize.toNat)
    (hnext : slot' = slot + 1 ∧ offset'.val = 0 ∧ offset.val + copy ≥ frameSize.toNat ∨
      slot' = slot ∧ offset'.val = offset.val + copy) :
    st.copyLoop v shared remaining slot offset =
      (((st.enterFrame v shared slot).copyLoop v shared (remaining - copy) slot' offset').1,
        ((st.enterFrame v shared slot).currentMixBuf.toList.drop offset).take copy ++
          ((st.enterFrame v shared slot).copyLoop v shared (remaining - copy) slot'
            offset').2) := by
  subst hcopy
  rw [OutputStream.copyLoop, if_neg hne]
  rcases hnext with ⟨rfl, hzero, hend⟩ | ⟨rfl, hoffset⟩
  · have hoffset' : offset' = ⟨0, by decide⟩ := Fin.ext hzero
    simp only [dif_pos hend, hoffset']
  · have hend : ¬ offset.val + min remaining (frameSize.toNat - offset) ≥ frameSize.toNat := by
      have := offset'.isLt
      omega
    have hoffset' : offset' = ⟨_, Nat.lt_of_not_ge hend⟩ := Fin.ext hoffset
    simp only [dif_neg hend, hoffset']

/-- The loop writes the next `remaining` samples. -/
theorem played_copyLoop (remaining : Nat) {slot : UInt64} {offset : Fin frameSize.toNat}
    (h : Played v shared t st out) (hslot : slot = UInt64.ofNat (t / 960))
    (hoffset : offset.val = t % 960) (hbound : t + remaining < 960 * (2 ^ 64 - 1)) :
    Played v shared (t + remaining) (st.copyLoop v shared remaining slot offset).1
        (out ++ (st.copyLoop v shared remaining slot offset).2) := by
  induction remaining using Nat.strong_induction_on generalizing t st out slot offset with
  | _ remaining ih =>
  by_cases hdone : remaining = 0
  · rw [OutputStream.copyLoop, if_pos hdone, hdone, List.append_nil]
    exact h
  · have hsize : frameSize.toNat = 960 := rfl
    have hlt := offset.isLt
    obtain ⟨copy, hcopy⟩ : ∃ copy, copy = min remaining (frameSize.toNat - offset.val) := ⟨_, rfl⟩
    have hpiece := played_of_copy (entered_of_played h (by omega))
      (show 0 < copy by omega) (by omega)
    rw [← hslot, ← hoffset] at hpiece
    -- The next turn starts at sample `t + copy`.
    obtain ⟨offset', hoffset'⟩ : ∃ o : Fin frameSize.toNat, o.val = (t + copy) % 960 :=
      ⟨⟨_, Nat.mod_lt _ (by decide)⟩, rfl⟩
    have hnext : UInt64.ofNat ((t + copy) / 960) = slot + 1 ∧ offset'.val = 0 ∧
          offset.val + copy ≥ frameSize.toNat ∨
        UInt64.ofNat ((t + copy) / 960) = slot ∧ offset'.val = offset.val + copy := by
      by_cases hend : offset.val + copy ≥ frameSize.toNat
      · have hdiv : (t + copy) / 960 = t / 960 + 1 := by omega
        refine .inl ⟨?_, by omega, hend⟩
        rw [hdiv, UInt64.ofNat_add, hslot]
        rfl
      · have hdiv : (t + copy) / 960 = t / 960 := by omega
        refine .inr ⟨?_, by omega⟩
        rw [hdiv, hslot]
    have hplayed := ih (remaining - copy) (by omega) hpiece rfl hoffset' (by omega)
    have hsum : t + copy + (remaining - copy) = t + remaining := by omega
    rw [hsum, List.append_assoc] at hplayed
    rw [copyLoop_eq hdone slot offset hcopy _ offset' hnext]
    exact hplayed

/-- The copying counts no samples: the callback does. -/
theorem playedSamples_copyLoop (remaining : Nat) (slot : UInt64) (offset : Fin frameSize.toNat) :
    (st.copyLoop v shared remaining slot offset).1.playedSamples = st.playedSamples := by
  fun_induction OutputStream.copyLoop v shared remaining slot offset st with
  | case1 => rfl
  | case2 remaining slot offset st hne st' copy out r ihEnd ihGo =>
      have hkept : st'.playedSamples = st.playedSamples := playedSamples_enterFrame slot
      rw [← hkept]
      show r.1.playedSamples = _
      by_cases hend : offset.val + copy ≥ frameSize.toNat
      · rw [show r = _ from dif_pos hend]
        exact ihEnd hend
      · rw [show r = _ from dif_neg hend]
        exact ihGo hend

/-- A callback that starts below 2 ^ 64 samples writes the next ones. -/
theorem played_callback (len : UInt64) (h : Played v shared t st out)
    (hsamples : st.playedSamples = UInt64.ofNat t) (ht : t < 2 ^ 64) :
    Played v shared (t + len.toNat) (st.callback v shared len).1
      (out ++ (st.callback v shared len).2) := by
  have hnat : (UInt64.ofNat t).toNat = t := UInt64.toNat_ofNat_of_lt' ht
  have hslot : st.playedSamples / frameSize = UInt64.ofNat (t / 960) := by
    rw [hsamples]
    apply UInt64.toNat_inj.mp
    rw [UInt64.toNat_div, hnat,
      UInt64.toNat_ofNat_of_lt' (Nat.lt_of_le_of_lt (Nat.div_le_self t 960) ht)]
    rfl
  have hoffset : (st.playedSamples % frameSize).toNat = t % 960 := by
    rw [hsamples, UInt64.toNat_mod, hnat]
    rfl
  have hlen := len.toNat_lt
  let offset : Fin frameSize.toNat :=
    ⟨(st.playedSamples % frameSize).toNat, Nat.mod_lt _ (by decide)⟩
  have hloop := played_copyLoop len.toNat h hslot (show offset.val = t % 960 from hoffset)
    (by omega)
  exact ⟨hloop.frames, hloop.current, hloop.noFrame, hloop.written⟩

/-! ### All callbacks of a stream -/

theorem total_concat (lens : List UInt64) (len : UInt64) :
    total (lens ++ [len]) = total lens + len.toNat := by
  simp [total]

/-- One callback more. -/
theorem play_concat (lens : List UInt64) (len : UInt64) :
    OutputStream.play v shared (lens ++ [len]) =
      (((OutputStream.play v shared lens).1.callback v shared len).1,
        (OutputStream.play v shared lens).2 ++
          ((OutputStream.play v shared lens).1.callback v shared len).2) := by
  rw [OutputStream.play, List.foldl_append]
  rfl

/-- `PLAYED_SAMPLES` counts the samples, with the wrapping of a `u64`. -/
theorem playedSamples_play (lens : List UInt64) :
    (OutputStream.play v shared lens).1.playedSamples = UInt64.ofNat (total lens) := by
  induction lens using List.reverseRecOn with
  | nil => rfl
  | append_singleton lens len ih =>
      rw [play_concat, total_concat, UInt64.ofNat_add, UInt64.ofNat_toNat, ← ih]
      show _ + len = _
      rw [playedSamples_copyLoop]

/-- A new stream has played nothing. -/
theorem played_new : Played v shared 0 OutputStream.new [] where
  frames := rfl
  current := nofun
  noFrame := fun _ => rfl
  written := rfl

/-- What was played in any number of callbacks. -/
theorem played_play (v : Voice Frame) (shared : Nat → Shared Frame) (lens : List UInt64)
    (hlens : total lens.dropLast < 2 ^ 64) :
    Played v shared (total lens) (OutputStream.play v shared lens).1
      (OutputStream.play v shared lens).2 := by
  induction lens using List.reverseRecOn with
  | nil => exact played_new
  | append_singleton lens len ih =>
      rw [List.dropLast_concat] at hlens
      have hbefore : total lens.dropLast ≤ total lens :=
        List.Sublist.sum_le_sum ((List.dropLast_sublist lens).map _) fun _ _ => Nat.zero_le _
      rw [play_concat, total_concat]
      exact played_callback len (ih (Nat.lt_of_le_of_lt hbefore hlens)) (playedSamples_play lens)
        hlens

/-- Every callback fills what it was asked for. -/
theorem length_written (lens : List UInt64) (hlens : total lens.dropLast < 2 ^ 64) :
    (OutputStream.play v shared lens).2.length = total lens := by
  have h := played_play v shared lens hlens
  have hmixed : (OutputStream.play v shared lens).1.mixed =
      (mixes v shared ((total lens + 959) / 960)).1 := congrArg Prod.fst h.frames
  rw [h.written, List.length_take, length_samples, hmixed, length_mixes]
  omega

/-- `PLAYED_SAMPLES` is the number of samples written modulo 2 ^ 64. If fewer than 2 ^ 64 samples
are written before the last callback, the output is the prefix of that length of the mix frames of
the slots 0, 1, 2, ..., and the frames it reaches into are mixed once each and in order. -/
theorem written_of_play (v : Voice Frame) (shared : Nat → Shared Frame) (lens : List UInt64) :
    let r := OutputStream.play v shared lens
    let n := (total lens + 959) / 960
    r.1.playedSamples.toNat = total lens % 2 ^ 64 ∧
      (total lens.dropLast < 2 ^ 64 →
        r.2 = (samples (mixes v shared n).1).take (total lens) ∧ r.2.length = total lens ∧
        r.1.mixed = (mixes v shared n).1 ∧
        r.1.mixed.map Prod.fst = (List.range n).map UInt64.ofNat) := by
  intro r n
  constructor
  · rw [playedSamples_play]
    exact UInt64.toNat_ofNat'
  · intro hlens
    have h := played_play v shared lens hlens
    have hmixed : r.1.mixed = (mixes v shared n).1 := congrArg Prod.fst h.frames
    refine ⟨?_, length_written lens hlens, hmixed, ?_⟩
    · rw [← hmixed]
      exact h.written
    · rw [hmixed, slots_mixes]

/-- Nobody talks and no sound is played. -/
def nobody : Shared Unit where
  audio :=
    { clientBuffers := fun _ => none
      playedSamples := 0
      activeClientIds := []
      clients := []
      clientVolumes := fun _ => none }
  sfxQueue := []
  sfxSamples := []

/-- The voices are mute. -/
def mute : Voice Unit where
  sample := fun _ _ => 0
  linear := fun _ => 1

/-- Buffers of 100 and 960 samples reach into two frames. -/
theorem written_twoBuffers :
    (OutputStream.play mute (fun _ => nobody) [100, 960]).2.length = 1060 ∧
      (OutputStream.play mute (fun _ => nobody) [100, 960]).1.mixed.map Prod.fst = [0, 1] := by
  obtain ⟨-, hlength, -, hslots⟩ :=
    (written_of_play mute (fun _ => nobody) [100, 960]).2 (by decide)
  exact ⟨hlength, hslots⟩

/-- After 2 ^ 64 samples `PLAYED_SAMPLES` is 0 again. -/
theorem not_written : ¬ ∀ (v : Voice Unit) (shared : Nat → Shared Unit) (lens : List UInt64),
    (∃ n, (OutputStream.play v shared lens).2 <+: samples (mixes v shared n).1) ∧
      (OutputStream.play v shared lens).1.playedSamples.toNat =
        (OutputStream.play v shared lens).2.length := by
  intro hall
  let lens := List.replicate 16 (UInt64.ofNat (2 ^ 60))
  have htotal : total lens = 2 ^ 64 := by decide
  have h := (hall mute (fun _ => nobody) lens).2
  rw [length_written lens (by decide), htotal] at h
  exact absurd h (Nat.ne_of_lt (UInt64.toNat_lt _))

end Nek0.Proofs.Audio
