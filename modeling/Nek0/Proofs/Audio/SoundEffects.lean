import Nek0.Proofs.Audio.MixOutput

/-!
# `Nek0.Proofs.Audio.SoundEffects`: what becomes of the requests for sound effects

`requests` is what became of the requests that were popped for the first mix frames of a stream: the
ones that were started, each with its frame, and the ones that were dropped, each with the slots at
that moment. An effect that starts in frame `start` gives its sample `960 * (n - start) + i` to
sample `i` of frame `n` (`heard`).

* `serves_popped`, `serves_advance`: the busy slots are the effects that sound in the frame, in some
  order, each at its position.
* `follows_play`: the slots of a stream are those of `requests`, and its frames are mixed from them.
* `effects_of_play`: both together, for every stream.

The samples of the effects must not change, and the requests must be sounds: `ts_play_sfx` checks
`1..=37`, and everyone else pushes one of the `SFX_` constants.
-/

set_option autoImplicit false

namespace Nek0.Proofs.Audio

open Nek0.Audio

/-- A request that was started: its sound, and the mix frame it starts in. -/
structure Effect where
  kind : UInt8
  start : Nat
  deriving DecidableEq

/-- What became of some requests, and the slots after them. -/
structure Requests where
  slots : List SfxSlot
  started : List Effect
  dropped : List (UInt8 × List SfxSlot)
  deriving DecidableEq

/-- A request is popped for mix frame `n`. It is dropped if it changes no slot. -/
def popped (n : Nat) (r : Requests) (kind : UInt8) : Requests :=
  if startSfx r.slots kind = r.slots then { r with dropped := r.dropped ++ [(kind, r.slots)] }
  else
    { r with
        slots := startSfx r.slots kind
        started := r.started ++ [{ kind := kind, start := n }] }

/-- All requests of mix frame `n` are popped. -/
def poppedAll (n : Nat) (kinds : List UInt8) (r : Requests) : Requests := kinds.foldl (popped n) r

variable {Frame : Type}

/-- The requests of the mix frames below `n`. -/
def requests (shared : Nat → Shared Frame) : Nat → Requests
  | 0 => { slots := OutputStream.new.sfxSlots, started := [], dropped := [] }
  | n + 1 =>
    let r := poppedAll n (shared n).sfxQueue (requests shared n)
    { r with slots := r.slots.map (advanceSfx (shared n)) }

/-- The table of the samples. -/
abbrev EffectTable := List (Option (List Float32))

/-- The samples of an effect. -/
def source (table : EffectTable) (e : Effect) : List Float32 :=
  ((table[e.kind.toNat - 1]?).getD none).getD []

/-- The sample of the effect that is heard at sample `i` of mix frame `n`. -/
def heard (e : Effect) (n i : Nat) : Nat := (n - e.start) * 960 + i

/-- The effect is on in mix frame `n`: it starts there, or it has samples left. -/
def sounds (table : EffectTable) (n : Nat) (e : Effect) : Bool :=
  e.start = n || e.start < n && heard e n 0 < (source table e).length

/-- What an effect adds to sample `i` of mix frame `n`. -/
def addEffect (table : EffectTable) (n i : Nat) (s : Float32) (e : Effect) : Float32 :=
  match (source table e)[heard e n i]? with
  | none => s
  | some x => s + x * 0.5

/-! ### The slots of one frame -/

/-- The slot that plays the effect in mix frame `n`. -/
def slotAt (n : Nat) (e : Effect) : SfxSlot where
  kind := e.kind
  pos := heard e n 0

/-- The slots that play something. -/
def busy (slots : List SfxSlot) : List SfxSlot := slots.filter fun slot => slot.kind ≠ 0

/-- The busy slots play `playing`, which are the effects that are on in mix frame `n`. What was
dropped found both slots busy. -/
structure Serves (table : EffectTable) (n : Nat) (r : Requests) (playing : List Effect) : Prop where
  slots : busy r.slots = playing.map (slotAt n)
  sounding : playing.Perm (r.started.filter (sounds table n))
  started : ∀ e ∈ r.started, e.start ≤ n ∧ e.kind ≠ 0
  two : r.slots.length = 2
  dropped : ∀ d ∈ r.dropped, d.2.length = 2 ∧ ∀ slot ∈ d.2, slot.kind ≠ 0

variable {table : EffectTable} {n : Nat} {r : Requests} {playing : List Effect}

/-- Starting a sound fills a slot, and adds none. -/
@[simp]
theorem length_startSfx (slots : List SfxSlot) (kind : UInt8) :
    (startSfx slots kind).length = slots.length := by
  induction slots with
  | nil => rfl
  | cons slot slots ih =>
      rw [startSfx]
      split
      · rfl
      · rw [List.length_cons, ih, List.length_cons]

/-- A request changes nothing only if no slot is idle. -/
theorem busy_of_startSfx {slots : List SfxSlot} {kind : UInt8} (hkind : kind ≠ 0)
    (h : startSfx slots kind = slots) : ∀ slot ∈ slots, slot.kind ≠ 0 := by
  induction slots with
  | nil => exact nofun
  | cons slot slots ih =>
      by_cases hidle : slot.kind = 0
      · -- The slot would have the kind of the request.
        rw [startSfx, if_pos hidle] at h
        have hslot := congrArg SfxSlot.kind (List.cons.inj h).1
        exact absurd (hslot.trans hidle) hkind
      · rw [startSfx, if_neg hidle] at h
        exact List.forall_mem_cons.mpr ⟨hidle, ih (List.cons.inj h).2⟩

/-- A request that is started takes a place among the busy slots. -/
theorem busy_startSfx {slots : List SfxSlot} {kind : UInt8} (hkind : kind ≠ 0)
    (h : startSfx slots kind ≠ slots) :
    ∃ pre post, busy slots = pre ++ post ∧
      busy (startSfx slots kind) = pre ++ { kind := kind, pos := 0 } :: post := by
  induction slots with
  | nil => exact absurd rfl h
  | cons slot slots ih =>
      by_cases hidle : slot.kind = 0
      · refine ⟨[], busy slots, ?_, ?_⟩
        · exact List.filter_cons_of_neg (by simpa using hidle)
        · rw [startSfx, if_pos hidle]
          exact List.filter_cons_of_pos (by simpa using hkind)
      · rw [startSfx, if_neg hidle] at h ⊢
        obtain ⟨pre, post, hslots, hstarted⟩ := ih fun heq => h (congrArg (slot :: ·) heq)
        have hcons (slots : List SfxSlot) : busy (slot :: slots) = slot :: busy slots :=
          List.filter_cons_of_pos (by simpa using hidle)
        refine ⟨slot :: pre, post, ?_, ?_⟩
        · rw [hcons, hslots, List.cons_append]
        · rw [hcons, hstarted, List.cons_append]

/-- The slots behind one request. -/
theorem slots_popped (n : Nat) (r : Requests) (kind : UInt8) :
    (popped n r kind).slots = startSfx r.slots kind := by
  unfold popped
  split
  · next h => exact h.symm
  · rfl

/-- A request that is popped keeps the account of the slots. -/
theorem serves_popped (h : Serves table n r playing) {kind : UInt8} (hkind : kind ≠ 0) :
    ∃ playing', Serves table n (popped n r kind) playing' := by
  unfold popped
  split
  · next hsame =>
    refine ⟨playing, h.slots, h.sounding, h.started, h.two, fun d hd => ?_⟩
    rcases List.mem_append.mp hd with hold | hnew
    · exact h.dropped d hold
    · rw [List.mem_singleton.mp hnew]
      exact ⟨h.two, busy_of_startSfx hkind hsame⟩
  · next hstart =>
    let e : Effect := { kind := kind, start := n }
    have hslot : slotAt n e = { kind := kind, pos := 0 } := by
      simp [slotAt, heard, e]
    obtain ⟨pre, post, hbusy, hstarted⟩ := busy_startSfx hkind hstart
    -- The slots before and after the new one play the effects before and after it.
    obtain ⟨before, after, rfl, hpre, hpost⟩ :=
      List.map_eq_append_iff.mp (h.slots.symm.trans hbusy)
    refine ⟨before ++ e :: after, ?_, ?_, ?_, ?_, h.dropped⟩
    · show busy (startSfx r.slots kind) = _
      rw [hstarted, ← hpre, ← hpost, ← hslot, List.map_append, List.map_cons]
    · show List.Perm _ ((r.started ++ [e]).filter (sounds table n))
      have hsounds : sounds table n e = true := by simp [sounds, e]
      rw [List.filter_append, List.filter_cons_of_pos hsounds, List.filter_nil]
      calc (before ++ e :: after).Perm (e :: (before ++ after)) := List.perm_middle
        _ |>.Perm (e :: r.started.filter (sounds table n)) := h.sounding.cons e
        _ |>.Perm (r.started.filter (sounds table n) ++ [e]) :=
          (List.perm_append_singleton _ _).symm
    · intro e' he'
      rcases List.mem_append.mp he' with hold | hnew
      · exact h.started e' hold
      · rw [List.mem_singleton.mp hnew]
        exact ⟨Nat.le_refl n, hkind⟩
    · exact (length_startSfx _ _).trans h.two

/-- All requests are served, if none of them is zero. -/
theorem serves_poppedAll (kinds : List UInt8) (hkinds : ∀ kind ∈ kinds, kind ≠ 0)
    (h : Serves table n r playing) : ∃ playing', Serves table n (poppedAll n kinds r) playing' := by
  induction kinds generalizing r playing with
  | nil => exact ⟨playing, h⟩
  | cons kind kinds ih =>
      obtain ⟨hkind, hrest⟩ := List.forall_mem_cons.mp hkinds
      obtain ⟨playing', h'⟩ := serves_popped h hkind
      exact ih hrest h'

theorem heard_succ {e : Effect} (hstart : e.start ≤ n) : heard e (n + 1) 0 = heard e n 0 + 960 := by
  unfold heard
  omega

theorem sounds_succ_iff {e : Effect} (hstart : e.start ≤ n) :
    sounds table (n + 1) e = true ↔ heard e n 0 + 960 < (source table e).length := by
  simp only [sounds, heard_succ hstart, Bool.or_eq_true, Bool.and_eq_true, decide_eq_true_eq]
  omega

/-- An effect that is on in the next frame is on in this one. -/
theorem sounds_of_succ {e : Effect} (hstart : e.start ≤ n) (h : sounds table (n + 1) e = true) :
    sounds table n e = true := by
  have hleft := (sounds_succ_iff hstart).mp h
  simp only [sounds, Bool.or_eq_true, Bool.and_eq_true, decide_eq_true_eq]
  omega

/-- An effect that is on in the next frame moves on to it, and any other one leaves its slot. -/
theorem advanceSfx_slotAt {sh : Shared Frame} (htable : sh.sfxSamples = table) {e : Effect}
    (hstart : e.start ≤ n) (hkind : e.kind ≠ 0) :
    if sounds table (n + 1) e then advanceSfx sh (slotAt n e) = slotAt (n + 1) e
    else (advanceSfx sh (slotAt n e)).kind = 0 := by
  have hsource : sfxSource sh (slotAt n e) = source table e := by
    rw [← htable]
    rfl
  have hsize : frameSize.toNat = 960 := rfl
  have hsounds := @sounds_succ_iff table n e hstart
  have hadvance : advanceSfx sh (slotAt n e) =
      if heard e n 0 ≥ (source table e).length then { kind := 0, pos := heard e n 0 }
      else
        { kind := if min (heard e n 0 + 960) (source table e).length ≥ (source table e).length
            then 0 else e.kind
          pos := min (heard e n 0 + 960) (source table e).length } := by
    unfold advanceSfx
    rw [hsource, if_neg (show ¬ (slotAt n e).kind = 0 from hkind)]
    rfl
  rw [hadvance]
  by_cases hon : heard e n 0 + 960 < (source table e).length
  · rw [if_pos (hsounds.mpr hon), if_neg (show ¬ heard e n 0 ≥ _ by omega),
      Nat.min_eq_left (by omega), if_neg (by omega), slotAt, heard_succ hstart]
  · rw [if_neg fun h => hon (hsounds.mp h), Nat.min_eq_right (by omega), if_pos (Nat.le_refl _)]
    split <;> rfl

/-- Idle slots stay idle. -/
theorem busy_map_advanceSfx (sh : Shared Frame) (slots : List SfxSlot) :
    busy (slots.map (advanceSfx sh)) = busy ((busy slots).map (advanceSfx sh)) := by
  induction slots with
  | nil => rfl
  | cons slot slots ih =>
      by_cases hidle : slot.kind = 0
      · have hadvance : advanceSfx sh slot = slot := by rw [advanceSfx, if_pos hidle]
        have hdrop (rest : List SfxSlot) : busy (slot :: rest) = busy rest :=
          List.filter_cons_of_neg (by simpa using hidle)
        rw [List.map_cons, hadvance, hdrop, hdrop, ih]
      · have hkeep : busy (slot :: slots) = slot :: busy slots :=
          List.filter_cons_of_pos (by simpa using hidle)
        rw [hkeep, List.map_cons, List.map_cons]
        unfold busy at ih ⊢
        rw [List.filter_cons, List.filter_cons, ih]

/-- A slot is busy as long as its effect has samples left. -/
theorem busy_advanceSfx_slotAt {sh : Shared Frame} (htable : sh.sfxSamples = table)
    (playing : List Effect) (h : ∀ e ∈ playing, e.start ≤ n ∧ e.kind ≠ 0) :
    busy ((playing.map (slotAt n)).map (advanceSfx sh)) =
      (playing.filter (sounds table (n + 1))).map (slotAt (n + 1)) := by
  induction playing with
  | nil => rfl
  | cons e playing ih =>
      obtain ⟨⟨hstart, hkind⟩, hrest⟩ := List.forall_mem_cons.mp h
      have hmoves := advanceSfx_slotAt htable hstart hkind
      rw [List.map_cons, List.map_cons]
      by_cases hon : sounds table (n + 1) e = true
      · rw [if_pos hon] at hmoves
        rw [hmoves, List.filter_cons_of_pos hon, List.map_cons, ← ih hrest]
        exact List.filter_cons_of_pos (decide_eq_true hkind)
      · rw [if_neg hon] at hmoves
        rw [List.filter_cons_of_neg hon, ← ih hrest]
        exact List.filter_cons_of_neg (by simpa using hmoves)

/-- The slots are advanced, and the account is that of the next frame. -/
theorem serves_advance {sh : Shared Frame} (htable : sh.sfxSamples = table)
    (h : Serves table n r playing) :
    Serves table (n + 1) { r with slots := r.slots.map (advanceSfx sh) }
      (playing.filter (sounds table (n + 1))) := by
  have hplaying : ∀ e ∈ playing, e.start ≤ n ∧ e.kind ≠ 0 := fun e he =>
    h.started e (List.mem_of_mem_filter (h.sounding.mem_iff.mp he))
  constructor
  · show busy (r.slots.map (advanceSfx sh)) = _
    rw [busy_map_advanceSfx, h.slots, busy_advanceSfx_slotAt htable playing hplaying]
  · have hfilter : (r.started.filter (sounds table n)).filter (sounds table (n + 1)) =
        r.started.filter (sounds table (n + 1)) := by
      rw [List.filter_filter]
      refine List.filter_congr fun e he => ?_
      cases hon : sounds table (n + 1) e with
      | false => rfl
      | true => rw [sounds_of_succ (h.started e he).1 hon, Bool.and_true]
    rw [← hfilter]
    exact h.sounding.filter _
  · intro e he
    exact ⟨Nat.le_succ_of_le (h.started e he).1, (h.started e he).2⟩
  · exact (List.length_map _).trans h.two
  · exact h.dropped

/-! ### The requests of a stream -/

/-- The requests after those of mix frame `n` were popped. -/
def requestsIn (shared : Nat → Shared Frame) (n : Nat) : Requests :=
  poppedAll n (shared n).sfxQueue (requests shared n)

/-- The request ids that sounds have. -/
def IsSfx (kind : UInt8) : Prop := 1 ≤ kind.toNat ∧ kind.toNat ≤ 37

theorem ne_zero_of_isSfx {kind : UInt8} (h : IsSfx kind) : kind ≠ 0 := by
  rintro rfl
  exact absurd h.1 (by decide)

section

variable {shared : Nat → Shared Frame} (htable : ∀ n, (shared n).sfxSamples = table)
  (hkinds : ∀ n, ∀ kind ∈ (shared n).sfxQueue, IsSfx kind)

include hkinds in
theorem serves_requestsIn (h : Serves table n (requests shared n) playing) :
    ∃ playing', Serves table n (requestsIn shared n) playing' :=
  serves_poppedAll _ (fun kind hkind => ne_zero_of_isSfx (hkinds n kind hkind)) h

include htable hkinds in
/-- All requests of the frames before are served. -/
theorem serves_requests (n : Nat) : ∃ playing, Serves table n (requests shared n) playing := by
  induction n with
  | zero => exact ⟨[], rfl, .nil, nofun, rfl, nofun⟩
  | succ n ih =>
      obtain ⟨playing, h⟩ := ih
      obtain ⟨playing', h'⟩ := serves_requestsIn hkinds h
      exact ⟨_, serves_advance (htable n) h'⟩

end

/-- What is started for mix frame `n` starts in it. -/
theorem started_poppedAll (n : Nat) (kinds : List UInt8) (r : Requests) :
    ∃ new, (poppedAll n kinds r).started = r.started ++ new ∧ ∀ e ∈ new, e.start = n := by
  induction kinds generalizing r with
  | nil => exact ⟨[], (List.append_nil _).symm, nofun⟩
  | cons kind kinds ih =>
      obtain ⟨new, hnew, hstart⟩ := ih (popped n r kind)
      by_cases hsame : startSfx r.slots kind = r.slots
      · have hstarted : (popped n r kind).started = r.started := by rw [popped, if_pos hsame]
        exact ⟨new, hnew.trans (congrArg (· ++ new) hstarted), hstart⟩
      · have hstarted :
            (popped n r kind).started = r.started ++ [{ kind := kind, start := n }] := by
          rw [popped, if_neg hsame]
        refine ⟨{ kind := kind, start := n } :: new, hnew.trans ?_, ?_⟩
        · rw [hstarted, List.append_assoc, List.singleton_append]
        · exact List.forall_mem_cons.mpr ⟨rfl, hstart⟩

/-- The effects that are on in a frame are known when its requests were popped. -/
theorem sounding_eq {shared : Nat → Shared Frame} {m : Nat} (h : n < m) :
    (requests shared m).started.filter (sounds table n) =
      (requestsIn shared n).started.filter (sounds table n) := by
  induction m with
  | zero => exact absurd h (Nat.not_lt_zero n)
  | succ m ih =>
      rcases Nat.lt_succ_iff_lt_or_eq.mp h with hlt | rfl
      · obtain ⟨new, hnew, hstart⟩ :=
          started_poppedAll m (shared m).sfxQueue (requests shared m)
        have hnone : new.filter (sounds table n) = [] := by
          refine List.filter_eq_nil_iff.mpr fun e he hon => ?_
          have := hstart e he
          simp only [sounds, Bool.or_eq_true, Bool.and_eq_true, decide_eq_true_eq] at hon
          omega
        show (poppedAll m _ _).started.filter _ = _
        rw [hnew, List.filter_append, hnone, List.append_nil, ih hlt]
      · rfl

/-- The requests that were started or dropped. -/
def outcomes (r : Requests) : List UInt8 :=
  r.started.map Effect.kind ++ r.dropped.map Prod.fst

/-- A request has one outcome. -/
theorem outcomes_popped (n : Nat) (r : Requests) (kind : UInt8) :
    (outcomes (popped n r kind)).Perm (kind :: outcomes r) := by
  unfold popped
  split
  · show List.Perm (_ ++ (r.dropped ++ [(kind, r.slots)]).map Prod.fst) _
    rw [List.map_append, ← List.append_assoc]
    exact List.perm_append_singleton _ _
  · show List.Perm ((r.started ++ [(⟨kind, n⟩ : Effect)]).map Effect.kind ++ _) _
    rw [List.map_append, List.append_assoc]
    exact List.perm_middle

/-- So has each of many. -/
theorem outcomes_poppedAll (n : Nat) (kinds : List UInt8) (r : Requests) :
    (outcomes (poppedAll n kinds r)).Perm (kinds ++ outcomes r) := by
  induction kinds generalizing r with
  | nil => exact .refl _
  | cons kind kinds ih =>
      calc (outcomes (poppedAll n kinds (popped n r kind))).Perm
            (kinds ++ outcomes (popped n r kind)) := ih _
        _ |>.Perm (kinds ++ kind :: outcomes r) := (outcomes_popped n r kind).append_left _
        _ |>.Perm (kind :: (kinds ++ outcomes r)) := List.perm_middle

/-- Every request that was popped was started or dropped. -/
theorem outcomes_requests (shared : Nat → Shared Frame) (n : Nat) :
    ((List.range n).flatMap fun k => (shared k).sfxQueue).Perm (outcomes (requests shared n)) := by
  induction n with
  | zero => exact .nil
  | succ n ih =>
      rw [List.range_succ, List.flatMap_append, List.flatMap_singleton]
      calc ((List.range n).flatMap (fun k => (shared k).sfxQueue) ++ (shared n).sfxQueue).Perm
            (outcomes (requests shared n) ++ (shared n).sfxQueue) := ih.append_right _
        _ |>.Perm ((shared n).sfxQueue ++ outcomes (requests shared n)) := List.perm_append_comm
        _ |>.Perm (outcomes (requestsIn shared n)) := (outcomes_poppedAll n _ _).symm

/-! ### The slots and the frames of a stream -/

section

variable {v : Voice Frame} {shared : Nat → Shared Frame} {st : OutputStream}

/-- The slots behind many requests. -/
theorem slots_poppedAll (n : Nat) (kinds : List UInt8) (r : Requests) :
    (poppedAll n kinds r).slots = kinds.foldl startSfx r.slots := by
  induction kinds generalizing r with
  | nil => rfl
  | cons kind kinds ih =>
      show (poppedAll n kinds (popped n r kind)).slots = _
      rw [ih, slots_popped, List.foldl_cons]

/-- The slots are those of `requests`, and each frame was mixed from them. -/
structure Follows (v : Voice Frame) (shared : Nat → Shared Frame) (st : OutputStream) : Prop where
  slots : st.sfxSlots = (requests shared st.mixed.length).slots
  frames : ∀ n slot buf, st.mixed[n]? = some (slot, buf) →
    buf = (mixFrame v (shared n) (requests shared n).slots slot).1

/-- Going on to a sample keeps the stream in step with the requests. -/
theorem follows_enterFrame (h : Follows v shared st) (slot : UInt64) :
    Follows v shared (st.enterFrame v shared slot) := by
  unfold OutputStream.enterFrame
  -- A new frame is mixed with the sounds of that moment. Within a frame nothing changes.
  split
  · constructor
    · show (mixFrame v _ st.sfxSlots slot).2 = (requests shared (st.mixed ++ [_]).length).slots
      rw [List.length_append, List.length_singleton, h.slots, requests]
      show _ = (poppedAll _ _ _).slots.map _
      rw [slots_poppedAll]
      rfl
    · intro n slot' buf hn
      rcases Nat.lt_or_ge n st.mixed.length with hlt | hge
      · exact h.frames n slot' buf ((List.getElem?_append_left hlt).symm.trans hn)
      · -- The only frame that is not older is the new one.
        rw [List.getElem?_append_right hge, List.getElem?_singleton] at hn
        split at hn
        · have hlength : n = st.mixed.length := by omega
          cases hn
          rw [hlength, h.slots]
        · cases hn
  · exact h

/-- The copying keeps the stream in step with the requests. -/
theorem follows_copyLoop (remaining : Nat) (slot : UInt64) (offset : Fin frameSize.toNat)
    (h : Follows v shared st) :
    Follows v shared (st.copyLoop v shared remaining slot offset).1 := by
  fun_induction OutputStream.copyLoop v shared remaining slot offset st with
  | case1 => exact h
  | case2 remaining slot offset st hne st' copy out r ihEnd ihGo =>
      have hentered : Follows v shared st' := follows_enterFrame h slot
      show Follows v shared r.1
      by_cases hend : offset.val + copy ≥ frameSize.toNat
      · rw [show r = _ from dif_pos hend]
        exact ihEnd hend hentered
      · rw [show r = _ from dif_neg hend]
        exact ihGo hend hentered

/-- So do all callbacks. -/
theorem follows_play (v : Voice Frame) (shared : Nat → Shared Frame) (lens : List UInt64) :
    Follows v shared (OutputStream.play v shared lens).1 := by
  induction lens using List.reverseRecOn with
  | nil => exact ⟨rfl, nofun⟩
  | append_singleton lens len ih =>
      rw [play_concat]
      have hloop := follows_copyLoop len.toNat
        ((OutputStream.play v shared lens).1.playedSamples / frameSize)
        ⟨((OutputStream.play v shared lens).1.playedSamples % frameSize).toNat,
          Nat.mod_lt _ (by decide)⟩ ih
      exact ⟨hloop.slots, hloop.frames⟩

end

/-! ### The samples of a frame -/

/-- Idle slots add nothing. -/
theorem foldl_addSfx_busy (sh : Shared Frame) (i : Nat) (s : Float32) (slots : List SfxSlot) :
    slots.foldl (addSfx sh i) s = (busy slots).foldl (addSfx sh i) s := by
  induction slots generalizing s with
  | nil => rfl
  | cons slot slots ih =>
      by_cases hidle : slot.kind = 0
      · have hdrop : busy (slot :: slots) = busy slots :=
          List.filter_cons_of_neg (by simpa using hidle)
        rw [List.foldl_cons, hdrop, ih, addSfx, if_pos hidle]
      · have hkeep : busy (slot :: slots) = slot :: busy slots :=
          List.filter_cons_of_pos (by simpa using hidle)
        rw [hkeep, List.foldl_cons, List.foldl_cons, ih]

/-- A slot adds the sample of its effect. -/
theorem addSfx_slotAt {sh : Shared Frame} (htable : sh.sfxSamples = table) {e : Effect}
    (hkind : e.kind ≠ 0) (i : Nat) (s : Float32) :
    addSfx sh i s (slotAt n e) = addEffect table n i s e := by
  have hsource : sfxSource sh (slotAt n e) = source table e := by
    rw [← htable]
    rfl
  have hpos : (slotAt n e).pos + i = heard e n i := by
    rw [slotAt, heard, heard, Nat.add_zero]
  have hbusy : ¬ (slotAt n e).kind = 0 := hkind
  cases hx : (source table e)[heard e n i]? with
  | none => simp only [addSfx, addEffect, if_neg hbusy, hsource, hpos, hx]
  | some x => simp only [addSfx, addEffect, if_neg hbusy, hsource, hpos, hx]

theorem getElem_ofFn {α : Type} {size : Nat} (f : Fin size → α) (i : Fin size) :
    (Vector.ofFn f)[i] = f i :=
  Vector.getElem_ofFn i.isLt

/-- A frame is the voices and the effects that are on in it. -/
theorem sample_mixFrame {shared : Nat → Shared Frame} (v : Voice Frame)
    (htable : (shared n).sfxSamples = table) (h : Serves table n (requestsIn shared n) playing)
    (slot : UInt64) (i : Fin frameSize.toNat) :
    (mixFrame v (shared n) (requests shared n).slots slot).1[i] =
      clamp (-1) 1 (playing.foldl (addEffect table n i)
        (attenuated (voices v (shared n) slot) i)) := by
  have hplaying : ∀ e ∈ playing, e.kind ≠ 0 := fun e he =>
    (h.started e (List.mem_of_mem_filter (h.sounding.mem_iff.mp he))).2
  have hslots : ((shared n).sfxQueue.foldl startSfx (requests shared n).slots) =
      (requestsIn shared n).slots := (slots_poppedAll n _ _).symm
  have hadd (s : Float32) : (requestsIn shared n).slots.foldl (addSfx (shared n) i) s =
      playing.foldl (addEffect table n i) s := by
    rw [foldl_addSfx_busy, h.slots, List.foldl_map]
    exact List.foldl_ext _ _ _ fun s e he => addSfx_slotAt htable (hplaying e he) i s
  unfold mixFrame
  rw [hslots, ← hadd]
  exact getElem_ofFn _ i

/-- Each sample of an effect is heard in one place. -/
theorem heard_eq_iff {e : Effect} {i q : Nat} (hstart : e.start ≤ n) (hi : i < 960) :
    heard e n i = q ↔ n = e.start + q / 960 ∧ i = q % 960 := by
  unfold heard
  omega

/-- The effect is on in the frames of its samples. -/
theorem sounds_of_lt {e : Effect} {q : Nat} (hq : q < (source table e).length) :
    sounds table (e.start + q / 960) e = true := by
  have hheard : heard e (e.start + q / 960) 0 = q / 960 * 960 := by
    unfold heard
    omega
  simp only [sounds, hheard, Bool.or_eq_true, Bool.and_eq_true, decide_eq_true_eq]
  omega

/-- While the samples do not change, every request that the callbacks pop is started or dropped, and
it is dropped only if both slots are busy. A mix frame is the voices, and on top of them the effects
that are on in it, each once and at most two: the ones that start there, and the older ones that
have samples left. Each sample of an effect is heard in one place, `q / 960` frames after the first
one, and the effect is on there. -/
theorem effects_of_play (v : Voice Frame) (shared : Nat → Shared Frame) (table : EffectTable)
    (lens : List UInt64) (htable : ∀ n, (shared n).sfxSamples = table)
    (hkinds : ∀ n, ∀ kind ∈ (shared n).sfxQueue, IsSfx kind) :
    let st := (OutputStream.play v shared lens).1
    let r := requests shared st.mixed.length
    st.sfxSlots = r.slots ∧
      ((List.range st.mixed.length).flatMap fun n => (shared n).sfxQueue).Perm
        (r.started.map Effect.kind ++ r.dropped.map Prod.fst) ∧
      (∀ d ∈ r.dropped, d.2.length = 2 ∧ ∀ slot ∈ d.2, slot.kind ≠ 0) ∧
      (∀ n slot buf, st.mixed[n]? = some (slot, buf) →
        ∃ playing : List Effect,
          playing.Perm (r.started.filter (sounds table n)) ∧ playing.length ≤ 2 ∧
          ∀ i : Fin frameSize.toNat, buf[i] = clamp (-1) 1
            (playing.foldl (addEffect table n i) (attenuated (voices v (shared n) slot) i))) ∧
      ∀ e ∈ r.started, ∀ q < (source table e).length,
        sounds table (e.start + q / 960) e = true ∧
        ∀ n i, e.start ≤ n → i < 960 →
          (heard e n i = q ↔ n = e.start + q / 960 ∧ i = q % 960) := by
  intro st r
  have hfollows : Follows v shared st := follows_play v shared lens
  obtain ⟨_, hserves⟩ := serves_requests htable hkinds st.mixed.length
  refine ⟨hfollows.slots, outcomes_requests shared _, hserves.dropped, ?_, ?_⟩
  · intro n slot buf hn
    obtain ⟨playing, hplaying⟩ := serves_requests htable hkinds n
    obtain ⟨playing', hplaying'⟩ := serves_requestsIn hkinds hplaying
    refine ⟨playing', ?_, ?_, fun i => ?_⟩
    · have hlt : n < st.mixed.length := (List.getElem?_eq_some_iff.mp hn).1
      rw [sounding_eq hlt]
      exact hplaying'.sounding
    · -- There are no more effects than slots.
      calc playing'.length
          = (busy (requestsIn shared n).slots).length := by
            rw [hplaying'.slots, List.length_map]
        _ ≤ (requestsIn shared n).slots.length := List.length_filter_le _ _
        _ = 2 := hplaying'.two
    · rw [hfollows.frames n slot buf hn]
      exact sample_mixFrame v (htable n) hplaying' slot i
  · intro e _ q hq
    exact ⟨sounds_of_lt hq, fun n i hstart hi => heard_eq_iff hstart hi⟩

/-- Three requests at once, of sounds that are longer than one frame. -/
def threeRequests : Nat → Shared Unit := fun n =>
  { nobody with
      sfxQueue := if n = 0 then [1, 2, 3] else []
      sfxSamples := [some (List.replicate 1000 1), some (List.replicate 970 1), none] }

/-- The third one is dropped, and the other two sound in both frames. -/
theorem effects_threeRequests :
    let r := requests threeRequests 2
    r.started = [⟨1, 0⟩, ⟨2, 0⟩] ∧ r.dropped.map Prod.fst = [3] ∧
      ∀ d ∈ r.dropped, d.2.length = 2 ∧ ∀ slot ∈ d.2, slot.kind ≠ 0 := by
  have hlength : (OutputStream.play mute threeRequests [1920]).1.mixed.length = 2 := by
    have h := (written_of_play mute threeRequests [1920]).2 (by decide)
    rw [h.2.2.1, length_mixes]
    rfl
  obtain ⟨-, -, hdropped, -⟩ :=
    effects_of_play mute threeRequests (threeRequests 0).sfxSamples [1920]
    (fun _ => rfl) fun n kind hkind => by
      unfold threeRequests at hkind
      split at hkind
      · fin_cases hkind <;> exact ⟨by decide, by decide⟩
      · cases hkind
  rw [hlength] at hdropped
  exact ⟨by decide, by decide, hdropped⟩

end Nek0.Proofs.Audio
