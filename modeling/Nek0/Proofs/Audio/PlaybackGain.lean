import Nek0.Audio.Volumes

/-!
# `Nek0.Proofs.Audio.PlaybackGain`: when a playback gain follows the user

Talking, mixing, the clean-up and a restart never part a buffer from its user's stored volume. Two
operations can. `ts_set_client_volume` stores the volume under the UID, but changes the buffer of
one client id only, and a user can be there under two ids. A new roster can give a client id with a
live buffer to a user with another stored volume, and the buffer keeps its gain.

`keepsUser` says when they do not, and `followsUser_next_iff` that it is exactly then.
`followsUser_of_run` is the statement over whole runs.
-/

set_option autoImplicit false

namespace Nek0.Proofs.Audio

open Nek0.Audio
open Nek0.Audio.Volumes (Event next system)
open Nek0.Native (Instant TsClient)

variable {Frame : Type}

/-! ### Gains -/

/-- A factor is a power of ten. -/
theorem factor_eq (g : Gain) : g.factor = (10 : ℝ) ^ ((g.level : ℝ) / 20) := by
  cases g with
  | unity => simp [Gain.factor, Gain.level]
  | ofDecibel v => rfl

/-- Equal factors are equal decibels. -/
theorem factor_eq_iff (g g' : Gain) : g.factor = g'.factor ↔ g.level = g'.level := by
  rw [factor_eq, factor_eq]
  constructor
  · intro h
    have hexp : (g.level : ℝ) / 20 = (g'.level : ℝ) / 20 :=
      (Real.rpow_right_inj (by norm_num) (by norm_num)).mp h
    have hlevel : (g.level : ℝ) = (g'.level : ℝ) := by linarith
    exact_mod_cast hlevel
  · intro h
    rw [h]

/-- `FollowsUser` in decibels. -/
theorem followsUser_iff (s : AudioState Frame) :
    s.FollowsUser ↔ ∀ id buf uid, s.clientBuffers id = some buf → s.uidOf id = some uid →
      buf.volume.level = (s.storedGain uid).level := by
  unfold AudioState.FollowsUser
  refine forall₃_congr fun id buf uid => imp_congr_right fun _ => imp_congr_right fun _ => ?_
  rw [← factor_eq_iff]
  unfold AudioState.storedGain
  cases s.clientVolumes uid <;> rfl

/-! ### The operations that keep it -/

/-- The live buffers of `s'` are live in `s`, with the same gain, and mean the same. -/
structure SubVolumes (s s' : AudioState Frame) : Prop where
  clients : s'.clients = s.clients
  volumes : s'.clientVolumes = s.clientVolumes
  buffers : ∀ id buf', s'.clientBuffers id = some buf' →
    ∃ buf, s.clientBuffers id = some buf ∧ buf'.volume = buf.volume

/-- Two steps in a row. -/
theorem SubVolumes.trans {s s' s'' : AudioState Frame} (h : SubVolumes s s')
    (h' : SubVolumes s' s'') : SubVolumes s s'' := by
  refine ⟨h'.clients.trans h.clients, h'.volumes.trans h.volumes, ?_⟩
  intro id buf hbuf
  obtain ⟨buf', hbuf', hvolume'⟩ := h'.buffers id buf hbuf
  obtain ⟨buf'', hbuf'', hvolume''⟩ := h.buffers id buf' hbuf'
  exact ⟨buf'', hbuf'', hvolume'.trans hvolume''⟩

/-- A step that only drops buffers and volumes follows the user as before. -/
theorem SubVolumes.followsUser {s s' : AudioState Frame} (h : SubVolumes s s')
    (hs : s.FollowsUser) : s'.FollowsUser := by
  intro id buf uid hbuf huid
  obtain ⟨old, hold, hvolume⟩ := h.buffers id buf hbuf
  rw [hvolume, h.volumes]
  refine hs id old uid hold ?_
  rw [← huid]
  simp only [AudioState.uidOf, h.clients]

/-- The reader does not touch the gain. -/
theorem volume_takeFrame (buf : ClientJitterBuffer Frame) (slot : UInt64) :
    (buf.takeFrame slot).1.volume = buf.volume := by
  simp only [ClientJitterBuffer.takeFrame]
  repeat' split
  all_goals rfl

/-- Nor does a packet. -/
theorem volume_accept (buf : ClientJitterBuffer Frame) (currentSlot : UInt64) (now : Instant)
    (seq : UInt16) (frame : Frame) :
    (buf.accept currentSlot now seq frame).volume = buf.volume := by
  have hinit : (buf.initBase seq currentSlot).volume = buf.volume := by
    unfold ClientJitterBuffer.initBase
    split <;> rfl
  unfold ClientJitterBuffer.accept
  dsimp only
  repeat' split
  all_goals exact hinit

/-- Mixing a client keeps the live buffers and their gains. -/
theorem subVolumes_mixClient (slot : UInt64) (st : AudioState Frame × List (UInt16 × Frame))
    (clientId : UInt16) : SubVolumes st.1 (AudioState.mixClient slot st clientId).1 := by
  unfold AudioState.mixClient
  cases hold : st.1.clientBuffers clientId with
  | none => exact ⟨rfl, rfl, fun _ buf hbuf => ⟨buf, hbuf, rfl⟩⟩
  | some old =>
      refine ⟨rfl, rfl, ?_⟩
      intro id buf hbuf
      by_cases hid : id = clientId
      · subst hid
        dsimp only at hbuf
        rw [Function.update_self] at hbuf
        obtain rfl := Option.some.inj hbuf
        exact ⟨old, hold, volume_takeFrame old slot⟩
      · dsimp only at hbuf
        rw [Function.update_of_ne hid] at hbuf
        exact ⟨buf, hbuf, rfl⟩

/-- So does mixing all clients. -/
theorem subVolumes_foldl (slot : UInt64) (ids : List UInt16)
    (st : AudioState Frame × List (UInt16 × Frame)) :
    SubVolumes st.1 (ids.foldl (AudioState.mixClient slot) st).1 := by
  induction ids generalizing st with
  | nil => exact ⟨rfl, rfl, fun _ buf hbuf => ⟨buf, hbuf, rfl⟩⟩
  | cons clientId ids ih => exact (subVolumes_mixClient slot st clientId).trans (ih _)

/-- So does the clean-up. -/
theorem subVolumes_cleanUp (s : AudioState Frame) (now : Instant) :
    SubVolumes s (s.cleanUp now) := by
  refine ⟨rfl, rfl, ?_⟩
  intro id buf hbuf
  exact ⟨buf, (Option.mem_filter_iff.mp hbuf).1, rfl⟩

theorem subVolumes_restart (s : AudioState Frame) : SubVolumes s s.restart := by
  refine ⟨rfl, rfl, ?_⟩
  intro id buf hbuf
  cases hbuf

/-- The gain of a new buffer is the one stored for the UID. -/
theorem inheritedGain_of_uid {s : AudioState Frame} {id : UInt16} {uid : String}
    (h : s.uidOf id = some uid) : s.inheritedGain id = s.storedGain uid := by
  unfold AudioState.inheritedGain
  rw [show (s.clients.find? fun c => c.id.toUInt16 == id).bind (·.uid) = some uid from h]
  rfl

/-- A packet keeps it: a buffer that is there keeps its gain, and a new one gets the stored. -/
theorem followsUser_decode {s : AudioState Frame} (hs : s.FollowsUser) (now : Instant)
    (fromId seq : UInt16) (decoded : Option Frame) :
    (s.decodeToClientBuffer now fromId seq decoded).FollowsUser := by
  rw [followsUser_iff] at hs ⊢
  cases decoded with
  | none => exact hs
  | some frame =>
      intro id buf uid hbuf huid
      by_cases hid : id = fromId
      · subst hid
        simp only [AudioState.decodeToClientBuffer, Function.update_self] at hbuf
        obtain rfl := Option.some.inj hbuf
        rw [volume_accept]
        cases hold : s.clientBuffers id with
        | none =>
            have hgain : s.inheritedGain id = s.storedGain uid := inheritedGain_of_uid huid
            exact congrArg Gain.level hgain
        | some old => exact hs id old uid hold huid
      · simp only [AudioState.decodeToClientBuffer, Function.update_of_ne hid] at hbuf
        exact hs id buf uid hbuf huid

/-! ### The operations that may not -/

/-- Does the operation leave every live buffer with its user's volume? A volume is set for a user
no other client id with a live buffer stands for, or who has this volume already. A new roster gives
a client id with a live buffer to nobody with another volume than the user before, or than the
buffer has if there was none. -/
def keepsUser (s : AudioState Frame) : Event Frame → Prop
  | .setClientVolume clientId volumeDb =>
      ∀ other uid, other ≠ clientId → (s.clientBuffers other).isSome →
        s.uidOf clientId = some uid → s.uidOf other = some uid →
        (s.storedGain uid).level = AudioState.clampVolume volumeDb
  | .refresh clients =>
      ∀ id buf uid, s.clientBuffers id = some buf → (s.refresh clients).uidOf id = some uid →
        match s.uidOf id with
        | some old => (s.storedGain old).level = (s.storedGain uid).level
        | none => buf.volume.level = (s.storedGain uid).level
  | _ => True

/-- A new roster. -/
theorem followsUser_refresh_iff {s : AudioState Frame} (hs : s.FollowsUser)
    (clients : List TsClient) :
    (s.refresh clients).FollowsUser ↔ keepsUser s (.refresh clients) := by
  rw [followsUser_iff] at hs ⊢
  have hbefore : ∀ id buf uid, s.clientBuffers id = some buf →
      ((match s.uidOf id with
        | some old => (s.storedGain old).level = (s.storedGain uid).level
        | none => buf.volume.level = (s.storedGain uid).level) ↔
        buf.volume.level = (s.storedGain uid).level) := by
    intro id buf uid hbuf
    cases hold : s.uidOf id with
    | none => rfl
    | some old => rw [hs id buf old hbuf hold]
  constructor
  · intro h id buf uid hbuf huid
    exact (hbefore id buf uid hbuf).mpr (h id buf uid hbuf huid)
  · intro h id buf uid hbuf huid
    exact (hbefore id buf uid hbuf).mp (h id buf uid hbuf huid)

/-- The buffers after a volume was set. -/
theorem clientBuffers_setClientVolume (s : AudioState Frame) (clientId : UInt16) (volumeDb : ℚ)
    (id : UInt16) :
    (s.setClientVolume clientId volumeDb).clientBuffers id =
      if id = clientId then (s.clientBuffers id).map fun buf =>
        { buf with volume := .ofDecibel (AudioState.clampVolume volumeDb) }
      else s.clientBuffers id := by
  have hpersist : (s.persistVolume clientId (AudioState.clampVolume volumeDb)).clientBuffers =
      s.clientBuffers := by
    unfold AudioState.persistVolume
    split <;> rfl
  unfold AudioState.setClientVolume
  dsimp only
  rw [hpersist]
  by_cases hid : id = clientId
  · subst hid
    rw [if_pos rfl]
    cases hbuf : s.clientBuffers id with
    | none => rw [hpersist, hbuf]; rfl
    | some buf => exact Function.update_self _ _ _
  · rw [if_neg hid]
    cases s.clientBuffers clientId with
    | none => rw [hpersist]
    | some buf =>
        rw [← hpersist]
        exact Function.update_of_ne hid _ _

/-- The users stay the same. -/
theorem uidOf_setClientVolume (s : AudioState Frame) (clientId : UInt16) (volumeDb : ℚ)
    (id : UInt16) : (s.setClientVolume clientId volumeDb).uidOf id = s.uidOf id := by
  unfold AudioState.setClientVolume AudioState.persistVolume
  dsimp only
  repeat' split
  all_goals rfl

/-- The stored volumes after one was set. -/
theorem storedGain_setClientVolume (s : AudioState Frame) (clientId : UInt16) (volumeDb : ℚ)
    (uid : String) :
    (s.setClientVolume clientId volumeDb).storedGain uid =
      if s.uidOf clientId = some uid then .ofDecibel (AudioState.clampVolume volumeDb)
      else s.storedGain uid := by
  have hvolumes : (s.setClientVolume clientId volumeDb).clientVolumes =
      (s.persistVolume clientId (AudioState.clampVolume volumeDb)).clientVolumes := by
    unfold AudioState.setClientVolume
    dsimp only
    split <;> rfl
  unfold AudioState.storedGain
  rw [hvolumes]
  unfold AudioState.persistVolume
  cases huid : s.uidOf clientId with
  | none => rfl
  | some u =>
      by_cases hu : u = uid
      · subst hu
        simp
      · rw [if_neg fun h => hu (Option.some.inj h)]
        simp only
        rw [Function.update_of_ne (Ne.symm hu)]

/-- A volume is set. -/
theorem followsUser_setClientVolume_iff {s : AudioState Frame} (hs : s.FollowsUser)
    (clientId : UInt16) (volumeDb : ℚ) :
    (s.setClientVolume clientId volumeDb).FollowsUser ↔
      keepsUser s (.setClientVolume clientId volumeDb) := by
  rw [followsUser_iff] at hs ⊢
  simp only [clientBuffers_setClientVolume, uidOf_setClientVolume, storedGain_setClientVolume]
  constructor
  · intro h other uid hne hlive huid hother
    obtain ⟨buf, hbuf⟩ := Option.isSome_iff_exists.mp hlive
    have hnew := h other buf uid (by rw [if_neg hne, hbuf]) hother
    rw [if_pos huid] at hnew
    rw [← hs other buf uid hbuf hother, hnew]
    rfl
  · intro h id buf uid hbuf hid
    by_cases hself : id = clientId
    · subst hself
      rw [if_pos rfl] at hbuf
      obtain ⟨old, _, rfl⟩ := Option.map_eq_some_iff.mp hbuf
      rw [if_pos hid]
    · rw [if_neg hself] at hbuf
      rw [hs id buf uid hbuf hid]
      by_cases hsame : s.uidOf clientId = some uid
      · rw [if_pos hsame]
        exact h id uid hself (by rw [hbuf]; rfl) hsame hid
      · rw [if_neg hsame]

/-! ### Runs -/

/-- From a state where every gain follows its user, exactly the operations of `keepsUser` lead to
one. -/
theorem followsUser_next_iff {s : AudioState Frame} (hs : s.FollowsUser) (e : Event Frame) :
    (next e s).FollowsUser ↔ keepsUser s e := by
  cases e with
  | talk fromId seq played now decoded =>
      exact iff_of_true (followsUser_decode (s := { s with playedSamples := played }) hs now
        fromId seq decoded) trivial
  | mix ids slot =>
      exact iff_of_true ((subVolumes_foldl slot ids
        ({ s with activeClientIds := ids }, [])).followsUser hs) trivial
  | cleanUp now => exact iff_of_true ((subVolumes_cleanUp s now).followsUser hs) trivial
  | restart => exact iff_of_true ((subVolumes_restart s).followsUser hs) trivial
  | refresh clients => exact followsUser_refresh_iff hs clients
  | setClientVolume clientId volumeDb => exact followsUser_setClientVolume_iff hs clientId volumeDb

/-- In every run of operations of `keepsUser`, every gain follows its user at all times. -/
theorem followsUser_of_run {s : AudioState Frame} (hrun : system.Run keepsUser s) :
    s.FollowsUser := by
  refine hrun.invariant ?_ ?_
  · intro s hstart id buf uid hbuf
    rw [hstart.noBuffers] at hbuf
    cases hbuf
  · intro s s' e hs hok hnext
    obtain rfl := Option.some.inj hnext
    exact (followsUser_next_iff hs e).mpr hok

/-- The app after its start. -/
def startedApp : AudioState Nat where
  clientBuffers := fun _ => none
  playedSamples := 0
  activeClientIds := []
  clients := []
  clientVolumes := fun _ => none

/-- Client 7 talks, its UID becomes known, and its volume is set to -6 dB. -/
theorem followsUser_lateUid : ∃ s : AudioState Nat,
    (s.clientBuffers 7).map (·.volume) = some (.ofDecibel (-6)) ∧ s.FollowsUser := by
  let s₁ := next (.talk 7 1 0 0 (some 10)) startedApp
  let s₂ := next (.refresh [⟨7, 1, some "anna", 0⟩]) s₁
  have hbuffers : ∀ id buf, s₁.clientBuffers id = some buf → id = 7 ∧ buf.volume = .unity := by
    intro id buf hbuf
    by_cases hid : id = 7
    · subst hid
      obtain rfl := Option.some.inj hbuf
      exact ⟨rfl, rfl⟩
    · exact absurd ((Function.update_of_ne hid _ _).symm.trans hbuf) (by simp [startedApp])
  have hstart : system.Run keepsUser startedApp := .start ⟨rfl, rfl, rfl⟩
  have hrun₁ : system.Run keepsUser s₁ :=
    hstart.step (i := .talk 7 1 0 0 (some 10)) trivial rfl
  have hrun₂ : system.Run keepsUser s₂ := by
    refine hrun₁.step ?_ rfl
    intro id buf uid hbuf _
    exact congrArg Gain.level (hbuffers id buf hbuf).2
  have hrun₃ : system.Run keepsUser (next (.setClientVolume 7 (-6)) s₂) := by
    refine hrun₂.step ?_ rfl
    intro other uid hne hlive _ _
    obtain ⟨buf, hbuf⟩ := Option.isSome_iff_exists.mp hlive
    exact absurd (hbuffers other buf hbuf).1 hne
  exact ⟨_, by decide +kernel, followsUser_of_run hrun₃⟩

/-- Anna is set to -10 dB and talks. Then she leaves, and Ben joins under her client id. -/
def idReused : List (Event Nat) :=
  [.refresh [⟨7, 1, some "anna", 0⟩], .setClientVolume 7 (-10), .talk 7 1 0 0 (some 10),
    .refresh [], .refresh [⟨7, 1, some "ben", 0⟩]]

/-- Ben plays with -10 dB, and nothing is stored for him. -/
theorem not_followsUser : ¬ ∀ s : AudioState Nat, system.Reachable s → s.FollowsUser := by
  intro hall
  obtain ⟨s, hreach, hobs⟩ := Nek0.Lib.System.Run.exists_of_exec system (fun _ _ => True)
    (fun _ _ => true) idReused
    (fun s => ((s.clientBuffers 7).map (·.volume.level), s.uidOf 7, (s.storedGain "ben").level))
    (fun _ _ _ => trivial) (.start (s := startedApp) ⟨rfl, rfl, rfl⟩)
    (a := (some (-10), some "ben", 0)) (by decide +kernel)
  obtain ⟨hlevel, hben⟩ := Prod.mk.inj hobs
  obtain ⟨huid, hstored⟩ := Prod.mk.inj hben
  obtain ⟨buf, hbuf, hvolume⟩ := Option.map_eq_some_iff.mp hlevel
  have heq := (followsUser_iff s).mp (hall s hreach) 7 buf "ben" hbuf huid
  rw [hvolume, hstored] at heq
  norm_num at heq

end Nek0.Proofs.Audio
