import Nek0.Lib.Observer
import Nek0.Proofs.Dart.AvatarFiles

/-!
# `Nek0.Proofs.Dart.AvatarTries`: how often an avatar is tried

`triedOnce_of_run`: between two resets the download of a hash is started at most once, and no
failure outlives a reset, in every run whose downloads fail only in the period they were started in,
and only while their hash is not queued again (`failsInPeriod`).

The state does not tell which downloads were started, so a record is kept (`AvatarTries`). The
invariant is `Tried`: a hash of the record is cached, or failed, or under way.

A hash is queued again if a roster comes while its cache file is probed: it is then neither pending
nor in flight. `_drain` does not look at `_failed`, so it tries the hash again. A reset does not
stop the download that is under way, and its failure counts for the new period.
-/

set_option autoImplicit false

namespace Nek0.Proofs.Dart

open Nek0.Dart
open Nek0.Dart.AvatarCache (Event)
open Nek0.Lib (Observer System)
open Nek0.Lib.System (Run)

/-- The hash of the download that `_drain` waits for. -/
def downloading : Option Await → Option String
  | none => none
  | some (.probe _ _) => none
  | some (.ensureDir hash _) => some hash
  | some (.transfer hash) => some hash
  | some (.rename hash) => some hash
  | some (.copy hash) => some hash
  | some (.remove hash _) => some hash
  | some (.check hash) => some hash

/-- What happened since the last reset: the hashes whose download was started, and whether the
download under way is older than that. `staleFailed` are the hashes that a download marked as failed
behind a reset. -/
structure AvatarTries where
  started : List String
  stale : Bool
  staleFailed : List String
  deriving DecidableEq, Repr

variable {tmp : TempDir} {decode : String → Option (List UInt8)}

/-- The hash whose download an event ends with a failure. -/
def failingHash (tmp : TempDir) (decode : String → Option (List UInt8)) (e : Event)
    (c : AvatarCache) : Option String :=
  match e, c.draining with
  | .ensured ready _, some (.ensureDir hash uid) =>
    if (AvatarCache.avatarTransfer tmp.avatars decode ready hash uid).isNone then some hash
    else none
  | .copied false _, some (.copy hash) => some hash
  | .removed _, some (.remove hash true) => some hash
  | .checked false _, some (.check hash) => some hash
  | _, _ => none

/-- What the record sees. -/
def AvatarTries.see (tmp : TempDir) (decode : String → Option (List UInt8)) (e : Event)
    (c : AvatarCache) (m : AvatarTries) : AvatarTries :=
  match e, c.draining with
  | .reset, _ => { m with started := [], stale := true }
  | .probed false _, some (.probe hash _) =>
    { m with started := m.started ++ [hash], stale := false }
  | _, _ =>
    match failingHash tmp decode e c with
    | some hash => if m.stale then { m with staleFailed := m.staleFailed ++ [hash] } else m
    | none => m

/-- The record of the downloads. -/
def tries (tmp : TempDir) (decode : String → Option (List UInt8)) :
    Observer AvatarCache Event AvatarTries where
  start := { started := [], stale := false, staleFailed := [] }
  see := AvatarTries.see tmp decode

/-- The cache with the record of its downloads. -/
def watched (tmp : TempDir) (decode : String → Option (List UInt8)) :
    System (AvatarCache × AvatarTries) Event :=
  (AvatarCache.system tmp decode).observed (tries tmp decode)

/-- A download fails only in the period it was started in, and while its hash is not queued
again. -/
def failsInPeriod (tmp : TempDir) (decode : String → Option (List UInt8))
    (p : AvatarCache × AvatarTries) (e : Event) : Prop :=
  ∀ hash ∈ failingHash tmp decode e p.1, p.2.stale = false ∧ hash ∉ p.1.pending.map Prod.fst

instance (p : AvatarCache × AvatarTries) (e : Event) : Decidable (failsInPeriod tmp decode p e) :=
  inferInstanceAs (Decidable (∀ hash ∈ failingHash tmp decode e p.1, _))

/-- No hash was tried twice, and none failed behind a reset. -/
def TriedOnce (m : AvatarTries) : Prop := m.started.Nodup ∧ m.staleFailed = []

/-- The hashes of the record while no download is under way. A hash that was tried is cached or has
failed. If it is queued, it is cached. -/
structure Rested (c : AvatarCache) (m : AvatarTries) : Prop where
  once : TriedOnce m
  seen : ∀ hash ∈ m.started, (c.state hash).isSome = true ∨ hash ∈ c.failed
  queued : ∀ hash ∈ m.started, hash ∈ c.pending.map Prod.fst → (c.state hash).isSome = true

/-- The hashes of the record. The one that is under way is neither cached nor failed yet, and it can
be queued again. -/
structure Tried (c : AvatarCache) (m : AvatarTries) : Prop where
  once : TriedOnce m
  seen : ∀ hash ∈ m.started, (c.state hash).isSome = true ∨ hash ∈ c.failed ∨
    downloading c.draining = some hash
  queued : ∀ hash ∈ m.started, hash ∈ c.pending.map Prod.fst →
    (c.state hash).isSome = true ∨ downloading c.draining = some hash
  probed : ∀ hash uid, c.draining = some (.probe hash uid) → hash ∉ m.started

variable {c : AvatarCache} {m : AvatarTries} {hash : String}
  {dir : String} {connected : Nat → Bool}

/-- Where no download is under way, the record rests. -/
theorem Tried.rested (h : Tried c m) (hnone : downloading c.draining = none) : Rested c m where
  once := h.once
  seen := by
    intro hash hmem
    rcases h.seen hash hmem with hstate | hfailed | hunder
    · exact .inl hstate
    · exact .inr hfailed
    · rw [hnone] at hunder
      cases hunder
  queued := by
    intro hash hmem hpending
    rcases h.queued hash hmem hpending with hstate | hunder
    · exact hstate
    · rw [hnone] at hunder
      cases hunder

/-- The record rests, and nothing is waited for. -/
theorem Rested.tried (h : Rested c m) (hdraining : c.draining = none) : Tried c m where
  once := h.once
  seen := fun hash hmem => (h.seen hash hmem).imp_right .inl
  queued := fun hash hmem hpending => .inl (h.queued hash hmem hpending)
  probed := by
    intro hash uid hprobe
    rw [hdraining] at hprobe
    cases hprobe

/-- `_drain` goes on with a part of the queue. A hash that it probes is not cached, so it was not
tried. -/
theorem tried_drainFrom (h : Rested c m) (n : Nat) {pending : List (String × String)}
    (hpending : ∀ entry ∈ pending, entry ∈ c.pending) :
    Tried (c.drainFrom dir connected n pending) m := by
  have hqueued {entry : String × String} (hmem : entry ∈ c.pending)
      (hstarted : entry.1 ∈ m.started) : (c.state entry.1).isSome = true :=
    h.queued _ hstarted (List.mem_map_of_mem hmem)
  -- The induction is on what is left of the queue. All of it was queued before.
  induction pending generalizing n with
  | nil =>
      unfold AvatarCache.drainFrom
      exact Rested.tried ⟨h.once, h.seen, fun _ _ hmem => absurd hmem List.not_mem_nil⟩ rfl
  | cons entry rest ih =>
      obtain ⟨hash, uid⟩ := entry
      have hrest : ∀ entry ∈ rest, entry ∈ c.pending := fun e he => hpending e (.tail _ he)
      unfold AvatarCache.drainFrom
      split
      -- There is no connection, and the rest stays in the queue.
      · refine Rested.tried ⟨h.once, h.seen, fun hash' hstarted hmem => ?_⟩ rfl
        obtain ⟨entry, he, rfl⟩ := List.mem_map.mp hmem
        exact hqueued (hpending entry he) hstarted
      · split
        · exact ih (n + 1) hrest
        -- The hash is not cached, so it has never been tried and is probed now.
        · rename_i hstate
          refine ⟨h.once, fun hash' hmem => (h.seen hash' hmem).imp_right .inl, ?_, ?_⟩
          · intro hash' hstarted hmem
            obtain ⟨entry, he, rfl⟩ := List.mem_map.mp hmem
            exact .inl (hqueued (hrest entry he) hstarted)
          · intro hash' uid' hprobe hstarted
            cases hprobe
            exact hstate (hqueued (hpending _ List.mem_cons_self) hstarted)

theorem tried_drain (h : Rested c m) : Tried (c.drain dir connected) m :=
  tried_drainFrom h 0 fun _ he => he

/-! ### What the steps keep -/

/-- A hash is queued only if it is neither cached nor failed. -/
theorem tried_enqueue (h : Tried c m) (client : AvatarClient) : Tried (c.enqueue client) m := by
  unfold AvatarCache.enqueue
  split
  · exact h
  · rename_i hash uid havatar
    split
    · exact h
    · rename_i hnew
      simp only [Bool.or_eq_true, not_or] at hnew
      refine ⟨h.once, h.seen, ?_, h.probed⟩
      intro hash' hstarted hmem
      rw [List.map_append, List.mem_append, List.map_singleton, List.mem_singleton] at hmem
      rcases hmem with hold | rfl
      · exact h.queued hash' hstarted hold
      · rcases h.seen hash' hstarted with hstate | hfailed | hunder
        · exact .inl hstate
        · exact absurd (List.contains_iff_mem.mpr hfailed) hnew.2
        · exact .inr hunder

/-- Queueing the avatars of a roster keeps the count of tries. -/
theorem tried_enqueues (h : Tried c m) (clients : List AvatarClient) :
    Tried (clients.foldl AvatarCache.enqueue c) m := by
  induction clients generalizing c with
  | nil => exact h
  | cons client clients ih => exact ih (tried_enqueue h client)

/-- It leaves the drain as it is. -/
theorem draining_enqueues (c : AvatarCache) (clients : List AvatarClient) :
    (clients.foldl AvatarCache.enqueue c).draining = c.draining := by
  induction clients generalizing c with
  | nil => rfl
  | cons client clients ih =>
      rw [List.foldl_cons, ih]
      unfold AvatarCache.enqueue
      split
      · rfl
      · split <;> rfl

/-- `updateFromClients` keeps the count of tries. -/
theorem tried_updateFromClients (h : Tried c m) (clients : List AvatarClient) :
    Tried (c.updateFromClients dir connected clients) m := by
  have hqueue := tried_enqueues h clients
  unfold AvatarCache.updateFromClients
  simp only
  split
  · rename_i hcond
    simp only [Bool.and_eq_true, Option.isNone_iff_eq_none] at hcond
    apply tried_drain
    apply hqueue.rested
    rw [draining_enqueues, hcond.2]
    rfl
  · exact hqueue

/-- A cached hash stays cached. -/
theorem isSome_update (state : String → Option String) (hash path hash' : String)
    (h : (state hash').isSome = true) :
    (Function.update state hash (some path) hash').isSome = true := by
  by_cases heq : hash' = hash
  · rw [heq, Function.update_self]
    rfl
  · rw [Function.update_of_ne heq]
    exact h

/-- The cache file is there. -/
theorem tried_found (h : Tried c m) {uid : String} (hwait : c.draining = some (.probe hash uid))
    (path : String) : Tried
      ({ c with state := Function.update c.state hash (some path) }.drain dir connected) m := by
  have hrested := h.rested (congrArg downloading hwait)
  apply tried_drain
  exact {
    once := h.once
    seen := fun hash' hmem => (hrested.seen hash' hmem).imp_left (isSome_update _ _ _ _)
    queued := fun hash' hmem hpending =>
      isSome_update _ _ _ _ (hrested.queued hash' hmem hpending) }

/-- The download of the hash that was probed is started. -/
theorem tried_download (h : Tried c m) {uid : String}
    (hwait : c.draining = some (.probe hash uid)) : Tried (c.download hash uid)
      { m with started := m.started ++ [hash], stale := false } := by
  have hrested := h.rested (congrArg downloading hwait)
  have hnew := h.probed hash uid hwait
  constructor
  · refine ⟨?_, h.once.2⟩
    rw [List.nodup_append]
    refine ⟨h.once.1, List.nodup_singleton hash, ?_⟩
    intro hash' hmem hash'' hmem' heq
    rw [List.mem_singleton.mp hmem'] at heq
    exact hnew (heq ▸ hmem)
  · intro hash' hmem
    rcases List.mem_append.mp hmem with hold | hlast
    · exact (hrested.seen hash' hold).imp_right .inl
    · rw [List.mem_singleton.mp hlast]
      exact .inr (.inr rfl)
  · intro hash' hmem hpending
    rcases List.mem_append.mp hmem with hold | hlast
    · exact .inl (hrested.queued hash' hold hpending)
    · rw [List.mem_singleton.mp hlast]
      exact .inr rfl
  · intro hash' uid' hprobe
    cases hprobe

/-- The download goes on to its next wait. -/
theorem tried_wait (h : Tried c m) {a : Await} {c' : AvatarCache}
    (hkept : c'.state = c.state ∧ c'.failed = c.failed ∧ c'.pending = c.pending)
    (hdraining : c'.draining = some a) (ha : downloading (some a) = downloading c.draining)
    (hsome : downloading c.draining = some hash) : Tried c' m where
  once := h.once
  seen := by
    rw [hkept.1, hkept.2.1, hdraining, ha]
    exact h.seen
  queued := by
    rw [hkept.1, hkept.2.2, hdraining, ha]
    exact h.queued
  probed := by
    intro hash' uid' hprobe
    rw [hdraining, Option.some.injEq] at hprobe
    rw [hprobe, hsome] at ha
    cases ha

/-- The download under way fails, in its period and with its hash out of the queue. -/
theorem tried_fail (h : Tried c m) (hwait : downloading c.draining = some hash)
    (hqueue : hash ∉ c.pending.map Prod.fst) : Tried (c.fail dir connected hash) m := by
  apply tried_drain
  constructor
  · exact h.once
  · intro hash' hmem
    rcases h.seen hash' hmem with hstate | hfailed | hunder
    · exact .inl hstate
    · exact .inr (List.mem_insert_of_mem hfailed)
    · rw [hwait, Option.some.injEq] at hunder
      rw [← hunder]
      exact .inr List.mem_insert_self
  · intro hash' hmem hpending
    rcases h.queued hash' hmem hpending with hstate | hunder
    · exact hstate
    · rw [hwait, Option.some.injEq] at hunder
      exact absurd (hunder ▸ hpending) hqueue

/-- The download under way ends with its file. -/
theorem tried_publish (h : Tried c m) (hwait : downloading c.draining = some hash) :
    Tried (c.publish dir connected hash) m := by
  have hcached : (Function.update c.state hash (some (finalPath dir hash)) hash).isSome = true := by
    rw [Function.update_self]
    rfl
  apply tried_drain
  constructor
  · exact h.once
  · intro hash' hmem
    rcases h.seen hash' hmem with hstate | hfailed | hunder
    · exact .inl (isSome_update _ _ _ _ hstate)
    · exact .inr hfailed
    · rw [hwait, Option.some.injEq] at hunder
      rw [← hunder]
      exact .inl hcached
  · intro hash' hmem hpending
    rcases h.queued hash' hmem hpending with hstate | hunder
    · exact isSome_update _ _ _ _ hstate
    · rw [hwait, Option.some.injEq] at hunder
      rw [← hunder]
      exact hcached

/-! ### Runs -/

/-- A failure that the condition allows leaves the record as it is. -/
theorem see_of_failing {e : Event} (hok : failsInPeriod tmp decode (c, m) e)
    (hreset : e ≠ .reset) (hprobe : ∀ connected, e ≠ .probed false connected) :
    AvatarTries.see tmp decode e c m = m := by
  unfold AvatarTries.see
  split
  · exact absurd rfl hreset
  · rename_i connected hash uid hwait
    exact absurd rfl (hprobe connected)
  · split
    · rename_i hash hfails
      rw [if_neg]
      rw [(hok hash hfails).1]
      exact Bool.false_ne_true
    · rfl

/-- A download that fails is under way. -/
theorem downloading_of_failing {e : Event} (hfails : failingHash tmp decode e c = some hash) :
    downloading c.draining = some hash := by
  unfold failingHash at hfails
  split at hfails
  · rename_i hwait
    rw [hwait]
    split at hfails
    · exact hfails
    · cases hfails
  · rename_i hwait
    rw [hwait]
    exact hfails
  · rename_i hwait
    rw [hwait]
    exact hfails
  · rename_i hwait
    rw [hwait]
    exact hfails
  · cases hfails

/-- A failure that the condition allows. -/
theorem tried_failing {e : Event} (h : Tried c m) (hok : failsInPeriod tmp decode (c, m) e)
    (hfails : failingHash tmp decode e c = some hash) :
    Tried (c.fail dir connected hash) m :=
  tried_fail h (downloading_of_failing hfails) (hok hash hfails).2

/-- Every event keeps the record. -/
theorem tried_of_next {e : Event} {c' : AvatarCache} (h : Tried c m)
    (hok : failsInPeriod tmp decode (c, m) e)
    (hnext : AvatarCache.next tmp.avatars decode e c = some c') :
    Tried c' (AvatarTries.see tmp decode e c m) := by
  unfold AvatarCache.next at hnext
  split at hnext
  · -- A roster.
    cases hnext
    rw [see_of_failing hok nofun nofun]
    exact tried_updateFromClients h _
  · -- Nothing is known about the new period yet.
    cases hnext
    exact ⟨⟨List.nodup_nil, h.once.2⟩, nofun, nofun, fun _ _ _ => List.not_mem_nil⟩
  · -- The probe. Where the file is missing, the record grows.
    rename_i found connected hash uid hwait
    cases found with
    | true =>
        cases hnext
        rw [see_of_failing hok nofun nofun]
        exact tried_found h hwait _
    | false =>
        cases hnext
        have hsee : AvatarTries.see tmp decode (.probed false connected) c m =
            { m with started := m.started ++ [hash], stale := false } := by
          unfold AvatarTries.see
          rw [hwait]
        rw [hsee]
        exact tried_download h hwait
  · -- An exception of the probe.
    rename_i hash uid hwait
    cases hnext
    rw [see_of_failing hok nofun nofun]
    have hrested := h.rested (congrArg downloading hwait)
    exact Rested.tried ⟨hrested.once, hrested.seen, hrested.queued⟩ rfl
  · -- The directory is there, and the transfer starts or fails at once.
    rename_i ready connected hash uid hwait
    cases hnext
    rw [see_of_failing hok nofun nofun]
    have hunder : downloading c.draining = some hash := congrArg downloading hwait
    unfold AvatarCache.startTransfer
    split
    · exact tried_wait (a := .transfer hash) h ⟨rfl, rfl, rfl⟩ rfl hunder.symm hunder
    · rename_i hnone
      apply tried_failing h hok
      unfold failingHash
      rw [hwait]
      simp [hnone]
  · -- The transfer.
    rename_i ok hash hwait
    cases hnext
    rw [see_of_failing hok nofun nofun]
    have hunder : downloading c.draining = some hash := congrArg downloading hwait
    split
    · exact tried_wait (a := .rename hash) h ⟨rfl, rfl, rfl⟩ rfl hunder.symm hunder
    · exact tried_wait (a := .remove hash true) h ⟨rfl, rfl, rfl⟩ rfl hunder.symm hunder
  · -- The renaming.
    rename_i ok hash hwait
    cases hnext
    rw [see_of_failing hok nofun nofun]
    have hunder : downloading c.draining = some hash := congrArg downloading hwait
    split
    · exact tried_wait (a := .check hash) h ⟨rfl, rfl, rfl⟩ rfl hunder.symm hunder
    · exact tried_wait (a := .copy hash) h ⟨rfl, rfl, rfl⟩ rfl hunder.symm hunder
  · -- The copy.
    rename_i ok connected hash hwait
    cases hnext
    rw [see_of_failing hok nofun nofun]
    have hunder : downloading c.draining = some hash := congrArg downloading hwait
    cases ok with
    | true => exact tried_wait (a := .remove hash false) h ⟨rfl, rfl, rfl⟩ rfl hunder.symm hunder
    | false =>
        apply tried_failing h hok
        unfold failingHash
        rw [hwait]
  · -- The temporary file is removed, behind a failure or behind a copy.
    rename_i connected hash transferFailed hwait
    cases hnext
    rw [see_of_failing hok nofun nofun]
    cases transferFailed with
    | true =>
        apply tried_failing h hok
        unfold failingHash
        rw [hwait]
    | false =>
        have hunder : downloading c.draining = some hash := congrArg downloading hwait
        exact tried_wait (a := .check hash) h ⟨rfl, rfl, rfl⟩ rfl hunder.symm hunder
  · -- The last check.
    rename_i found connected hash hwait
    cases hnext
    rw [see_of_failing hok nofun nofun]
    have hunder : downloading c.draining = some hash := congrArg downloading hwait
    cases found with
    | true => exact tried_publish h hunder
    | false =>
        apply tried_failing h hok
        unfold failingHash
        rw [hwait]
  · cases hnext

/-- In a run whose downloads fail only in their period, and only while their hash is not queued
again, every hash is tried at most once between two resets, and no failure outlives a reset. -/
theorem triedOnce_of_run {p : AvatarCache × AvatarTries}
    (hrun : (watched tmp decode).Run (failsInPeriod tmp decode) p) : TriedOnce p.2 := by
  have htried : Tried p.1 p.2 := by
    refine Run.invariant (P := fun p => Tried p.1 p.2) ?_ ?_ hrun
    · rintro ⟨c, m⟩ ⟨rfl, rfl⟩
      exact ⟨⟨List.nodup_nil, rfl⟩, nofun, nofun, nofun⟩
    · intro p p' e h hok hnext
      obtain ⟨hstep, hsee⟩ := System.next_observed hnext
      rw [hsee]
      exact tried_of_next h hok hstep
  exact htried.once

/-- What the record of an execution shows is shown by the record of a run. -/
theorem exists_watched {cond : AvatarCache × AvatarTries → Event → Prop}
    (check : AvatarCache × AvatarTries → Event → Bool)
    (hcheck : ∀ p e, check p e = true → cond p e) (labels : List Event)
    {a : AvatarTries × List String}
    (hexec : ((watched systemTmp fun _ => some []).exec check labels
      (AvatarCache.build, (tries systemTmp fun _ => some []).start)).map
        (fun p => (p.2, p.1.failed)) = some a) :
    ∃ p, (watched systemTmp fun _ => some []).Run cond p ∧ p.2 = a.1 ∧ p.1.failed = a.2 := by
  have hstart : (watched systemTmp fun _ => some []).Run cond
      (AvatarCache.build, (tries systemTmp fun _ => some []).start) := .start ⟨rfl, rfl⟩
  obtain ⟨p, hrun, hview⟩ := Run.exists_of_exec (watched systemTmp fun _ => some []) cond check
    labels (fun p => (p.2, p.1.failed)) hcheck hstart hexec
  subst hview
  exact ⟨p, hrun, rfl, rfl⟩

/-- A download that fails before the next reset is not started again. -/
theorem triedOnce_failed : ∃ p : AvatarCache × AvatarTries,
    p.2.started = ["0cc1"] ∧ p.1.failed = ["0cc1"] ∧ TriedOnce p.2 := by
  obtain ⟨p, hrun, hrecord, hfailed⟩ := exists_watched
    (fun p e => decide (failsInPeriod systemTmp (fun _ => some []) p e))
    (fun _ _ => of_decide_eq_true)
    [.update [withAvatar "0cc1"] fun _ => true, .probed false fun _ => true,
      .ensured true fun _ => true, .transferred false, .removed fun _ => true,
      .update [withAvatar "0cc1"] fun _ => true]
    (a := (⟨["0cc1"], false, []⟩, ["0cc1"])) rfl
  exact ⟨p, congrArg AvatarTries.started hrecord, hfailed, triedOnce_of_run hrun⟩

/-- A roster that comes while the cache file is probed queues the hash again, and a reset does not
stop a download. -/
theorem not_triedOnce :
    (∃ p, (watched systemTmp fun _ => some []).Reachable p ∧ ¬ p.2.started.Nodup) ∧
    ∃ p, (watched systemTmp fun _ => some []).Reachable p ∧ p.2.staleFailed ≠ [] ∧
      p.1.failed = ["0cc1"] := by
  constructor
  · obtain ⟨p, hrun, hrecord, -⟩ := exists_watched (fun _ _ => true) (fun _ _ _ => trivial)
      [.update [withAvatar "0cc1"] fun _ => true, .update [withAvatar "0cc1"] fun _ => true,
        .probed false fun _ => true, .ensured true fun _ => true, .transferred false,
        .removed fun _ => true, .probed false fun _ => true]
      (a := (⟨["0cc1", "0cc1"], false, []⟩, ["0cc1"])) rfl
    refine ⟨p, hrun, ?_⟩
    rw [hrecord]
    decide
  · obtain ⟨p, hrun, hrecord, hfailed⟩ := exists_watched (fun _ _ => true) (fun _ _ _ => trivial)
      [.update [withAvatar "0cc1"] fun _ => true, .probed false fun _ => true,
        .ensured true fun _ => true, .reset, .transferred false, .removed fun _ => true]
      (a := (⟨[], true, ["0cc1"]⟩, ["0cc1"])) rfl
    refine ⟨p, hrun, ?_, hfailed⟩
    rw [hrecord]
    decide

end Nek0.Proofs.Dart
