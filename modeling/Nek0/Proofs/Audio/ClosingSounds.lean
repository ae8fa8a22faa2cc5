import Nek0.Audio.ClosingSound
import Nek0.Lib.OneThread

/-!
# `Nek0.Proofs.Audio.ClosingSounds`: no closing sound is cut

`SFX_DEFERRED_TEARDOWN` is one flag for all deferred tasks, and a task only checks `connected`
before its teardown. So a task clears the flag of a sound that was scheduled after its own, and
tears the stream down on its behalf. And an exit after an error or at the end of the stream pushes
its `Disconnected` event before it sets the flag.

* `Announces`: a session in `pending` or `polled` has scheduled its sound, or its exit still will.
* `connecting_of_run`: while an attempt to connect goes on, there is no session.
* `Hushed`: there is one deferred task at most, and while it has not woken up, it is the one of the
  last delay.
* `neverCut_of_run`: the law, in every run that meets `undisturbed`.
-/

set_option autoImplicit false

namespace Nek0.Proofs.Audio

open Nek0.Audio
open Nek0.Lib (Pool Outcome Thread)
open Nek0.Lib.Pool (Others)
open Nek0.Lib.System (Run)

/-- No delay is cut short, and no sound that is still to be scheduled loses its stream. -/
def NeverCut (P : ClosingPool) : Prop := P.shared.cut = false ∧ P.shared.taken = false

/-! ### The condition -/

/-- A statement of a deferred task. -/
def isDeferredStmt : ClosingStmt → Bool
  | .sleep _ | .wake _ | .clearDeferred | .testConnected | .teardown => true
  | _ => false

/-- The statement schedules the sound of the session, at once or after one more test. -/
def schedules (gen : Nat) : ClosingStmt → Bool
  | .schedule gen' _ | .loadSuppress gen' _ => gen' = gen
  | _ => false

/-- The task has not woken up, and its delay is not over. -/
def isAsleep (now : Nat) (t : Thread Unit ClosingStmt) : Bool :=
  match t.prog with
  | .sleep _ :: _ => true
  | .wake due :: _ => now < due
  | _ => false

/-- A sound is scheduled only when no deferred task is left and Dart is not about to tear the stream
down. -/
def scheduleInTime (P : ClosingPool) (_ : Bool) (st : ClosingStmt) : Bool :=
  match st with
  | .schedule _ _ =>
    P.shared.dart ≠ some .teardown && P.threads.all fun t => t.prog.all fun st => !isDeferredStmt st
  | _ => true

/-- When `ts_stop_audio` finds the flag clear, no session whose `Disconnected` event was polled is
still to schedule its sound, and without a session no deferred task is asleep. -/
def stopInTime (P : ClosingPool) : Bool :=
  P.shared.deferred ||
    (P.threads.all fun t =>
      P.shared.polled.all fun gen => t.prog.all fun st => !schedules gen st) &&
      (P.shared.connected || P.threads.all fun t => !isAsleep P.shared.now t)

/-- The condition on steps. -/
def undisturbed (P : ClosingPool) : Pool.Label Bool Closing.Event → Bool
  | .env .stop => P.shared.dart ≠ some .loadDeferred || stopInTime P
  | label => Pool.checks scheduleInTime P label

variable {s : Closing} {st : ClosingStmt} {choice : Bool} {out : Outcome Closing Unit ClosingStmt}
  {P P' : ClosingPool}

/-! ### Attempts to connect -/

/-- The statements of an attempt to connect. -/
def connectWeight : ClosingStmt → Nat
  | .openSocket | .resetFlags | .answer | .nextGeneration | .establish _ | .connectFailed => 1
  | _ => 0

/-- The attempt is there, or there is none. -/
def idleWeight (s : Closing) : Nat := if s.connecting then 0 else 1

/-- There is one attempt at most, and none while there is a session. -/
structure OneAttempt (P : ClosingPool) : Prop where
  weight : Pool.weight idleWeight (Pool.pendingWeight connectWeight) P = 1
  offline : P.shared.connecting = true → P.shared.connected = false

theorem connectWeight_program (gen len : Nat) (exit : Exit) :
    Pool.progWeight connectWeight (exit.program gen len) = 0 := by
  cases exit <;> rfl

theorem connectWeight_body (gen len : Nat) (exit : Exit) :
    Pool.progWeight connectWeight (exit.body gen len) = 0 := by
  cases exit <;> rfl

/-- A statement hands the attempt on, or ends it. -/
theorem connectWeight_exec (h : Closing.exec choice st s = some out)
    (hone : connectWeight st ≤ 1 - idleWeight s) :
    idleWeight out.shared + Pool.progWeight connectWeight out.front +
        Pool.threadsWeight (Pool.pendingWeight connectWeight) out.spawn =
      idleWeight s + connectWeight st := by
  cases st with
  | openSocket => cases h; cases choice <;> rfl
  | answer => cases h; cases choice <;> rfl
  | ifCurrent gen exit len =>
      cases h
      show idleWeight s + Pool.progWeight connectWeight (if _ then _ else _) + 0 = _
      split
      · rw [connectWeight_body]
        rfl
      · rfl
  | loadSuppress gen len => cases h; cases s.suppress <;> rfl
  | testConnected => cases h; cases s.connected <;> rfl
  | wake due =>
      simp only [Closing.exec] at h
      split at h <;> cases h
      rfl
  | establish gen =>
      cases h
      have : idleWeight s = 0 := by
        simp only [connectWeight] at hone
        omega
      rw [this]
      rfl
  | connectFailed =>
      cases h
      have : idleWeight s = 0 := by
        simp only [connectWeight] at hone
        omega
      rw [this]
      rfl
  | _ => cases h; rfl

/-- A statement that goes online ends the attempt. -/
theorem offline_exec (h : Closing.exec choice st s = some out) :
    (out.shared.connecting = true → s.connecting = true) ∧
      (out.shared.connecting = true → out.shared.connected = true → s.connected = true) := by
  cases st with
  | wake due =>
      simp only [Closing.exec] at h
      split at h <;> cases h
      exact ⟨id, fun _ => id⟩
  | establish => cases h; exact ⟨nofun, nofun⟩
  | connectFailed => cases h; exact ⟨nofun, nofun⟩
  | setDisconnected => cases h; exact ⟨id, nofun⟩
  | endSession => cases h; exact ⟨id, nofun⟩
  | _ => cases h; exact ⟨id, fun _ => id⟩

/-- While a statement of an attempt is still to execute, the attempt goes on. -/
theorem OneAttempt.connecting {i : Nat} {th : Thread Unit ClosingStmt} (h : OneAttempt P)
    (hth : P.threads[i]? = some th) (hmem : st ∈ th.prog) (hst : connectWeight st = 1) :
    P.shared.connecting = true := by
  have hle : connectWeight st ≤ Pool.pendingWeight connectWeight th :=
    List.le_sum_of_mem (List.mem_map_of_mem hmem)
  have hthreads := Pool.le_threadsWeight (Pool.pendingWeight connectWeight)
    (List.mem_of_getElem? hth)
  have hweight := h.weight
  unfold Pool.weight at hweight
  cases hconnecting : P.shared.connecting with
  | true => rfl
  | false =>
      have hidle : idleWeight P.shared = 1 := by simp [idleWeight, hconnecting]
      omega

/-- Every step keeps one attempt to connect at most. -/
theorem oneAttempt_of_next {label : Pool.Label Bool Closing.Event} (h : OneAttempt P)
    (hnext : closingSystem.next label P = some P') : OneAttempt P' := by
  cases label with
  | run i choice =>
      obtain ⟨th, st, rest, out, hth, hprog, hexec, rfl⟩ := Pool.next_run hnext
      have hmem : st ∈ th.prog := hprog ▸ List.mem_cons_self
      constructor
      -- A statement that connects does so for the attempt that is open, so `connecting` is set.
      · have hone : connectWeight st ≤ 1 - idleWeight P.shared := by
          by_cases hst : connectWeight st = 1
          · simp [idleWeight, h.connecting hth hmem hst, hst]
          · have hle : connectWeight st ≤ 1 := by cases st <;> simp [connectWeight]
            omega
        have hsum := connectWeight_exec hexec hone
        have hstep := Pool.weight_exec idleWeight connectWeight hth hprog out
        have := h.weight
        omega
      -- A statement sets `connecting` only behind an attempt that is over.
      · intro hconnecting
        have hoff := offline_exec hexec
        refine Bool.eq_false_iff.mpr fun hconnected => ?_
        have hbefore := h.offline (hoff.1 hconnecting)
        exact absurd ((hoff.2 hconnecting hconnected).symm.trans hbefore) (by decide)
  | env e =>
      obtain ⟨s, spawn, henv, rfl⟩ := Pool.next_env (L := Closing.language) hnext
      change Closing.env e P.shared = some (s, spawn) at henv
      -- An event that starts nothing and leaves both flags.
      have hsame (s' : Closing) (hconnecting : s'.connecting = P.shared.connecting)
          (hconnected : s'.connected = P.shared.connected) :
          OneAttempt { shared := s', threads := P.threads ++ [] } := by
        rw [List.append_nil]
        constructor
        · show Pool.weight _ _ _ = 1
          simp only [Pool.weight, idleWeight, hconnecting]
          exact h.weight
        · show s'.connecting = true → s'.connected = false
          rw [hconnecting, hconnected]
          exact h.offline
      unfold Closing.env at henv
      split at henv
      · cases henv; exact hsame _ rfl rfl
      · cases henv; exact hsame _ rfl rfl
      · cases henv; exact hsame _ rfl rfl
      · next gen exit len =>
        split at henv
        -- The program of an exit connects nothing.
        · cases henv
          constructor
          · have hprogram : Pool.pendingWeight connectWeight
                (⟨(), exit.program gen len⟩ : Thread Unit ClosingStmt) = 0 :=
              connectWeight_program gen len exit
            show Pool.weight _ _ _ = 1
            simp only [Pool.weight, Pool.threadsWeight_append, Pool.threadsWeight_cons, hprogram,
              Pool.threadsWeight_nil, Nat.add_zero]
            exact h.weight
          · exact h.offline
        · cases henv
      · split at henv
        · cases henv; exact hsame _ rfl rfl
        · next hidle =>
          -- The attempt begins.
          cases henv
          simp only [not_or, Bool.not_eq_true] at hidle
          constructor
          · have hweight := h.weight
            have hsocket : Pool.pendingWeight connectWeight
                (⟨(), [.openSocket]⟩ : Thread Unit ClosingStmt) = 1 := rfl
            have hbefore : idleWeight P.shared = 1 := by simp [idleWeight, hidle.1]
            show Pool.weight _ _ _ = 1
            simp only [Pool.weight, Pool.threadsWeight_append, Pool.threadsWeight_cons, hsocket,
              Pool.threadsWeight_nil, hbefore] at hweight ⊢
            simp only [idleWeight, if_true]
            omega
          · exact fun _ => hidle.2
      · split at henv <;> cases henv <;> exact hsame _ rfl rfl
      · cases henv
        split <;> exact hsame _ rfl rfl
      · cases henv; exact hsame _ rfl rfl
      · cases henv; exact hsame _ rfl rfl
      · cases henv

/-! ### Announced ends -/

/-- The sessions that the statement schedules. -/
def scheduledBy : ClosingStmt → List Nat
  | .schedule gen _ => [gen]
  | _ => []

/-- If the statement announces the end of a session, the sound is scheduled already, or by a
statement further on. -/
def fits (scheduled : List Nat) (st : ClosingStmt) (rest : List ClosingStmt) : Prop :=
  match st with
  | .pushDisconnected gen | .endSession gen =>
    gen ∈ scheduled ∨ ∃ st ∈ rest, schedules gen st = true
  | .ifCurrent gen exit _ => exit = .requested ∨ exit = .command → gen ∈ scheduled
  | _ => True

/-- All announcements of the program are covered. -/
def announces (scheduled : List Nat) : List ClosingStmt → Prop
  | [] => True
  | st :: rest => fits scheduled st rest ∧ announces (scheduledBy st ++ scheduled) rest

/-- More that is scheduled covers what was covered. -/
theorem announces_mono {scheduled scheduled' : List Nat} (hsub : scheduled ⊆ scheduled')
    {prog : List ClosingStmt} (h : announces scheduled prog) : announces scheduled' prog := by
  induction prog generalizing scheduled scheduled' with
  | nil => trivial
  | cons st rest ih =>
      have happend : scheduledBy st ++ scheduled ⊆ scheduledBy st ++ scheduled' := fun gen hgen =>
        (List.mem_append.mp hgen).elim (List.mem_append_left _)
          fun h => List.mem_append_right _ (hsub h)
      refine ⟨?_, ih happend h.2⟩
      have hfits := h.1
      unfold fits at hfits ⊢
      cases st with
      | pushDisconnected gen => exact hfits.imp_left fun h => hsub h
      | endSession gen => exact hfits.imp_left fun h => hsub h
      | ifCurrent gen exit len => exact fun he => hsub (hfits he)
      | _ => trivial

theorem announces_program (scheduled : List Nat) (gen len : Nat) (exit : Exit) :
    announces scheduled (exit.program gen len) := by
  cases exit <;> simp [Exit.program, announces, fits, scheduledBy]

/-- The body of an exit is covered, if its event is. -/
theorem announces_body {scheduled : List Nat} {gen len : Nat} {exit : Exit}
    {rest : List ClosingStmt} (hexit : exit = .requested ∨ exit = .command → gen ∈ scheduled)
    (h : announces scheduled rest) : announces scheduled (exit.body gen len ++ rest) := by
  have hmore : announces (gen :: scheduled) rest := announces_mono (List.subset_cons_self _ _) h
  cases exit <;> simp_all [Exit.body, announces, fits, scheduledBy, schedules]

/-- What a statement puts in its place is covered too. -/
theorem announces_exec (h : Closing.exec choice st s = some out) {rest : List ClosingStmt}
    (hannounces : announces s.scheduled (st :: rest)) :
    announces out.shared.scheduled (out.front ++ rest) ∧ s.scheduled ⊆ out.shared.scheduled ∧
      ∀ t ∈ out.spawn, announces out.shared.scheduled t.prog := by
  obtain ⟨hfits, hrest⟩ := hannounces
  -- The branches that go on: the body of an exit, and the two that schedule.
  cases st with
  | wake due =>
      simp only [Closing.exec] at h
      split at h <;> cases h
      exact ⟨hrest, List.Subset.refl _, List.forall_mem_nil _⟩
  | ifCurrent gen exit len =>
      cases h
      refine ⟨?_, List.Subset.refl _, List.forall_mem_nil _⟩
      show announces s.scheduled ((if _ then _ else _) ++ rest)
      split
      · exact announces_body hfits hrest
      · exact hrest
  -- The delay is scheduled for this generation, which is what the thread was to do.
  | schedule gen ms =>
      cases h
      refine ⟨hrest, List.subset_cons_self _ _, ?_⟩
      simp [announces, fits]
  | loadSuppress gen len =>
      cases h
      refine ⟨?_, List.Subset.refl _, List.forall_mem_nil _⟩
      -- Behind the schedule the rest is covered by one generation more.
      have hmore : announces (gen :: s.scheduled) rest :=
        announces_mono (List.subset_cons_self _ _) hrest
      show announces s.scheduled ((if _ then _ else _) ++ rest)
      split <;> simp [announces, fits, scheduledBy, hmore]
  | openSocket =>
      cases h
      refine ⟨?_, List.Subset.refl _, List.forall_mem_nil _⟩
      cases choice <;> exact ⟨trivial, hrest⟩
  | answer =>
      cases h
      refine ⟨?_, List.Subset.refl _, List.forall_mem_nil _⟩
      cases choice <;> exact ⟨trivial, hrest⟩
  | testConnected =>
      cases h
      refine ⟨?_, List.Subset.refl _, List.forall_mem_nil _⟩
      show announces s.scheduled ((if _ then _ else _) ++ rest)
      split
      · exact hrest
      · exact ⟨trivial, hrest⟩
  | sleep ms =>
      cases h
      exact ⟨⟨trivial, trivial, trivial, hrest⟩, List.Subset.refl _, List.forall_mem_nil _⟩
  | resetFlags => cases h; exact ⟨⟨trivial, hrest⟩, List.Subset.refl _, List.forall_mem_nil _⟩
  | nextGeneration => cases h; exact ⟨⟨trivial, hrest⟩, List.Subset.refl _, List.forall_mem_nil _⟩
  | establish gen => cases h; exact ⟨⟨trivial, hrest⟩, List.Subset.refl _, List.forall_mem_nil _⟩
  | _ => cases h; exact ⟨hrest, List.Subset.refl _, List.forall_mem_nil _⟩

/-- What is pushed to `pending`, and what is no longer ahead. -/
theorem pending_exec (h : Closing.exec choice st s = some out) (gen : Nat) :
    (gen ∈ out.shared.pending →
      gen ∈ s.pending ∨ st = .pushDisconnected gen ∨ st = .endSession gen) ∧
      out.shared.polled = s.polled ∧
      (schedules gen st = true → gen ∈ out.shared.scheduled ∨
        ∃ st' ∈ out.front, schedules gen st' = true) := by
  cases st with
  | wake due =>
      simp only [Closing.exec] at h
      split at h <;> cases h
      exact ⟨.inl, rfl, nofun⟩
  | pushDisconnected gen' =>
      cases h
      simp only [List.mem_append, List.mem_singleton, schedules]
      exact ⟨Or.imp_right fun h => .inl (h ▸ rfl), trivial, nofun⟩
  | endSession gen' =>
      cases h
      simp only [List.mem_append, List.mem_singleton, schedules]
      exact ⟨Or.imp_right fun h => .inr (h ▸ rfl), trivial, nofun⟩
  | schedule gen' ms =>
      cases h
      refine ⟨.inl, rfl, fun hgen => .inl ?_⟩
      rw [← of_decide_eq_true hgen]
      exact List.mem_cons_self
  | loadSuppress gen' len =>
      cases h
      refine ⟨.inl, rfl, fun hgen => .inr ?_⟩
      have heq : gen' = gen := of_decide_eq_true hgen
      cases s.suppress with
      | true => exact ⟨.schedule gen' Nek0.Audio.preserveMs, by simp, decide_eq_true heq⟩
      | false => exact ⟨.schedule gen' (playMs len), by simp, decide_eq_true heq⟩
  | _ => cases h; exact ⟨.inl, rfl, nofun⟩

/-- The session of every announced end has scheduled its sound, or a thread still will. -/
structure Announced (P : ClosingPool) : Prop where
  threads : ∀ t ∈ P.threads, announces P.shared.scheduled t.prog
  events : ∀ gen, gen ∈ P.shared.pending ∨ gen ∈ P.shared.polled → gen ∈ P.shared.scheduled ∨
    Pool.ThreadsHold (fun st gen => schedules gen st = true) P.threads gen

/-- The threads and the events of a step that only adds threads. -/
theorem Announced.env {s : Closing} {spawn : List (Thread Unit ClosingStmt)} (h : Announced P)
    (hscheduled : s.scheduled = P.shared.scheduled)
    (hspawn : ∀ t ∈ spawn, announces P.shared.scheduled t.prog)
    (hevents : ∀ gen, gen ∈ s.pending ∨ gen ∈ s.polled →
      gen ∈ P.shared.pending ∨ gen ∈ P.shared.polled) :
    Announced { shared := s, threads := P.threads ++ spawn } := by
  constructor
  · intro t ht
    show announces s.scheduled t.prog
    rw [hscheduled]
    exact (List.mem_append.mp ht).elim (h.threads t) (hspawn t)
  · intro gen hgen
    show gen ∈ s.scheduled ∨ _
    rw [hscheduled]
    refine (h.events gen (hevents gen hgen)).imp_right ?_
    rintro ⟨t, ht, hst⟩
    exact ⟨t, List.mem_append_left _ ht, hst⟩

/-- Every step keeps the `Disconnected` events announced: the sound is scheduled, or a thread is to
schedule it. -/
theorem announced_of_next {label : Pool.Label Bool Closing.Event} (h : Announced P)
    (hnext : closingSystem.next label P = some P') : Announced P' := by
  cases label with
  | run i choice =>
      obtain ⟨th, st, rest, out, hth, hprog, hexec, hshared, hheld, hnew⟩ :=
        Pool.held_run (L := Closing.language) (fun st gen => schedules gen st = true) hnext
      have hself : announces P.shared.scheduled (st :: rest) :=
        hprog ▸ h.threads th (List.mem_of_getElem? hth)
      obtain ⟨hfront, hsub, hspawn⟩ := announces_exec hexec hself
      constructor
      -- The threads by the rule for pools, the events by what this statement pushes and schedules.
      · have hkeeps := Pool.keeps_run (L := Closing.language) (I := fun _ => True)
          (A := fun s t => announces s.scheduled t.prog) hnext ⟨trivial, h.threads⟩ ?_
        · exact hkeeps.threads
        · intro th' st' rest' out' hth' hprog' hexec'
          have hself' : announces P.shared.scheduled (st' :: rest') :=
            hprog' ▸ h.threads th' (List.mem_of_getElem? hth')
          obtain ⟨hfront', hsub', hspawn'⟩ := announces_exec hexec' hself'
          exact ⟨trivial, fun _ _ ht => announces_mono hsub' ht, hfront', hspawn'⟩
      · intro gen hgen
        rw [hshared] at hgen ⊢
        obtain ⟨hpending, hpolled, hpasses⟩ := pending_exec hexec gen
        -- The event was there before, or this statement has pushed it.
        have hcovered : gen ∈ P.shared.scheduled ∨
            (schedules gen st = true ∨
              Pool.ThreadsHold (fun st gen => schedules gen st = true) P'.threads gen) := by
          have hold (hgen : gen ∈ P.shared.pending ∨ gen ∈ P.shared.polled) :=
            (h.events gen hgen).imp_right (hheld gen)
          have hpushed (hfits : gen ∈ P.shared.scheduled ∨ ∃ st ∈ rest, schedules gen st = true) :
              gen ∈ P.shared.scheduled ∨ (schedules gen st = true ∨
                Pool.ThreadsHold (fun st gen => schedules gen st = true) P'.threads gen) := by
            refine hfits.imp_right fun ⟨st', hst', hsched⟩ => .inr (hnew gen (.inl ?_))
            exact ⟨st', List.mem_append_right _ hst', hsched⟩
          -- The event is pending or polled. Polling moves it, and pushing adds one of the two
          -- kinds.
          rcases hgen with hgen | hgen
          · rcases hpending hgen with hgen | rfl | rfl
            · exact hold (.inl hgen)
            · exact hpushed hself.1
            · exact hpushed hself.1
          · exact hold (.inr (hpolled ▸ hgen))
        -- What this thread was to schedule it has scheduled, or it still is to.
        rcases hcovered with hin | hst | hahead
        · exact .inl (hsub hin)
        · refine (hpasses hst).imp_right fun ⟨st', hst', hsched⟩ => hnew gen (.inl ?_)
          exact ⟨st', List.mem_append_left _ hst', hsched⟩
        · exact .inr hahead
  | env e =>
      obtain ⟨s, spawn, henv, rfl⟩ := Pool.next_env (L := Closing.language) hnext
      change Closing.env e P.shared = some (s, spawn) at henv
      unfold Closing.env at henv
      split at henv
      · cases henv; exact h.env rfl (List.forall_mem_nil _) fun _ => id
      · cases henv; exact h.env rfl (List.forall_mem_nil _) fun _ => id
      · cases henv; exact h.env rfl (List.forall_mem_nil _) fun _ => id
      · next gen exit len =>
        split at henv
        · cases henv
          refine h.env rfl ?_ fun _ => id
          intro t ht
          rw [List.mem_singleton.mp ht]
          exact announces_program _ gen len exit
        · cases henv
      · split at henv
        · cases henv; exact h.env rfl (List.forall_mem_nil _) fun _ => id
        · cases henv
          refine h.env rfl ?_ fun gen hgen => .inr (hgen.resolve_left (List.not_mem_nil))
          intro t ht
          rw [List.mem_singleton.mp ht]
          exact ⟨trivial, trivial⟩
      · split at henv
        · cases henv; exact h.env rfl (List.forall_mem_nil _) fun _ => id
        -- Dart polls the first event.
        · next gen pending hpending =>
          cases henv
          refine h.env rfl (List.forall_mem_nil _) fun gen' hgen' => ?_
          rw [hpending]
          rcases hgen' with hgen' | hgen'
          · exact .inl (List.mem_cons_of_mem _ hgen')
          · rcases List.mem_cons.mp hgen' with rfl | hgen'
            · exact .inl List.mem_cons_self
            · exact .inr hgen'
      · cases henv
        refine h.env ?_ (List.forall_mem_nil _) fun gen hgen => ?_
        · split <;> rfl
        · split at hgen <;> exact hgen
      · cases henv; exact h.env rfl (List.forall_mem_nil _) fun _ => id
      · cases henv; exact h.env rfl (List.forall_mem_nil _) fun _ => id
      · cases henv

/-! ### The deferred task -/

/-- The program has no statement of a deferred task. -/
def Silent (prog : List ClosingStmt) : Prop := ∀ st ∈ prog, isDeferredStmt st = false

/-- What is left of a deferred task. -/
inductive IsTask : List ClosingStmt → Prop where
  | sleep (ms : Nat) : IsTask [.sleep ms]
  | wake (due : Nat) : IsTask [.wake due, .clearDeferred, .testConnected]
  | clear : IsTask [.clearDeferred, .testConnected]
  | test : IsTask [.testConnected]
  | teardown : IsTask [.teardown]

/-- When the task wakes up, at the earliest. -/
def wakesUp (now : Nat) : List ClosingStmt → Nat
  | .sleep ms :: _ => now + ms
  | .wake due :: _ => due
  | _ => 0

/-- All delays are over. -/
def Over (s : Closing) : Prop := ∀ due ∈ s.dues, due ≤ s.now

/-- What is kept in the shared state. -/
structure Kept (s : Closing) : Prop where
  cut : s.cut = false
  taken : s.taken = false
  dart : s.dart = some .teardown → Over s ∧ ∀ gen ∈ s.polled, gen ∈ s.scheduled
  online : s.connected = true → s.deferred = false → Over s

/-- There is no deferred task and all delays are over, or there is one task, and no delay that is
not over ends after the task wakes up. -/
inductive Hushed (P : ClosingPool) : Prop where
  | none (hsilent : Others Silent none P.threads) (hover : Over P.shared)
  | one (i : Nat) (o : Unit) (prog : List ClosingStmt) (hth : P.threads[i]? = some ⟨o, prog⟩)
      (htask : IsTask prog) (hsilent : Others Silent (some i) P.threads)
      (hdues : ∀ due ∈ P.shared.dues, due ≤ P.shared.now ∨ due ≤ wakesUp P.shared.now prog)

theorem silent_program (gen len : Nat) (exit : Exit) : Silent (exit.program gen len) := by
  cases exit <;> simp [Silent, Exit.program, isDeferredStmt]

theorem silent_body (gen len : Nat) (exit : Exit) : Silent (exit.body gen len) := by
  cases exit <;> simp [Silent, Exit.body, isDeferredStmt]

/-- What a silent statement leads to is silent with what follows. -/
theorem silent_append {front rest : List ClosingStmt} (hfront : Silent front)
    (h : Silent (st :: rest)) : Silent (front ++ rest) := by
  intro st' hst'
  rcases List.mem_append.mp hst' with hf | hr
  · exact hfront st' hf
  · exact h st' (List.mem_cons_of_mem _ hr)

theorem head_of_task {prog : List ClosingStmt} (h : IsTask prog) :
    ∃ st ∈ prog, isDeferredStmt st = true := by
  cases h <;> exact ⟨_, List.mem_cons_self, rfl⟩

/-- What a statement that is no part of a deferred task does, if it schedules nothing. -/
structure SilentStep (st : ClosingStmt) (s s' : Closing) : Prop where
  now : s'.now = s.now
  cut : s'.cut = s.cut
  taken : s'.taken = s.taken
  dart : s'.dart = s.dart
  polled : s'.polled = s.polled
  scheduled : s'.scheduled = s.scheduled
  dues : s'.dues = s.dues ∨ s'.dues = []
  online : s'.connected = true → s'.dues = [] ∨ s.connected = true ∧
    (s'.deferred = s.deferred ∨ st = .resetFlags)

/-- A silent step starts no delay. -/
theorem SilentStep.over {s' : Closing} (h : SilentStep st s s') (hover : Over s) : Over s' := by
  intro due hdue
  rw [h.now]
  rcases h.dues with heq | heq
  · exact hover due (heq ▸ hdue)
  · rw [heq] at hdue
    cases hdue

/-- A statement outside of the deferred task leaves the delays, or drops them with a new connection.
-/
theorem silentStep_exec (h : Closing.exec choice st s = some out)
    (hsilent : isDeferredStmt st = false) (hschedule : ∀ gen ms, st ≠ .schedule gen ms) :
    SilentStep st s out.shared ∧ Silent out.front ∧ out.spawn = [] := by
  have hsame : SilentStep st s s :=
    ⟨rfl, rfl, rfl, rfl, rfl, rfl, .inl rfl, fun h => .inr ⟨h, .inl rfl⟩⟩
  -- The statements of the task are excluded. What is left is silent, and so is what it leads to.
  cases st with
  | schedule gen ms => exact absurd rfl (hschedule gen ms)
  | sleep => cases hsilent
  | wake => cases hsilent
  | clearDeferred => cases hsilent
  | testConnected => cases hsilent
  | teardown => cases hsilent
  | openSocket =>
      cases h
      refine ⟨hsame, ?_, rfl⟩
      cases choice <;> simp [Silent, isDeferredStmt]
  | answer =>
      cases h
      refine ⟨hsame, ?_, rfl⟩
      cases choice <;> simp [Silent, isDeferredStmt]
  | ifCurrent gen exit len =>
      cases h
      refine ⟨hsame, ?_, rfl⟩
      show Silent (if _ then _ else _)
      split
      · exact silent_body gen len exit
      · exact List.forall_mem_nil _
  | loadSuppress gen len =>
      cases h
      refine ⟨hsame, ?_, rfl⟩
      cases s.suppress <;> simp [Silent, isDeferredStmt]
  | resetFlags =>
      cases h
      exact ⟨⟨rfl, rfl, rfl, rfl, rfl, rfl, .inl rfl, fun h => .inr ⟨h, .inr rfl⟩⟩,
        by simp [Silent, isDeferredStmt], rfl⟩
  | establish gen =>
      cases h
      exact ⟨⟨rfl, rfl, rfl, rfl, rfl, rfl, .inr rfl, fun _ => .inl rfl⟩,
        by simp [Silent, isDeferredStmt], rfl⟩
  | nextGeneration =>
      cases h
      exact ⟨⟨rfl, rfl, rfl, rfl, rfl, rfl, .inl rfl, fun h => .inr ⟨h, .inl rfl⟩⟩,
        by simp [Silent, isDeferredStmt], rfl⟩
  | setDisconnected =>
      cases h
      exact ⟨⟨rfl, rfl, rfl, rfl, rfl, rfl, .inl rfl, nofun⟩, List.forall_mem_nil _, rfl⟩
  | endSession gen =>
      cases h
      exact ⟨⟨rfl, rfl, rfl, rfl, rfl, rfl, .inl rfl, nofun⟩, List.forall_mem_nil _, rfl⟩
  | _ =>
      cases h
      exact ⟨⟨rfl, rfl, rfl, rfl, rfl, rfl, .inl rfl, fun h => .inr ⟨h, .inl rfl⟩⟩,
        List.forall_mem_nil _, rfl⟩

/-- Such a statement keeps what is kept, if an attempt to connect resets the flags offline. -/
theorem kept_of_silentStep {s' : Closing} (h : Kept s) (hstep : SilentStep st s s')
    (hreset : st = .resetFlags → s.connected = false) : Kept s' := by
  constructor
  · rw [hstep.cut, h.cut]
  · rw [hstep.taken, h.taken]
  · intro hdart
    rw [hstep.dart] at hdart
    rw [hstep.polled, hstep.scheduled]
    exact ⟨hstep.over (h.dart hdart).1, (h.dart hdart).2⟩
  · intro hconnected hdeferred
    rcases hstep.online hconnected with hnil | ⟨hbefore, hsame | hst⟩
    · intro due hdue
      rw [hnil] at hdue
      cases hdue
    · exact hstep.over (h.online hbefore (hsame.symm.trans hdeferred))
    · exact absurd (hbefore.symm.trans (hreset hst)) (by decide)

/-- A sound is scheduled: its task is the only one. -/
theorem hushed_schedule {i gen ms : Nat} {th : Thread Unit ClosingStmt} {rest : List ClosingStmt}
    (hkept : Kept P.shared) (h : Hushed P) (hth : P.threads[i]? = some th)
    (hprog : th.prog = .schedule gen ms :: rest)
    (hexec : Closing.exec choice (.schedule gen ms) P.shared = some out)
    (hok : scheduleInTime P choice (.schedule gen ms) = true) :
    Kept out.shared ∧ Hushed {
      shared := out.shared
      threads := P.threads.set i ⟨th.owner, out.front ++ rest⟩ ++ out.spawn } := by
  simp only [scheduleInTime, Bool.and_eq_true, List.all_eq_true, decide_eq_true_eq,
    Bool.not_eq_eq_eq_not, Bool.not_true] at hok
  obtain ⟨hdart, hsilent⟩ := hok
  have hall : ∀ t ∈ P.threads, Silent t.prog := fun t ht st hst => hsilent t ht st hst
  cases h with
  | none hothers hover =>
      cases hexec
      refine ⟨⟨hkept.cut, hkept.taken, fun h => absurd h hdart, fun _ => nofun⟩, ?_⟩
      refine .one P.threads.length () [.sleep ms] ?_ (.sleep ms) ?_ ?_
      · show (P.threads.set i _ ++ [_])[P.threads.length]? = _
        rw [List.getElem?_append_right (by rw [List.length_set]), List.length_set, Nat.sub_self]
        rfl
      · refine hothers.set_append (fun _ _ => .inr (by simp)) (fun _ => ?_) fun k t ht hne => ?_
        · intro st hst
          exact hall th (List.mem_of_getElem? hth) st (hprog ▸ List.mem_cons_of_mem _ hst)
        · cases k with
          | zero => exact absurd rfl hne
          | succ k => simp at ht
      · intro due hdue
        rcases List.mem_cons.mp hdue with rfl | hold
        · exact .inr (Nat.le_refl _)
        · exact .inl (hover due hold)
  | one k o prog hk htask _ _ =>
      obtain ⟨st', hst', hdeferred⟩ := head_of_task htask
      have := hall _ (List.mem_of_getElem? hk) st' hst'
      exact absurd (hdeferred.symm.trans this) (by decide)

/-- The task executes a statement. -/
theorem hushed_task {i : Nat} {o : Unit} {rest : List ClosingStmt} (hkept : Kept P.shared)
    (hth : P.threads[i]? = some ⟨o, st :: rest⟩) (htask : IsTask (st :: rest))
    (hsilent : Others Silent (some i) P.threads)
    (hdues : ∀ due ∈ P.shared.dues, due ≤ P.shared.now ∨ due ≤ wakesUp P.shared.now (st :: rest))
    (hexec : Closing.exec choice st P.shared = some out) :
    Kept out.shared ∧ Hushed {
      shared := out.shared
      threads := P.threads.set i ⟨o, out.front ++ rest⟩ ++ out.spawn } := by
  have hself : (P.threads.set i ⟨o, out.front ++ rest⟩ ++ out.spawn)[i]? =
      some ⟨o, out.front ++ rest⟩ := Pool.getElem?_self hth
  -- When the task wakes up no delay is running: it sleeps as long as the longest.
  have hover (hlate : wakesUp P.shared.now (st :: rest) ≤ P.shared.now) : Over P.shared :=
    fun due hdue => (hdues due hdue).elim id fun h => Nat.le_trans h hlate
  cases htask with
  | sleep ms =>
      cases hexec
      exact ⟨hkept, .one i o _ hself (.wake _) hsilent.run_skip hdues⟩
  | wake due =>
      simp only [Closing.exec] at hexec
      split at hexec
      · next hdue =>
        cases hexec
        exact ⟨hkept, .one i o _ hself .clear hsilent.run_skip fun d hd => .inl (hover hdue d hd)⟩
      · cases hexec
  | clear =>
      cases hexec
      have hover := hover (Nat.zero_le _)
      exact ⟨⟨hkept.cut, hkept.taken, hkept.dart, fun _ _ => hover⟩,
        .one i o _ hself .test hsilent.run_skip fun d hd => .inl (hover d hd)⟩
  -- A connection in the meantime ends the task. Without one it goes on to the teardown.
  | test =>
      have hover := hover (Nat.zero_le _)
      cases hexec
      refine ⟨hkept, ?_⟩
      cases hconnected : P.shared.connected with
      | true => exact .none (hsilent.run_leave (List.forall_mem_nil _)) hover
      | false =>
          rw [hconnected] at hself
          exact .one i o _ hself .teardown hsilent.run_skip fun d hd => .inl (hover d hd)
  | teardown =>
      -- No delay is running any more.
      have hover := hover (Nat.zero_le _)
      cases hexec
      have hcut : (P.shared.dues.any fun due => P.shared.now < due) = false :=
        List.any_eq_false.mpr fun due hdue => by simpa using hover due hdue
      refine ⟨⟨?_, hkept.taken, hkept.dart, hkept.online⟩,
        .none (hsilent.run_leave (List.forall_mem_nil _)) hover⟩
      show (P.shared.cut || P.shared.dues.any _) = false
      rw [hcut, hkept.cut]
      rfl

/-- A step of a thread keeps the sound uncut. -/
theorem hushed_run {i : Nat} {th : Thread Unit ClosingStmt} {rest : List ClosingStmt}
    (hattempt : OneAttempt P) (hkept : Kept P.shared) (h : Hushed P)
    (hth : P.threads[i]? = some th) (hprog : th.prog = st :: rest)
    (hexec : Closing.exec choice st P.shared = some out)
    (hok : scheduleInTime P choice st = true) :
    Kept out.shared ∧ Hushed {
      shared := out.shared
      threads := P.threads.set i ⟨th.owner, out.front ++ rest⟩ ++ out.spawn } := by
  have hmem : st ∈ th.prog := hprog ▸ List.mem_cons_self
  -- A delay that is scheduled in time is one that the task sleeps for.
  by_cases hschedule : ∃ gen ms, st = .schedule gen ms
  · obtain ⟨gen, ms, rfl⟩ := hschedule
    exact hushed_schedule hkept h hth hprog hexec hok
  · have hschedule : ∀ gen ms, st ≠ .schedule gen ms := fun gen ms h => hschedule ⟨gen, ms, h⟩
    have hreset : st = .resetFlags → P.shared.connected = false := by
      rintro rfl
      exact hattempt.offline (hattempt.connecting hth hmem rfl)
    -- Nobody is in the deferred task, or one thread is.
    cases h with
    | none hothers hover =>
        have hst := hothers i th hth (by simp) st hmem
        obtain ⟨hstep, hfront, hspawn⟩ := silentStep_exec hexec hst hschedule
        refine ⟨kept_of_silentStep hkept hstep hreset, .none ?_ (hstep.over hover)⟩
        rw [hspawn]
        exact hothers.run hth hprog (by simp) (silent_append hfront) (List.forall_mem_nil _)
    | one k o prog hk htask hothers hdues =>
        by_cases hik : i = k
        · subst hik
          obtain rfl : th = ⟨o, prog⟩ := Option.some.inj (hth.symm.trans hk)
          obtain rfl : prog = st :: rest := hprog
          exact hushed_task hkept hk htask hothers hdues hexec
        -- Another thread than the task, so its statement is silent.
        · have hne : some i ≠ some k := fun h => hik (Option.some.inj h)
          have hst := hothers i th hth hne st hmem
          obtain ⟨hstep, hfront, hspawn⟩ := silentStep_exec hexec hst hschedule
          refine ⟨kept_of_silentStep hkept hstep hreset,
            .one k o prog (Pool.getElem?_of_ne (Ne.symm hik) hk) htask ?_ ?_⟩
          · rw [hspawn]
            exact hothers.run hth hprog hne (silent_append hfront) (List.forall_mem_nil _)
          · intro due hdue
            rw [hstep.now]
            rcases hstep.dues with heq | heq
            · exact hdues due (heq ▸ hdue)
            · rw [heq] at hdue
              cases hdue

/-! ### The environment -/

/-- Later on, a thread wakes up later. -/
theorem wakesUp_mono {now now' : Nat} (h : now ≤ now') (prog : List ClosingStmt) :
    wakesUp now prog ≤ wakesUp now' prog := by
  unfold wakesUp
  split
  · exact Nat.add_le_add_right h _
  · exact Nat.le_refl _
  · exact Nat.le_refl _

/-- Time passes, and silent threads are added. -/
theorem Hushed.env {s : Closing} {spawn : List (Thread Unit ClosingStmt)} (h : Hushed P)
    (hnow : P.shared.now ≤ s.now) (hdues : s.dues = P.shared.dues)
    (hspawn : ∀ t ∈ spawn, Silent t.prog) :
    Hushed { shared := s, threads := P.threads ++ spawn } := by
  cases h with
  | none hothers hover =>
      refine .none (hothers.append hspawn) fun due hdue => ?_
      exact Nat.le_trans (hover due (hdues ▸ hdue)) hnow
  | one i o prog hth htask hothers hlate =>
      refine .one i o prog (Pool.getElem?_append hth) htask (hothers.append hspawn) ?_
      intro due hdue
      rcases hlate due (hdues ▸ hdue) with hover | hwakes
      · exact .inl (Nat.le_trans hover hnow)
      · exact .inr (Nat.le_trans hwakes (wakesUp_mono hnow prog))

/-- If `ts_stop_audio` finds the flag clear in time, no sound is left to be played. -/
theorem over_of_stopInTime (hannounced : Announced P) (hkept : Kept P.shared) (h : Hushed P)
    (hok : stopInTime P = true) (hdeferred : P.shared.deferred = false) :
    Over P.shared ∧ ∀ gen ∈ P.shared.polled, gen ∈ P.shared.scheduled := by
  simp only [stopInTime, hdeferred, Bool.false_or, Bool.and_eq_true, Bool.or_eq_true,
    List.all_eq_true, Bool.not_eq_eq_eq_not, Bool.not_true] at hok
  obtain ⟨hahead, hsession⟩ := hok
  constructor
  · rcases hsession with hconnected | hawake
    · exact hkept.online hconnected hdeferred
    · cases h with
      | none _ hover => exact hover
      | one i o prog hth htask _ hdues =>
          have hawake := hawake _ (List.mem_of_getElem? hth)
          intro due hdue
          rcases hdues due hdue with hover | hwakes
          · exact hover
          · cases htask with
            | sleep => cases hawake
            | wake due' =>
                have hlate : ¬ P.shared.now < due' := by simpa [isAsleep] using hawake
                exact Nat.le_trans hwakes (Nat.not_lt.mp hlate)
            | clear => exact Nat.le_trans hwakes (Nat.zero_le _)
            | test => exact Nat.le_trans hwakes (Nat.zero_le _)
            | teardown => exact Nat.le_trans hwakes (Nat.zero_le _)
  · intro gen hgen
    refine (hannounced.events gen (.inr hgen)).resolve_right ?_
    rintro ⟨t, ht, st, hst, hsched⟩
    exact absurd (hsched.symm.trans (hahead t ht gen hgen st hst)) (by decide)

/-- What happens outside keeps the sound uncut. -/
theorem hushed_env {e : Closing.Event} {s : Closing} {spawn : List (Thread Unit ClosingStmt)}
    (hannounced : Announced P) (hkept : Kept P.shared) (h : Hushed P)
    (henv : Closing.env e P.shared = some (s, spawn)) (hok : undisturbed P (.env e) = true) :
    Kept s ∧ Hushed { shared := s, threads := P.threads ++ spawn } := by
  unfold Closing.env at henv
  split at henv
  · next ms =>
    -- Time passes.
    cases henv
    have hlater (hover : Over P.shared) : Over { P.shared with now := P.shared.now + ms } :=
      fun due hdue => Nat.le_trans (hover due hdue) (Nat.le_add_right _ _)
    refine ⟨⟨hkept.cut, hkept.taken, fun hdart => ?_, fun hc hd => hlater (hkept.online hc hd)⟩,
      h.env (Nat.le_add_right _ _) rfl (List.forall_mem_nil _)⟩
    exact ⟨hlater (hkept.dart hdart).1, (hkept.dart hdart).2⟩
  · cases henv
    exact ⟨⟨hkept.cut, hkept.taken, hkept.dart, hkept.online⟩,
      h.env (Nat.le_refl _) rfl (List.forall_mem_nil _)⟩
  · cases henv
    exact ⟨⟨hkept.cut, hkept.taken, hkept.dart, hkept.online⟩,
      h.env (Nat.le_refl _) rfl (List.forall_mem_nil _)⟩
  · next gen exit len =>
    split at henv
    · cases henv
      refine ⟨⟨hkept.cut, hkept.taken, hkept.dart, hkept.online⟩,
        h.env (Nat.le_refl _) rfl fun t ht => ?_⟩
      rw [List.mem_singleton.mp ht]
      exact silent_program gen len exit
    · cases henv
  · split at henv
    · cases henv
      exact ⟨hkept, h.env (Nat.le_refl _) rfl (List.forall_mem_nil _)⟩
    · cases henv
      refine ⟨⟨hkept.cut, hkept.taken, hkept.dart, hkept.online⟩,
        h.env (Nat.le_refl _) rfl fun t ht => ?_⟩
      rw [List.mem_singleton.mp ht]
      simp [Silent, isDeferredStmt]
  · next hdart =>
    split at henv
    · cases henv
      exact ⟨hkept, h.env (Nat.le_refl _) rfl (List.forall_mem_nil _)⟩
    · -- Dart is not in `ts_stop_audio`.
      cases henv
      refine ⟨⟨hkept.cut, hkept.taken, fun h => ?_, hkept.online⟩,
        h.env (Nat.le_refl _) rfl (List.forall_mem_nil _)⟩
      exact absurd (hdart.symm.trans h) (by decide)
  -- `ts_stop_audio` does nothing while a disconnect is under way.
  · cases henv
    split
    · exact ⟨hkept, h.env (Nat.le_refl _) rfl (List.forall_mem_nil _)⟩
    · exact ⟨⟨hkept.cut, hkept.taken, nofun, hkept.online⟩,
        h.env (Nat.le_refl _) rfl (List.forall_mem_nil _)⟩
  -- The call looks at the flag: a deferred teardown is left to the task.
  · next hdart =>
    cases henv
    refine ⟨⟨hkept.cut, hkept.taken, fun htear => ?_, hkept.online⟩,
      h.env (Nat.le_refl _) rfl (List.forall_mem_nil _)⟩
    cases hdeferred : P.shared.deferred with
    | true =>
        rw [show _ = (none : Option StopStmt) from if_pos hdeferred] at htear
        cases htear
    | false =>
        have hstop : stopInTime P = true := by
          simpa [undisturbed, hdart] using hok
        exact over_of_stopInTime hannounced hkept h hstop hdeferred
  · next hdart =>
    -- `ts_stop_audio` tears the stream down.
    cases henv
    obtain ⟨hover, hpolled⟩ := hkept.dart hdart
    have hcut : (P.shared.dues.any fun due => P.shared.now < due) = false :=
      List.any_eq_false.mpr fun due hdue => by simpa using hover due hdue
    have htaken : (P.shared.polled.any fun gen => gen ∉ P.shared.scheduled) = false :=
      List.any_eq_false.mpr fun gen hgen => by simpa using hpolled gen hgen
    refine ⟨⟨?_, ?_, nofun, hkept.online⟩, h.env (Nat.le_refl _) rfl (List.forall_mem_nil _)⟩
    · show (P.shared.cut || P.shared.dues.any _) = false
      rw [hcut, hkept.cut]
      rfl
    · show (P.shared.taken || P.shared.polled.any _) = false
      rw [htaken, hkept.taken]
      rfl
  · cases henv

/-! ### Runs -/

/-- The invariant of the runs that meet the condition. -/
structure Hush (P : ClosingPool) : Prop where
  attempt : OneAttempt P
  announced : Announced P
  kept : Kept P.shared
  hushed : Hushed P

/-- Every undisturbed step keeps the sound uncut. -/
theorem hush_of_next {label : Pool.Label Bool Closing.Event} (h : Hush P)
    (hok : undisturbed P label = true) (hnext : closingSystem.next label P = some P') :
    Hush P' := by
  have hattempt := oneAttempt_of_next h.attempt hnext
  have hannounced := announced_of_next h.announced hnext
  cases label with
  | run i choice =>
      obtain ⟨th, st, rest, out, hth, hprog, hexec, rfl⟩ := Pool.next_run hnext
      have hchecks : Pool.checks scheduleInTime P
          (.run i choice : Pool.Label Bool Closing.Event) = true := hok
      obtain ⟨hkept, hhushed⟩ := hushed_run h.attempt h.kept h.hushed hth hprog hexec
        (Pool.cond_of_checks hchecks hth hprog)
      exact ⟨hattempt, hannounced, hkept, hhushed⟩
  | env e =>
      obtain ⟨s, spawn, henv, rfl⟩ := Pool.next_env (L := Closing.language) hnext
      obtain ⟨hkept, hhushed⟩ := hushed_env h.announced h.kept h.hushed henv hok
      exact ⟨hattempt, hannounced, hkept, hhushed⟩

/-- At the start there is no sound. -/
theorem hush_initial : Hush ⟨.initial, []⟩ where
  attempt := ⟨rfl, nofun⟩
  announced := ⟨List.forall_mem_nil _, fun _ h => h.elim nofun nofun⟩
  kept := ⟨rfl, rfl, nofun, nofun⟩
  hushed := .none nofun (List.forall_mem_nil _)

/-- In a run that meets the condition, no closing sound is cut. -/
theorem neverCut_of_run
    (hrun : closingSystem.Run (fun P label => undisturbed P label = true) P) : NeverCut P := by
  have h : Hush P := by
    refine Run.invariant (P := Hush) ?_ ?_ hrun
    · rintro ⟨s, threads⟩ ⟨hinit, rfl⟩
      cases hinit
      exact hush_initial
    · exact fun P P' label h hok hnext => hush_of_next h hok hnext
  exact ⟨h.kept.cut, h.kept.taken⟩

/-- Thread `i` executes `k` statements. -/
def runs (i k : Nat) : List (Pool.Label Bool Closing.Event) := List.replicate k (.run i true)

/-- A session is established by thread `i`. -/
def connects (i : Nat) : List (Pool.Label Bool Closing.Event) := .env .connect :: runs i 6

/-- Dart polls an event and calls `ts_stop_audio`. -/
def pollsAndStops : List (Pool.Label Bool Closing.Event) :=
  [.env .poll, .env .stopAudio, .env .stop]

/-- The stream of the first session has an error. Dart stops the audio, and the sound is played to
its end. -/
theorem neverCut_error : ∃ P : ClosingPool, P.shared.polled = [1] ∧ P.shared.dues = [400] ∧
    P.shared.now = 400 ∧ NeverCut P := by
  have hstart : closingSystem.Run (fun P label => undisturbed P label = true) ⟨.initial, []⟩ :=
    .start ⟨rfl, rfl⟩
  obtain ⟨P, hrun, hview⟩ := Run.exists_of_exec closingSystem _ undisturbed
    (connects 0 ++ [.env (.exit 1 .error 0)] ++ runs 1 4 ++ pollsAndStops ++ runs 2 1 ++
      [.env (.advance 400)] ++ runs 2 4)
    (fun P => (P.shared.polled, P.shared.dues, P.shared.now)) (fun _ _ h => h) hstart
    (a := ([1], [400], 400)) rfl
  simp only [Prod.mk.injEq] at hview
  exact ⟨P, hview.1, hview.2.1, hview.2.2, neverCut_of_run hrun⟩

/-- We are kicked, connect again after 500 ms, and lose that session at once. The task of the kick
tears the stream down 2400 ms after the kick, and cuts the sound of the second session. And when the
stream has an error, Dart can stop the audio before the flag is set. -/
theorem not_neverCut :
    (∃ P : ClosingPool, closingSystem.Reachable P ∧ P.shared.cut = true ∧ ¬ NeverCut P) ∧
      ∃ P : ClosingPool, closingSystem.Reachable P ∧ P.shared.taken = true ∧ ¬ NeverCut P := by
  have hstart : closingSystem.Reachable ⟨.initial, []⟩ := .start ⟨rfl, rfl⟩
  constructor
  · obtain ⟨P, hrun, hcut⟩ := Run.exists_of_exec closingSystem (fun _ _ => True) (fun _ _ => true)
      (connects 0 ++ [.env .kicked, .env (.exit 1 .ended 0)] ++ runs 1 5 ++ runs 2 1 ++
        [.env (.advance 500)] ++ connects 3 ++ [.env (.exit 2 .error 96000)] ++ runs 4 4 ++
        runs 5 1 ++ [.env (.advance 1900)] ++ runs 2 4)
      (fun P => P.shared.cut) (fun _ _ _ => trivial) hstart (a := true) (by decide +kernel)
    exact ⟨P, hrun, hcut, fun h => absurd (h.1.symm.trans hcut) (by decide)⟩
  · obtain ⟨P, hrun, htaken⟩ := Run.exists_of_exec closingSystem (fun _ _ => True) (fun _ _ => true)
      (connects 0 ++ [.env (.exit 1 .error 0)] ++ runs 1 3 ++ pollsAndStops ++ [.env .stop])
      (fun P => P.shared.taken) (fun _ _ _ => trivial) hstart (a := true) rfl
    exact ⟨P, hrun, htaken, fun h => absurd (h.2.symm.trans htaken) (by decide)⟩

end Nek0.Proofs.Audio
