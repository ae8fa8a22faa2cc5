import Nek0.Dart.Notifier

/-!
# `Nek0.Proofs.Dart.Microphone`: when the capture follows the controls

`_updateMicState` sets `_micEnabled` before the permission request is answered. So an answer can
come when the microphone is muted, when the session is over, or when an earlier answer has already
started the capture. `_micEnabled` also survives a session that the server ends, and then the next
session does not ask again. And `stop` cancels nothing if the audio never ran.

`keepsMic` is the condition that none of this happens. `micFollows_of_run` says that the capture
follows the controls then.
-/

set_option autoImplicit false

namespace Nek0.Proofs.Dart

open Nek0.Dart
open Nek0.Native (TsEvent)

/-- The session is on: from its `connected` event until `disconnect` or its `disconnected` event. -/
def inSession (n : Notifier) : Bool := n.audioService.isSome

/-- The capture follows the controls. -/
structure MicFollows (n : Notifier) : Prop where
  /-- When no permission request waits, one subscription is live if the session is on, the
  permission was granted and the microphone should be active, and none otherwise. -/
  follows : n.audio.requests = [] →
    n.audio.live.length =
      if inSession n && n.audio.granted && n.shouldMicBeActive then 1 else 0
  /-- No earlier subscription is left: a live one is the current service's. -/
  current : ∀ subscription ∈ n.audio.live, ∃ service, n.audioService = some service ∧
    (n.audio.objects service).micSubscription = some subscription

/-- The audio of the session runs, or nothing is captured. -/
def stopsCapture (n : Notifier) : Bool :=
  n.audio.live.isEmpty || n.audioService.any fun service => (n.audio.objects service).running

/-- Does the step leave the capture to the controls? -/
def keepsMic (n : Notifier) : Notifier.Event → Bool
  | .handle _ =>
      match n.inbox with
      | .connected _ _ :: _ =>
        -- Nothing is captured from before, and `_micEnabled` does not stop a request that is due.
        n.audio.live.isEmpty && !(n.micEnabled && n.shouldMicBeActive && n.audio.granted &&
          n.audio.requests.isEmpty)
      | .disconnected _ :: _ => n.state.connecting || stopsCapture n
      | _ => true
  | .disconnect => !n.asksDisconnect || stopsCapture n
  | .micAnswered service granted =>
      n.audio.live.isEmpty &&
        (!granted || (n.audioService == some service && n.shouldMicBeActive))
  | _ => true

/-! ### The invariant -/

/-- What holds before `_updateMicState` looks at the controls. -/
structure MicReady (n : Notifier) : Prop where
  current : ∀ subscription ∈ n.audio.live, ∃ service, n.audioService = some service ∧
    (n.audio.objects service).micSubscription = some subscription
  single : n.audio.live.length ≤ 1
  enabled_of_live : n.audio.live ≠ [] → n.micEnabled = true
  granted_of_live : n.audio.live ≠ [] → n.audio.granted = true
  waits : inSession n = true → n.micEnabled = true → n.shouldMicBeActive = true →
    n.audio.live = [] → n.audio.requests ≠ [] ∨ n.audio.granted = false

/-- What holds between the steps. -/
structure MicSettled (n : Notifier) : Prop extends MicReady n where
  enabled : inSession n = true → n.micEnabled = n.shouldMicBeActive

/-- The invariant gives the property. -/
theorem MicSettled.follows {n : Notifier} (h : MicSettled n) : MicFollows n := by
  refine ⟨?_, h.current⟩
  intro hnone
  cases hlive : n.audio.live with
  | nil =>
      rw [if_neg]
      · rfl
      · simp only [Bool.and_eq_true]
        rintro ⟨⟨hsession, hgranted⟩, hshould⟩
        have henabled : n.micEnabled = true := (h.enabled hsession).trans hshould
        rcases h.waits hsession henabled hshould hlive with hwaits | hdenied
        · exact hwaits hnone
        · rw [hgranted] at hdenied
          cases hdenied
  | cons subscription rest =>
      have hne : n.audio.live ≠ [] := by simp [hlive]
      have hone : rest = [] := by
        have hsingle := h.single
        rw [hlive] at hsingle
        exact List.eq_nil_of_length_eq_zero (by simpa using hsingle)
      have hsession : inSession n = true := by
        obtain ⟨service, hservice, -⟩ := h.current subscription (by simp [hlive])
        simp [inSession, hservice]
      have hshould : n.shouldMicBeActive = true :=
        (h.enabled hsession).symm.trans (h.enabled_of_live hne)
      simp [hone, hsession, hshould, h.granted_of_live hne]

/-- Without a live subscription, only a due request is left to check. -/
theorem micReady_of_silent {n : Notifier} (hlive : n.audio.live = [])
    (hwaits : inSession n = true → n.micEnabled = true → n.shouldMicBeActive = true →
      n.audio.requests ≠ [] ∨ n.audio.granted = false) : MicReady n where
  current := by simp [hlive]
  single := by simp [hlive]
  enabled_of_live := fun hne => absurd hlive hne
  granted_of_live := fun hne => absurd hlive hne
  waits := fun hsession henabled hshould _ => hwaits hsession henabled hshould

/-- `_stopMic` of the only service with a live subscription leaves none. -/
theorem live_stopMic {a : AudioServices} {service : Nat}
    (howns : ∀ subscription ∈ a.live, (a.objects service).micSubscription = some subscription)
    (hsingle : a.live.length ≤ 1) : (a.stopMic service).live = [] := by
  unfold AudioServices.stopMic
  dsimp only
  match hlive : a.live with
  | [] =>
      split
      · exact hlive
      · rfl
  | [subscription] =>
      have hsome : (a.objects service).micSubscription = some subscription :=
        howns subscription (by simp [hlive])
      simp [hsome]
  | _ :: _ :: _ => simp [hlive] at hsingle

/-- The current service is the one with the live subscription. -/
theorem MicReady.owns {n : Notifier} (h : MicReady n) {service : Nat}
    (hservice : n.audioService = some service) :
    ∀ subscription ∈ n.audio.live,
      (n.audio.objects service).micSubscription = some subscription := by
  intro subscription hmem
  obtain ⟨other, hother, hsub⟩ := h.current subscription hmem
  rw [hservice] at hother
  cases hother
  exact hsub

/-- `_updateMicState` brings `_micEnabled` in line with the controls. -/
theorem micSettled_updateMicState {n : Notifier} (h : MicReady n) :
    MicSettled n.updateMicState := by
  unfold Notifier.updateMicState
  match hservice : n.audioService with
  | none =>
      refine ⟨h, ?_⟩
      intro hsession
      simp [inSession, hservice] at hsession
  | some service =>
      dsimp only
      split
      · rename_i hstart
        simp only [Bool.and_eq_true, Bool.not_eq_true'] at hstart
        -- `_micEnabled` is not set, so nothing is captured.
        have hlive : n.audio.live = [] := by
          by_contra hne
          rw [h.enabled_of_live hne] at hstart
          cases hstart.2
        refine ⟨micReady_of_silent hlive ?_, fun _ => hstart.1.symm⟩
        intro _ _ _
        exact .inl (by simp [AudioServices.enableMic])
      · split
        · rename_i hstop
          simp only [Bool.and_eq_true, Bool.not_eq_true'] at hstop
          have hlive : (n.audio.disableMic service).live = [] :=
            live_stopMic (h.owns hservice) h.single
          refine ⟨micReady_of_silent hlive ?_, fun _ => hstop.1.symm⟩
          intro _ henabled _
          cases henabled
        · rename_i hstart hstop
          refine ⟨h, fun _ => ?_⟩
          revert hstart hstop
          cases n.shouldMicBeActive <;> cases n.micEnabled <;> simp

/-- New controls. -/
theorem MicSettled.controls {n : Notifier} (h : MicSettled n) (state : TsConnectionState)
    (before : Bool) :
    MicReady { n with state := state, inputMutedBeforeAway := before } where
  current := h.current
  single := h.single
  enabled_of_live := h.enabled_of_live
  granted_of_live := h.granted_of_live
  waits := by
    intro hsession henabled _ hlive
    -- `_micEnabled` followed the old controls, so the request was due under them too.
    exact h.waits hsession henabled ((h.enabled hsession).symm.trans henabled) hlive

/-- What the invariant looks at. -/
theorem MicSettled.congr {n n' : Notifier} (h : MicSettled n) (haudio : n'.audio = n.audio)
    (hservice : n'.audioService = n.audioService) (henabled : n'.micEnabled = n.micEnabled)
    (hshould : n'.shouldMicBeActive = n.shouldMicBeActive) : MicSettled n' := by
  have hsession : inSession n' = inSession n := by simp [inSession, hservice]
  refine ⟨⟨?_, ?_, ?_, ?_, ?_⟩, ?_⟩
  · rw [haudio, hservice]
    exact h.current
  · rw [haudio]
    exact h.single
  · rw [haudio, henabled]
    exact h.enabled_of_live
  · rw [haudio]
    exact h.granted_of_live
  · rw [haudio, henabled, hshould, hsession]
    exact h.waits
  · rw [henabled, hshould, hsession]
    exact h.enabled

/-- The end of a session that can stop its capture leaves none. -/
theorem live_stopAudio {n : Notifier} (h : MicReady n) (hstops : stopsCapture n = true) :
    n.stopAudio.audio.live = [] := by
  unfold Notifier.stopAudio
  cases hservice : n.audioService with
  | none =>
      simpa [stopsCapture, hservice] using hstops
  | some service =>
      show (n.audio.stop service).live = []
      unfold AudioServices.stop
      dsimp only
      split
      · refine live_stopMic ?_ h.single
        simpa [AudioServices.set] using h.owns hservice
      · rename_i hidle
        simpa [stopsCapture, hservice, hidle] using hstops

/-- After the end of a session. -/
theorem micSettled_ended {n : Notifier} (hlive : n.audio.live = [])
    (hservice : n.audioService = none) : MicSettled n := by
  have hsession : inSession n = false := by simp [inSession, hservice]
  refine ⟨micReady_of_silent hlive ?_, ?_⟩
  · rw [hsession]
    nofun
  · rw [hsession]
    nofun

/-- After `stopAudio` there is no audio service. -/
@[simp]
theorem audioService_stopAudio (n : Notifier) : n.stopAudio.audioService = none := by
  unfold Notifier.stopAudio
  cases hservice : n.audioService with
  | none => exact hservice
  | some service => rfl

/-! ### Steps -/

/-- `start` moves no subscription and answers no request. -/
theorem capture_start (a : AudioServices) (service : Nat) (started : Bool) :
    (a.start service started).live = a.live ∧ (a.start service started).requests = a.requests ∧
      (a.start service started).granted = a.granted := by
  unfold AudioServices.start
  dsimp only
  split
  · exact ⟨rfl, rfl, rfl⟩
  · split
    · exact ⟨rfl, rfl, rfl⟩
    · exact ⟨rfl, rfl, rfl⟩

/-- Connecting settles the microphone, if nothing is live and nothing is due. -/
theorem micSettled_onConnected {n : Notifier} (hlive : n.audio.live = [])
    (hdue : (n.micEnabled && n.shouldMicBeActive && n.audio.granted &&
      n.audio.requests.isEmpty) = false) (started : Bool) :
    MicSettled (n.onConnected started) := by
  obtain ⟨hlive', hrequests, hgranted⟩ :=
    capture_start n.audio.create n.audio.created started
  refine micSettled_updateMicState (micReady_of_silent ?_ ?_)
  · exact hlive'.trans hlive
  · intro _ henabled hshould
    have henabled : n.micEnabled = true := henabled
    have hshould : n.shouldMicBeActive = true := hshould
    show (n.audio.create.start n.audio.created started).requests ≠ [] ∨
      (n.audio.create.start n.audio.created started).granted = false
    rw [hrequests, hgranted]
    show n.audio.requests ≠ [] ∨ n.audio.granted = false
    rw [henabled, hshould] at hdue
    cases hgrant : n.audio.granted with
    | false => exact .inr rfl
    | true =>
        left
        intro hnone
        simp [hgrant, hnone] at hdue

/-- An answer finds nothing captured. A grant finds the microphone due in its own session. -/
theorem micSettled_micAnswered {n : Notifier} (h : MicSettled n) {service : Nat} {granted : Bool}
    (hlive : n.audio.live = [])
    (hdue : granted = true → n.audioService = some service ∧ n.shouldMicBeActive = true) :
    MicSettled (n.micAnswered service granted) := by
  cases granted with
  | false =>
      refine ⟨micReady_of_silent hlive ?_, h.enabled⟩
      intro _ _ _
      exact .inr rfl
  | true =>
      obtain ⟨hservice, hshould⟩ := hdue rfl
      have hsession : inSession n = true := by simp [inSession, hservice]
      have henabled : n.micEnabled = true := (h.enabled hsession).trans hshould
      have hone : (n.micAnswered service true).audio.live = [n.audio.listens] := by
        simp [Notifier.micAnswered, AudioServices.answer, AudioServices.startMic, hlive]
      refine ⟨⟨?_, ?_, fun _ => henabled, fun _ => rfl, ?_⟩, h.enabled⟩
      · intro subscription hmem
        rw [hone, List.mem_singleton] at hmem
        subst hmem
        refine ⟨service, hservice, ?_⟩
        simp [Notifier.micAnswered, AudioServices.answer, AudioServices.startMic,
          AudioServices.set]
      · simp [hone]
      · intro _ _ _ hnone
        rw [hone] at hnone
        cases hnone

/-- The disconnection ends with the capture off. -/
theorem micSettled_onDisconnected {n : Notifier} (h : MicSettled n)
    (hstops : n.state.connecting = true ∨ stopsCapture n = true) :
    MicSettled n.onDisconnected := by
  unfold Notifier.onDisconnected
  split
  · exact h
  · rename_i hidle
    have hstops : stopsCapture n = true := hstops.resolve_left hidle
    exact micSettled_ended (live_stopAudio h.toMicReady hstops) (audioService_stopAudio n)

/-- One event of a batch. -/
theorem micSettled_handleEvent {n : Notifier} (h : MicSettled n) {event : TsEvent}
    {rest : List TsEvent} (hinbox : n.inbox = event :: rest) {started : Bool}
    (hkeeps : keepsMic n (.handle started) = true) :
    MicSettled (({ n with inbox := rest } : Notifier).handleEvent started event) := by
  have hrest : MicSettled { n with inbox := rest } := h.congr rfl rfl rfl rfl
  cases event
  case connected =>
    simp only [keepsMic, hinbox, Bool.and_eq_true, List.isEmpty_iff, Bool.not_eq_true'] at hkeeps
    exact micSettled_onConnected (n := { n with inbox := rest }) hkeeps.1 hkeeps.2 started
  case disconnected =>
    simp only [keepsMic, hinbox, Bool.or_eq_true] at hkeeps
    exact micSettled_onDisconnected hrest hkeeps
  case error =>
    show MicSettled (Notifier.onError _)
    unfold Notifier.onError
    split
    · exact hrest.congr rfl rfl rfl rfl
    · exact hrest
  all_goals exact hrest.congr rfl rfl rfl rfl

/-- One step. -/
theorem micSettled_next {n n' : Notifier} {e : Notifier.Event} (h : MicSettled n)
    (hkeeps : keepsMic n e = true) (hnext : Notifier.next e n = some n') : MicSettled n' := by
  unfold Notifier.next at hnext
  cases hinbox : n.inbox with
  -- A batch is being handled.
  | cons event rest =>
      rw [hinbox] at hnext
      cases e
      case handle started =>
        cases hnext
        exact micSettled_handleEvent h hinbox hkeeps
      all_goals cases hnext
  -- The user, a timer or the permission dialog acts.
  | nil =>
      rw [hinbox] at hnext
      cases e
      case connect =>
        cases hnext
        exact h.congr rfl rfl rfl rfl
      case connectReturned accepted =>
        simp only [Notifier.step, Option.ite_none_right_eq_some] at hnext
        cases hnext.2
        unfold Notifier.connectReturned
        split
        · exact h.congr rfl rfl rfl rfl
        · exact h.congr rfl rfl rfl rfl
      case disconnect =>
        simp only [Notifier.step, Option.some.injEq] at hnext
        subst hnext
        split
        -- The call that ends a session has to end the capture with it.
        · rename_i hasks
          have hstops : stopsCapture n = true := by simpa [keepsMic, hasks] using hkeeps
          exact micSettled_ended (live_stopAudio h.toMicReady hstops) (audioService_stopAudio n)
        · exact h
      case poll events =>
        simp only [Notifier.step, Option.ite_none_right_eq_some] at hnext
        cases hnext.2
        exact h.congr rfl rfl rfl rfl
      case handle => cases hnext
      -- The three controls change what the microphone should do, and then bring it up to date.
      case togglePttMode =>
        cases hnext
        exact micSettled_updateMicState (h.controls _ _)
      case setPttPressed =>
        cases hnext
        exact micSettled_updateMicState (h.controls _ _)
      case toggleInputMute =>
        cases hnext
        exact micSettled_updateMicState (h.controls _ _)
      case toggleOutputMute =>
        cases hnext
        exact h.congr rfl rfl rfl rfl
      case toggleAway =>
        simp only [Notifier.step, Option.some.injEq] at hnext
        subst hnext
        unfold Notifier.toggleAway
        split
        · exact h
        · exact micSettled_updateMicState (h.controls _ _)
      case setAwayAndFullMute =>
        cases hnext
        exact micSettled_updateMicState (h.controls _ _)
      -- An answer is for the service that asked, if that one is still there.
      case micAnswered service granted =>
        simp only [Notifier.step, Option.ite_none_right_eq_some] at hnext
        cases hnext.2
        simp only [keepsMic, Bool.and_eq_true, List.isEmpty_iff, Bool.or_eq_true,
          Bool.not_eq_true', beq_iff_eq] at hkeeps
        refine micSettled_micAnswered h hkeeps.1 ?_
        rintro rfl
        exact hkeeps.2.resolve_left nofun
      case permOp queued =>
        simp only [Notifier.step, Option.some.injEq] at hnext
        subst hnext
        unfold Notifier.permOp
        dsimp only
        split
        · exact h
        · split
          · exact h.congr rfl rfl rfl rfl
          · exact h.congr rfl rfl rfl rfl
      case permTimeout =>
        cases hnext
        exact h.congr rfl rfl rfl rfl
      case transfers =>
        cases hnext
        exact h.congr rfl rfl rfl rfl

/-! ### Runs -/

/-- The capture follows the controls in every run that answers the permission requests in time. -/
theorem micFollows_of_run {n : Notifier}
    (hrun : Notifier.system.Run (fun n e => keepsMic n e = true) n) : MicFollows n := by
  refine (hrun.invariant (P := fun n => MicSettled n) ?_ ?_).follows
  · intro n hinit
    cases hinit
    exact micSettled_ended rfl rfl
  · intro n e n' h hkeeps hnext
    exact micSettled_next h hkeeps hnext

/-- A session whose permission request waits, and then `events`. -/
def sessionWith (events : List Notifier.Event) : List Notifier.Event :=
  [.connect, .connectReturned true, .poll [.connected "server" 1], .handle true] ++ events

/-- The grant starts the capture. -/
theorem micFollows_granted : ∃ n : Notifier, MicFollows n ∧ n.audio.requests = [] ∧
    n.audio.live.length = 1 := by
  obtain ⟨n, hrun, hobs⟩ := Nek0.Lib.System.Run.exists_of_exec Notifier.system
    (fun n e => keepsMic n e = true) keepsMic (sessionWith [.micAnswered 0 true])
    (fun n => (n.audio.requests, n.audio.live.length)) (fun _ _ h => h) (.start rfl)
    (a := ([], 1)) rfl
  simp only [Prod.mk.injEq] at hobs
  exact ⟨n, micFollows_of_run hrun, hobs.1, hobs.2⟩

/-- The microphone is muted while the request waits, and the grant starts the capture anyway. -/
theorem not_micFollows : ¬ ∀ n : Notifier, Notifier.system.Reachable n → MicFollows n := by
  intro hall
  obtain ⟨n, hreach, hobs⟩ := Nek0.Lib.System.Run.exists_of_exec Notifier.system
    (fun _ _ => True) (fun _ _ => true) (sessionWith [.toggleInputMute, .micAnswered 0 true])
    (fun n => (n.audio.requests, n.audio.live.length, n.shouldMicBeActive))
    (fun _ _ _ => trivial) (.start rfl) (a := ([], 1, false)) rfl
  simp only [Prod.mk.injEq] at hobs
  obtain ⟨hnone, hlive, hmuted⟩ := hobs
  have hfollows := (hall n hreach).follows hnone
  simp [hlive, hmuted] at hfollows

end Nek0.Proofs.Dart
