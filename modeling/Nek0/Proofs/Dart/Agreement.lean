import Nek0.Proofs.Dart.AppSteps

/-!
# `Nek0.Proofs.Dart.Agreement`: the notifier shows what the native side has

`Agrees` says that an attempt or a session of the native side is shown and polled, and that nothing
is shown any more once the `Disconnected` event was polled and no new attempt is under way.

An `Error` event ends the notifier's attempt, but the identity-level notices are `Error` events too.
`disconnect` ends it as well, and so does a refused second `connect`. `keepsShowing` is the
condition that none of these comes at a wrong time.
-/

set_option autoImplicit false

namespace Nek0.Proofs.Dart

open Nek0.Lib
open Nek0.Dart
open Nek0.Native
open Nek0.Proofs.Native

/-- The native side has an attempt or a session. -/
def active (s : Shared) : Bool := s.connecting || s.connected

/-- The notifier shows an attempt or a session. -/
def shows (n : Notifier) : Bool := n.state.connecting || n.state.connected

/-- The notifier still shows a session whose `Disconnected` event was handled. -/
def showsEnded (a : App) : Bool := a.notifier.state.connected && a.history.ended

/-- The events that are still going to be handled. -/
def unhandled (a : App) : List TsEvent :=
  a.notifier.inbox ++ if a.notifier.polling then a.machine.shared.pendingEvents else []

/-- An attempt is under way: `connect` waits for the preferences, the native side has an attempt or
a session, or the outcome of one is still to be handled. -/
def underWay (a : App) : Prop :=
  0 < a.notifier.connects ∨ active a.machine.shared = true ∨ ∃ e ∈ unhandled a, isOutcome e = true

/-- The two sides agree on the session. -/
structure Agrees (a : App) : Prop where
  /-- What the native side has is polled and shown. -/
  shown : active a.machine.shared = true → a.notifier.polling = true ∧ shows a.notifier = true
  /-- After the `Disconnected` event, nothing is shown. -/
  gone : a.history.ended = true → ¬ underWay a → shows a.notifier = false

/-- Does the step leave on show what there is, and nothing else? -/
def keepsShowing (a : App) : AppEvent → Bool
  | .notifier (.handle _) =>
      match a.notifier.inbox with
      -- An error ends the attempt only when the native side has ended it.
      | .error _ :: _ =>
        !a.notifier.state.connecting || (!active a.machine.shared && !showsEnded a)
      | .disconnected _ :: _ => a.notifier.state.connecting || !active a.machine.shared
      | _ => true
  | .disconnectReturned =>
      !a.notifier.state.connecting ||
        ((!active a.machine.shared || a.notifier.state.connected) && !showsEnded a)
  | .connectReturned =>
      if a.accepts then shows a.notifier
      else a.notifier.state.connected && !showsEnded a
  | _ => true

/-! ### The invariant -/

/-- What holds between the steps. -/
structure InStep (a : App) : Prop where
  shown : active a.machine.shared = true → a.notifier.polling = true ∧ shows a.notifier = true
  connecting : a.notifier.state.connecting = true → 0 < a.notifier.connects ∨
    a.machine.shared.connecting = true ∨ ∃ e ∈ unhandled a, isOutcome e = true
  stale : showsEnded a = true → a.notifier.state.connecting = true

/-- Screens that are in step with the machine agree with it. -/
theorem InStep.agrees {a : App} (h : InStep a) : Agrees a where
  shown := h.shown
  gone := by
    intro hended hover
    have hconnecting : a.notifier.state.connecting = false := by
      by_contra hcon
      rcases h.connecting (by simpa using hcon) with hwaits | hnative | houtcome
      · exact hover (.inl hwaits)
      · exact hover (.inr (.inl (by simp [active, hnative])))
      · exact hover (.inr (.inr houtcome))
    have hconnected : a.notifier.state.connected = false := by
      by_contra hcon
      have hstale := h.stale (by simp [showsEnded, hended, hcon])
      rw [hconnecting] at hstale
      cases hstale
    simp [shows, hconnecting, hconnected]

/-! ### What the events on the isolate do to the session -/

/-- What the notifier knows of the session. -/
def sessionView (n : Notifier) : Bool × Bool × Bool × Nat × List TsEvent :=
  (n.state.connected, n.state.connecting, n.polling, n.connects, n.inbox)

/-- The microphone is no part of what the screens show of the session. -/
@[simp]
theorem sessionView_updateMicState (n : Notifier) :
    sessionView n.updateMicState = sessionView n := by
  unfold Notifier.updateMicState
  split
  · rfl
  · dsimp only
    split
    · rfl
    · split <;> rfl

@[simp]
theorem sessionView_stopAudio (n : Notifier) : sessionView n.stopAudio = sessionView n := by
  unfold Notifier.stopAudio
  split <;> rfl

/-- The controls do not touch it. -/
theorem sessionView_control {n n' : Notifier} {e : Notifier.Event} (he : isControl e = true)
    (h : n.step e = some n') : sessionView n' = sessionView n := by
  cases e
  case connect => cases he
  case connectReturned => cases he
  case disconnect => cases he
  case poll => cases he
  case handle => cases he
  -- `toggleAway` does nothing outside of a session, so it is the one control with a branch.
  case toggleAway =>
    simp only [Notifier.step, Option.some.injEq] at h
    subst h
    unfold Notifier.toggleAway
    split
    · rfl
    · exact sessionView_updateMicState _
  case micAnswered =>
    simp only [Notifier.step, Option.ite_none_right_eq_some] at h
    cases h.2
    rfl
  case permOp queued =>
    simp only [Notifier.step, Option.some.injEq] at h
    subst h
    unfold Notifier.permOp
    dsimp only
    split
    · rfl
    · split <;> rfl
  case toggleOutputMute => cases h; rfl
  case permTimeout => cases h; rfl
  case transfers => cases h; rfl
  all_goals
    cases h
    exact sessionView_updateMicState _

/-- An event of a batch, by its kind. -/
theorem sessionView_handleEvent (n : Notifier) (started : Bool) (event : TsEvent) :
    sessionView (n.handleEvent started event) =
      match event with
      | .connected _ _ => (true, false, n.polling, n.connects, n.inbox)
      | .disconnected _ =>
          if n.state.connecting then sessionView n
          else (false, false, false, n.connects, n.inbox)
      | .error _ =>
          if n.state.connecting then (n.state.connected, false, false, n.connects, n.inbox)
          else sessionView n
      | _ => sessionView n := by
  cases event
  case connected => exact sessionView_updateMicState _
  case disconnected =>
    show sessionView n.onDisconnected = _
    unfold Notifier.onDisconnected
    dsimp only
    split
    · rfl
    · have hstop := sessionView_stopAudio n
      simp only [sessionView, Prod.mk.injEq] at hstop
      simp [sessionView, TsConnectionState.initial, hstop]
  case error =>
    show sessionView n.onError = _
    unfold Notifier.onError
    dsimp only
    split <;> rfl
  all_goals rfl

/-! ### Steps -/

/-- The invariant looks at the session only. -/
theorem InStep.congr {a a' : App} (h : InStep a)
    (hview : sessionView a'.notifier = sessionView a.notifier)
    (hshared : a'.machine.shared = a.machine.shared) (hended : a'.history.ended = a.history.ended) :
    InStep a' := by
  simp only [sessionView, Prod.mk.injEq] at hview
  obtain ⟨hconnected, hconnecting, hpolling, hconnects, hinbox⟩ := hview
  refine ⟨?_, ?_, ?_⟩
  · simpa only [shows, hshared, hpolling, hconnecting, hconnected] using h.shown
  · simpa only [unhandled, hshared, hpolling, hconnecting, hconnects, hinbox] using h.connecting
  · simpa only [showsEnded, hended, hconnecting, hconnected] using h.stale

/-- A step of the native side. -/
theorem inStep_native {a : App} {P : Machine} (h : InStep a)
    (hprogress : Progress a.machine.shared P.shared) : InStep { a with machine := P } := by
  refine ⟨?_, ?_, h.stale⟩
  · intro hactive
    refine h.shown ?_
    simp only [active, Bool.or_eq_true] at hactive ⊢
    rcases hactive with hcon | hcon
    · exact .inl (hprogress.connecting hcon)
    · exact (hprogress.connected hcon).symm
  · intro hconnecting
    rcases h.connecting hconnecting with hwaits | hnative | ⟨e, he, hout⟩
    · exact .inl hwaits
    · cases hafter : P.shared.connecting with
      | true => exact .inr (.inl rfl)
      | false =>
          -- The attempt ends with an outcome, and the timer is still running.
          obtain ⟨e, he, hout⟩ := hprogress.outcome hnative hafter
          have hpolling := (h.shown (by simp [active, hnative])).1
          refine .inr (.inr ⟨e, ?_, hout⟩)
          simp [unhandled, hpolling, he]
    · obtain ⟨events, hevents⟩ := hprogress.events
      refine .inr (.inr ⟨e, ?_, hout⟩)
      simp only [unhandled, List.mem_append] at he ⊢
      refine he.imp_right fun hmem => ?_
      split at hmem
      · rename_i hpolling
        rw [if_pos hpolling]
        show e ∈ P.shared.pendingEvents
        rw [hevents]
        exact List.mem_append_left _ hmem
      · cases hmem

/-- An event of a batch that changes nothing of what is shown. -/
theorem inStep_skip {a a' : App} {event : TsEvent} {rest : List TsEvent} (h : InStep a)
    (hinbox : a.notifier.inbox = event :: rest) (houtcome : isOutcome event = false ∨
      a.notifier.state.connecting = false)
    (hview : sessionView a'.notifier = sessionView { a.notifier with inbox := rest })
    (hmachine : a'.machine = a.machine)
    (hended : a'.history.ended = true → a.history.ended = true ∨
      a.notifier.state.connecting = true) : InStep a' := by
  simp only [sessionView, Prod.mk.injEq] at hview
  obtain ⟨hconnected, hconnecting, hpolling, hconnects, hrest⟩ := hview
  refine ⟨?_, ?_, ?_⟩
  -- The view is that of the state before, and so is the machine.
  · simpa only [shows, hmachine, hpolling, hconnecting, hconnected] using h.shown
  · intro hcon
    rw [hconnecting] at hcon
    rcases h.connecting hcon with hwaits | hnative | ⟨e, he, hout⟩
    · exact .inl (hconnects ▸ hwaits)
    · exact .inr (.inl (hmachine ▸ hnative))
    · refine .inr (.inr ⟨e, ?_, hout⟩)
      simp only [unhandled, hrest, hpolling, hmachine]
      simp only [unhandled, hinbox, List.cons_append, List.mem_cons] at he
      -- If the outcome that was awaited is the event itself, nothing is awaited any more.
      rcases he with rfl | hmem
      · rcases houtcome with hno | hidle
        · rw [hno] at hout
          cases hout
        · rw [hidle] at hcon
          cases hcon
      · exact hmem
  · intro hstale
    simp only [showsEnded, Bool.and_eq_true, hconnected] at hstale
    rw [hconnecting]
    rcases hended hstale.2 with hbefore | hcon
    · exact h.stale (by simp [showsEnded, hstale.1, hbefore])
    · exact hcon

/-- One event of a batch. -/
theorem inStep_handle {a a' : App} {started : Bool} {event : TsEvent} {rest : List TsEvent}
    (h : InStep a) (hinbox : a.notifier.inbox = event :: rest)
    (hkeeps : keepsShowing a (.notifier (.handle started)) = true)
    (ha' : a' = { a with
      notifier := ({ a.notifier with inbox := rest } : Notifier).handleEvent started event
      history := a.history.handle event }) : InStep a' := by
  have hview := sessionView_handleEvent { a.notifier with inbox := rest } started event
  have hnotifier : a'.notifier =
      ({ a.notifier with inbox := rest } : Notifier).handleEvent started event := by rw [ha']
  have hmachine : a'.machine = a.machine := by rw [ha']
  have hhistory : a'.history = a.history.handle event := by rw [ha']
  rw [← hnotifier] at hview
  cases event
  case connected =>
    simp only [sessionView, Prod.mk.injEq] at hview
    obtain ⟨hconnected, hconnecting, hpolling, -, -⟩ := hview
    refine ⟨?_, ?_, ?_⟩
    -- The poll has run since the session was accepted.
    · intro hactive
      rw [hmachine] at hactive
      exact ⟨hpolling.trans (h.shown hactive).1, by simp [shows, hconnected]⟩
    · rw [hconnecting]
      nofun
    · simp [showsEnded, hhistory, AppHistory.handle]
  case disconnected =>
    -- While an attempt is under way, the event belongs to the session before it.
    cases hconnecting : a.notifier.state.connecting with
    | true =>
        simp only [hconnecting, if_true] at hview
        exact inStep_skip h hinbox (.inl rfl) hview hmachine fun _ => .inr hconnecting
    | false =>
        simp only [hconnecting, Bool.false_eq_true, if_false, sessionView, Prod.mk.injEq] at hview
        simp only [keepsShowing, hinbox, hconnecting, Bool.false_or, Bool.not_eq_true'] at hkeeps
        refine ⟨?_, ?_, ?_⟩
        · rw [hmachine, hkeeps]
          nofun
        · rw [hview.2.1]
          nofun
        · simp [showsEnded, hview.1]
  case error =>
    cases hconnecting : a.notifier.state.connecting with
    -- An error ends the attempt. By the condition the machine has no session then.
    | true =>
        simp only [hconnecting, if_true, sessionView, Prod.mk.injEq] at hview
        simp only [keepsShowing, hinbox, hconnecting, Bool.not_true, Bool.false_or,
          Bool.and_eq_true, Bool.not_eq_true'] at hkeeps
        refine ⟨?_, ?_, ?_⟩
        · rw [hmachine, hkeeps.1]
          nofun
        · rw [hview.2.1]
          nofun
        · have hsame : showsEnded a' = showsEnded a := by
            simp [showsEnded, hview.1, hhistory, AppHistory.handle]
          rw [hsame, hkeeps.2]
          nofun
    | false =>
        simp only [hconnecting, Bool.false_eq_true, if_false] at hview
        refine inStep_skip h hinbox (.inr hconnecting) hview hmachine fun hended => .inl ?_
        rwa [hhistory] at hended
  all_goals
    refine inStep_skip h hinbox (.inl rfl) hview hmachine fun hended => .inl ?_
    rwa [hhistory] at hended

/-- `ts_connect` accepts: the native side is connecting, and the timer runs. -/
theorem inStep_accepted {a a' : App} (h : InStep a) (hshows : shows a.notifier = true)
    (hnotifier : a'.notifier = a.notifier.connectReturned true)
    (hnative : a'.machine.shared.connecting = true)
    (hended : a'.history.ended = a.history.ended) : InStep a' where
  shown := by
    intro _
    rw [hnotifier]
    exact ⟨rfl, hshows⟩
  connecting := fun _ => .inr (.inl hnative)
  stale := by
    intro hstale
    simp only [showsEnded, hnotifier, hended] at hstale
    rw [hnotifier]
    exact h.stale hstale

/-- The notifier's attempt ends, while a session is shown or the native side has nothing. -/
theorem inStep_dropped {a a' : App} (h : InStep a) (hnone : showsEnded a = false)
    (hshows : active a.machine.shared = true → a.notifier.state.connected = true)
    (hconnected : a'.notifier.state.connected = a.notifier.state.connected)
    (hconnecting : a'.notifier.state.connecting = false)
    (hpolling : a'.notifier.polling = a.notifier.polling)
    (hactive : active a'.machine.shared = active a.machine.shared)
    (hended : a'.history.ended = a.history.ended) : InStep a' where
  shown := by
    intro hact
    rw [hactive] at hact
    exact ⟨hpolling.trans (h.shown hact).1, by simp [shows, hconnected, hshows hact]⟩
  connecting := by
    rw [hconnecting]
    nofun
  stale := by
    have hsame : showsEnded a' = showsEnded a := by simp [showsEnded, hconnected, hended]
    rw [hsame, hnone]
    nofun

/-- `disconnect` goes on after `ts_disconnect`. -/
theorem inStep_disconnectReturned {a a' : App} (h : InStep a)
    (hkeeps : keepsShowing a .disconnectReturned = true)
    (hnotifier : a'.notifier = a.notifier.disconnectReturned) (hmachine : a'.machine = a.machine)
    (hended : a'.history.ended = a.history.ended) : InStep a' := by
  have hstop := sessionView_stopAudio a.notifier
  simp only [sessionView, Prod.mk.injEq] at hstop
  cases hconnecting : a.notifier.state.connecting with
  | false =>
      refine h.congr ?_ (by rw [hmachine]) hended
      rw [hnotifier]
      simp only [sessionView, Notifier.disconnectReturned, hconnecting, hstop]
  | true =>
      simp only [keepsShowing, hconnecting, Bool.not_true, Bool.false_or, Bool.and_eq_true,
        Bool.or_eq_true, Bool.not_eq_true'] at hkeeps
      refine inStep_dropped h hkeeps.2 ?_ ?_ ?_ ?_ (by rw [hmachine]) hended
      · intro hactive
        refine hkeeps.1.resolve_left ?_
        simp [hactive]
      · rw [hnotifier]
        exact hstop.1
      · rw [hnotifier]
        rfl
      · rw [hnotifier]
        exact hstop.2.2.1

/-- One step. -/
theorem inStep_step {a a' : App} {e : AppEvent} (h : InStep a)
    (hreach : native.Reachable a.machine) (hquiet : Quiet a.machine)
    (hkeeps : keepsShowing a e = true) (hstep : AppStep a e a') : InStep a' := by
  cases hstep with
  | native _ hP => exact inStep_native h (progress_of_native hreach hquiet hP)
  | connect =>
      refine ⟨?_, fun _ => .inl (Nat.succ_pos _), fun _ => rfl⟩
      intro hactive
      exact ⟨(h.shown hactive).1, rfl⟩
  | accepted _ _ _ haccepts hP =>
      have hshows : shows a.notifier = true := by simpa [keepsShowing, haccepts] using hkeeps
      exact inStep_accepted h hshows rfl
        (congrArg Shared.connecting (callAtOnce_accepted haccepts hP).1) rfl
  | refused _ _ haccepts hP =>
      simp only [keepsShowing, haccepts, Bool.false_eq_true, if_false, Bool.and_eq_true,
        Bool.not_eq_true'] at hkeeps
      refine inStep_dropped h hkeeps.2 (fun _ => hkeeps.1) rfl rfl rfl ?_ rfl
      exact congrArg active (callAtOnce_refused haccepts hP).1
  | poll _ hinbox hpolling hP =>
      -- A poll moves the waiting events into the batch, so an awaited outcome is still to come.
      obtain ⟨hshared, -⟩ := callAtOnce_poll hP
      refine ⟨?_, ?_, h.stale⟩
      · intro hactive
        rw [hshared] at hactive
        exact h.shown hactive
      · intro hconnecting
        rcases h.connecting hconnecting with hwaits | hnative | ⟨e, he, hout⟩
        · exact .inl hwaits
        · refine .inr (.inl ?_)
          rw [hshared]
          exact hnative
        · refine .inr (.inr ⟨e, ?_, hout⟩)
          have hpending : e ∈ a.machine.shared.pendingEvents := by
            simpa [unhandled, hinbox, hpolling] using he
          exact List.mem_append_left _ hpending
  | disconnect _ _ _ hP =>
      obtain rfl := native_call hP
      exact ⟨h.shown, h.connecting, h.stale⟩
  | ignored => exact h
  | disconnectReturned =>
      exact inStep_disconnectReturned h hkeeps rfl rfl rfl
  | handle _ hinbox => exact inStep_handle h hinbox hkeeps rfl
  | control he _ hn => exact h.congr (sessionView_control he hn) rfl rfl

/-! ### Runs -/

/-- Under the condition, the two sides agree in every state of every run. -/
theorem agrees_of_run {a : App} (hrun : App.system.Run (fun a e => keepsShowing a e = true) a) :
    Agrees a := by
  refine (hrun.invariant_of (Q := fun a => native.Reachable a.machine ∧ Quiet a.machine)
    (P := fun a => InStep a) ?_ ?_ ?_).agrees
  · exact fun a h => ⟨machine_of_run h, quiet_of_run h⟩
  · rintro a rfl
    exact ⟨nofun, nofun, nofun⟩
  · intro a a' e ⟨hreach, hquiet⟩ _ h hkeeps hnext
    exact inStep_step h hreach hquiet hkeeps (appStep_of_next hnext)

/-- An attempt whose handshake yields `h` first. The notifier polls and handles what was pushed. -/
def attemptWith (h : Handshake) (steps : Nat) : List AppEvent :=
  [.notifier .connect, .connectReturned, .native (.run 1 (.handshake h))] ++
    List.replicate steps (.native (.run 1 .go)) ++ [.poll, .notifier (.handle true)]

/-- A session that comes about is shown. -/
theorem agrees_connected : ∃ a : App, Agrees a ∧ a.machine.shared.connected = true ∧
    a.notifier.state.connected = true := by
  obtain ⟨a, hrun, hobs⟩ := Nek0.Lib.System.Run.exists_of_exec App.system
    (fun a e => keepsShowing a e = true) keepsShowing
    (attemptWith (.ready "server" ⟨1, [], []⟩) 3)
    (fun a => (a.machine.shared.connected, a.notifier.state.connected)) (fun _ _ h => h)
    (.start rfl) (a := (true, true)) rfl
  simp only [Prod.mk.injEq] at hobs
  exact ⟨a, agrees_of_run hrun, hobs.1, hobs.2⟩

/-- An identity-level notice ends the notifier's attempt and its timer, and the native side goes on
connecting. -/
theorem not_agrees : ¬ ∀ a : App, App.system.Reachable a → Agrees a := by
  intro hall
  obtain ⟨a, hreach, hobs⟩ := Nek0.Lib.System.Run.exists_of_exec App.system
    (fun _ _ => True) (fun _ _ => true) (attemptWith (.identityLevel "8") 1)
    (fun a => (active a.machine.shared, a.notifier.polling)) (fun _ _ _ => trivial) (.start rfl)
    (a := (true, false)) rfl
  simp only [Prod.mk.injEq] at hobs
  have hpolling := ((hall a hreach).shown hobs.1).1
  rw [hobs.2] at hpolling
  cases hpolling

end Nek0.Proofs.Dart
