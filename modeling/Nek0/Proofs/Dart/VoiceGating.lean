import Nek0.Dart.VoiceGate

/-!
# `Nek0.Proofs.Dart.VoiceGating`: the native voice gate follows the settings

The gate should be on if the detection is enabled and push-to-talk is off. `togglePttMode` looks
at both. But the `connected` event turns it on in any case, also when a setting was changed
offline, and `setVadEnabled` does not look at push-to-talk.

`gateAgrees_of_next` says for each step whether the gate agrees with the settings after it.
-/

set_option autoImplicit false

namespace Nek0.Proofs.Dart

open Nek0.Dart
open Nek0.Lib.System (Run)
open Nek0.Native (TsEvent)

/-- In a session the native side has what the settings say. -/
def GateAgrees (g : Gate) : Prop :=
  g.notifier.state.connected = true →
    g.nativeVadEnabled = (!g.notifier.state.pttMode && g.vadEnabled)

/-- A session is established while push-to-talk is off and the detection is enabled, and in a
session the detection is not enabled while push-to-talk is on. -/
def keepsGate (g : Gate) : Gate.Event → Bool
  | .notifier (.handle _) =>
    match g.notifier.inbox with
    | .connected _ _ :: _ => !g.notifier.state.pttMode && g.vadEnabled
    | _ => true
  | .setVadEnabled enabled =>
    !g.notifier.state.connected || !g.notifier.state.pttMode || !enabled
  | _ => true

variable {g g' : Gate}

/-- A step that touches neither the gate nor its settings, and establishes no session. -/
theorem GateAgrees.congr {n : Notifier} (h : GateAgrees g)
    (hconnected : n.state.connected = g.notifier.state.connected)
    (hptt : n.state.pttMode = g.notifier.state.pttMode) : GateAgrees { g with notifier := n } := by
  intro hc
  show g.nativeVadEnabled = (!n.state.pttMode && g.vadEnabled)
  rw [hptt]
  exact h (hconnected.symm.trans hc)

/-! ### What a step of the notifier does to the session and to push-to-talk -/

/-- An event of a batch other than the start and the end of a session. -/
theorem settings_handleEvent (n : Notifier) (started : Bool) (event : TsEvent)
    (hconnected : ∀ name id, event ≠ .connected name id)
    (hdisconnected : ∀ reason, event ≠ .disconnected reason) :
    (n.handleEvent started event).state.connected = n.state.connected ∧
      (n.handleEvent started event).state.pttMode = n.state.pttMode := by
  cases event
  case connected name id => exact absurd rfl (hconnected name id)
  case disconnected reason => exact absurd rfl (hdisconnected reason)
  case error =>
    show (n.onError).state.connected = _ ∧ (n.onError).state.pttMode = _
    unfold Notifier.onError
    split <;> exact ⟨rfl, rfl⟩
  all_goals exact ⟨rfl, rfl⟩

/-- A call other than `togglePttMode`. -/
theorem settings_step {n n' : Notifier} {e : Notifier.Event} (hnext : n.step e = some n')
    (hptt : e ≠ .togglePttMode) :
    n'.state.connected = n.state.connected ∧ n'.state.pttMode = n.state.pttMode := by
  cases e
  case togglePttMode => exact absurd rfl hptt
  case handle => cases hnext
  case connectReturned accepted =>
    simp only [Notifier.step, Option.ite_none_right_eq_some] at hnext
    cases hnext.2
    unfold Notifier.connectReturned
    split <;> exact ⟨rfl, rfl⟩
  case disconnect =>
    cases hnext
    split
    · simp [Notifier.disconnectReturned]
    · exact ⟨rfl, rfl⟩
  case poll events =>
    simp only [Notifier.step, Option.ite_none_right_eq_some] at hnext
    cases hnext.2
    exact ⟨rfl, rfl⟩
  case micAnswered service granted =>
    simp only [Notifier.step, Option.ite_none_right_eq_some] at hnext
    cases hnext.2
    exact ⟨rfl, rfl⟩
  case toggleAway =>
    cases hnext
    unfold Notifier.toggleAway
    split
    · exact ⟨rfl, rfl⟩
    · simp
  case permOp queued =>
    cases hnext
    unfold Notifier.permOp
    split
    · exact ⟨rfl, rfl⟩
    · dsimp only
      split <;> exact ⟨rfl, rfl⟩
  case setPttPressed pressed =>
    cases hnext
    simp [Notifier.setPttPressed]
  case toggleInputMute =>
    cases hnext
    simp [Notifier.toggleInputMute]
  case setAwayAndFullMute away muted =>
    cases hnext
    simp [Notifier.setAwayAndFullMute]
  -- The rest changes other parts of the state.
  all_goals
    cases hnext
    exact ⟨rfl, rfl⟩

/-! ### Steps -/

/-- The next event of the batch is handled. -/
theorem gateAgrees_handle {n : Notifier} {event : TsEvent} {rest : List TsEvent} (h : GateAgrees g)
    (hinbox : g.notifier.inbox = event :: rest) (started : Bool)
    (hn : n = ({ g.notifier with inbox := rest } : Notifier).handleEvent started event) :
    GateAgrees { g.handleEvent with notifier := n } ↔
      keepsGate g (.notifier (.handle started)) = true := by
  subst hn
  simp only [keepsGate, Gate.handleEvent, hinbox]
  cases event
  -- A new session enables the detection, whatever the settings say.
  case connected name id =>
    show (_ → true = _) ↔ _
    have hstate : (({ g.notifier with inbox := rest } : Notifier).onConnected started).state =
        { g.notifier.state with connecting := false, connected := true } :=
      Notifier.state_updateMicState _
    show ((Notifier.onConnected _ started).state.connected = true →
      true = (!(Notifier.onConnected _ started).state.pttMode && g.vadEnabled)) ↔ _
    rw [hstate]
    exact ⟨fun h => (h rfl).symm, fun h _ => h.symm⟩
  -- Without a session there is nothing to agree with.
  case disconnected reason =>
    refine iff_of_true ?_ rfl
    show GateAgrees { (if _ then _ else _ : Gate) with notifier := Notifier.onDisconnected _ }
    unfold Notifier.onDisconnected
    split
    · exact h.congr rfl rfl
    · exact fun hc => by cases hc
  all_goals
    refine iff_of_true ?_ rfl
    refine h.congr (settings_handleEvent _ started _ ?_ ?_).1
      (settings_handleEvent _ started _ ?_ ?_).2 <;> simp

/-- Toggling push-to-talk keeps the gate in agreement. -/
theorem gateAgrees_togglePttMode (g : Gate) :
    GateAgrees { g.togglePttMode with notifier := g.notifier.togglePttMode } := by
  intro _
  have hstate : g.notifier.togglePttMode.state =
      { g.notifier.state with pttMode := !g.notifier.state.pttMode } :=
    Notifier.state_updateMicState _
  show (g.togglePttMode).nativeVadEnabled =
    (!g.notifier.togglePttMode.state.pttMode && (g.togglePttMode).vadEnabled)
  rw [hstate]
  unfold Gate.togglePttMode
  cases g.notifier.state.pttMode <;> simp [Gate.tsSetVadEnabled]

/-- Switching the detection keeps it if and only if the call meets the condition. -/
theorem gateAgrees_setVadEnabled (g : Gate) (enabled : Bool) :
    GateAgrees (g.setVadEnabled enabled) ↔ keepsGate g (.setVadEnabled enabled) = true := by
  show (g.notifier.state.connected = true → enabled = (!g.notifier.state.pttMode && enabled)) ↔
    (!g.notifier.state.connected || !g.notifier.state.pttMode || !enabled) = true
  cases g.notifier.state.connected <;> cases g.notifier.state.pttMode <;> cases enabled <;> simp

/-- After a step the gate agrees with the settings iff the step meets the condition. -/
theorem gateAgrees_of_next {e : Gate.Event} (h : GateAgrees g) (hnext : Gate.next e g = some g') :
    GateAgrees g' ↔ keepsGate g e = true := by
  cases e with
  | setVadEnabled enabled =>
      simp only [Gate.next, Option.ite_none_right_eq_some] at hnext
      cases hnext.2
      exact gateAgrees_setVadEnabled g enabled
  | notifier e =>
      obtain ⟨n, hn, rfl⟩ := Option.map_eq_some_iff.mp hnext
      unfold Notifier.next at hn
      cases hinbox : g.notifier.inbox with
      -- A batch is being handled.
      | cons event rest =>
          rw [hinbox] at hn
          cases e
          case handle started =>
            cases hn
            exact gateAgrees_handle h hinbox started rfl
          all_goals cases hn
      | nil =>
          rw [hinbox] at hn
          -- Among the calls only `togglePttMode` tells the encoder something.
          by_cases hptt : e = .togglePttMode
          · subst hptt
            cases hn
            exact iff_of_true (gateAgrees_togglePttMode g) rfl
          · have hsettings := settings_step hn hptt
            have hgate : g.onEvent e = g := by
              cases e <;> first | rfl | exact absurd rfl hptt | cases hn
            have hkeeps : keepsGate g (.notifier e) = true := by
              cases e <;> first | rfl | cases hn
            rw [hgate]
            exact iff_of_true (h.congr hsettings.1 hsettings.2) hkeeps

/-- In a run that meets the condition the native side has what the settings say. The next step
keeps this iff it meets the condition. -/
theorem gateAgrees_of_run (hrun : Gate.system.Run (fun g e => keepsGate g e = true) g) :
    GateAgrees g ∧ ∀ e g', Gate.next e g = some g' → (GateAgrees g' ↔ keepsGate g e = true) := by
  have h : GateAgrees g := by
    refine Run.invariant (P := GateAgrees) ?_ ?_ hrun
    · rintro g rfl
      exact nofun
    · exact fun g g' e h hok hnext => (gateAgrees_of_next h hnext).mpr hok
  exact ⟨h, fun e g' hnext => gateAgrees_of_next h hnext⟩

/-- A session is established. -/
def establishes : List Gate.Event :=
  [.notifier .connect, .notifier (.connectReturned true), .notifier (.poll [.connected "server" 1]),
    .notifier (.handle true)]

/-- Push-to-talk is turned on and off in a session without detection. -/
theorem gateAgrees_pushToTalk : ∃ g : Gate, g.notifier.state.connected = true ∧
    g.nativeVadEnabled = false ∧ GateAgrees g := by
  obtain ⟨g, hrun, hview⟩ := Run.exists_of_exec Gate.system _ keepsGate
    (establishes ++ [.setVadEnabled false, .notifier .togglePttMode, .notifier .togglePttMode])
    (fun g => (g.notifier.state.connected, g.nativeVadEnabled)) (fun _ _ h => h)
    (s := .initial) (.start rfl) (a := (true, false)) rfl
  simp only [Prod.mk.injEq] at hview
  exact ⟨g, hview.1, hview.2, (gateAgrees_of_run hrun).1⟩

/-- Push-to-talk is turned on offline, and then a session is established. -/
theorem not_gateAgrees : ∃ g : Gate, Gate.system.Reachable g ∧ ¬ GateAgrees g := by
  obtain ⟨g, hrun, hview⟩ := Run.exists_of_exec Gate.system (fun _ _ => True) (fun _ _ => true)
    (.notifier .togglePttMode :: establishes)
    (fun g => (g.notifier.state.connected, g.notifier.state.pttMode, g.nativeVadEnabled))
    (fun _ _ _ => trivial) (s := .initial) (.start rfl) (a := (true, true, true)) rfl
  simp only [Prod.mk.injEq] at hview
  obtain ⟨hconnected, hptt, hnative⟩ := hview
  refine ⟨g, hrun, fun h => ?_⟩
  have hagrees := h hconnected
  rw [hptt, hnative] at hagrees
  cases hagrees

end Nek0.Proofs.Dart
