import Nek0.Dart.Notifier
import Nek0.Lib.Observer

/-!
# `Nek0.Proofs.Dart.AwayRestore`: what leaving the away state restores

`toggleAway` saves `inputMuted` when it enters the away state, and restores it when it leaves. But
`setAwayAndFullMute` saves it whenever it is called, also when the state is away already. Then what
it saves is the value that the away state has set.

`AwayRecord` is what a run has said about the away state: `before` is `inputMuted` immediately
before the state was entered, as long as nobody toggles the mute, and `again` is `inputMuted` at the
last `setAwayAndFullMute(true, _)` since then. `saved_of_run` says what is saved, and `restores_iff`
when it is the right value.
-/

set_option autoImplicit false

namespace Nek0.Proofs.Dart

open Nek0.Dart
open Nek0.Lib (Observer System)
open Nek0.Lib.System (Run)
open Nek0.Native (TsEvent)

/-- What a run has said about the away state. -/
structure AwayRecord where
  before : Option Bool
  again : Option Bool
  deriving DecidableEq, Repr

namespace AwayRecord

/-- Nothing is known. -/
def unknown : AwayRecord := ⟨none, none⟩

/-- Keeps the record. The state is left at the end of a session too. -/
def observer : Observer Notifier Notifier.Event AwayRecord where
  start := unknown
  see e n m :=
    match n.inbox, e with
    | .disconnected _ :: _, _ => if n.state.connecting then m else unknown
    | _ :: _, _ => m
    | [], .toggleAway =>
      if !n.state.connected then m
      else if n.state.away then unknown
      else { before := some n.state.inputMuted, again := none }
    | [], .setAwayAndFullMute away _ =>
      if !away then unknown
      else if n.state.away then { m with again := some n.state.inputMuted }
      else { before := some n.state.inputMuted, again := none }
    | [], .toggleInputMute => unknown
    | [], _ => m

end AwayRecord

/-- The notifier with the record. -/
abbrev awaySystem : System (Notifier × AwayRecord) Notifier.Event :=
  Notifier.system.observed AwayRecord.observer

/-- What is saved while away: the value before, or the one at the last `setAwayAndFullMute`. -/
def Saved (p : Notifier × AwayRecord) : Prop :=
  p.1.state.away = true → ∀ v, p.2.before = some v → p.1.inputMutedBeforeAway = p.2.again.getD v

variable {n n' : Notifier} {m : AwayRecord} {v : Bool}

/-- A step that touches neither the away state nor what is saved. -/
theorem Saved.congr (h : Saved (n, m)) (haway : n'.state.away = n.state.away)
    (hsaved : n'.inputMutedBeforeAway = n.inputMutedBeforeAway) : Saved (n', m) := by
  intro haway' v hv
  rw [hsaved]
  exact h (haway.symm.trans haway') v hv

/-- Nothing is said without a record. -/
theorem saved_unknown (n : Notifier) : Saved (n, .unknown) := fun _ _ => nofun

/-- `toggleAway` keeps the record in step with what is saved. -/
theorem saved_toggleAway (h : Saved (n, m)) :
    Saved (n.toggleAway, if !n.state.connected then m else if n.state.away then .unknown
      else { before := some n.state.inputMuted, again := none }) := by
  unfold Notifier.toggleAway
  split
  · exact h
  · split
    · exact saved_unknown _
    · next haway =>
      -- The state is entered, and its value before is saved.
      intro _ v hv
      simp [haway, ← Option.some.inj hv]

/-- `setAwayAndFullMute` does as well. -/
theorem saved_setAwayAndFullMute (away muted : Bool) :
    Saved (n.setAwayAndFullMute away muted, if !away then .unknown
      else if n.state.away then { m with again := some n.state.inputMuted }
      else { before := some n.state.inputMuted, again := none }) := by
  unfold Notifier.setAwayAndFullMute
  split
  · exact saved_unknown _
  · split
    · intro _ v _
      simp
    · intro _ v hv
      simp [← Option.some.inj hv]

/-- An event of a batch: only the end of the session leaves the away state. -/
theorem saved_handleEvent (h : Saved (n, m)) (event : TsEvent) (started : Bool)
    (hevent : ∀ reason, event ≠ .disconnected reason) : Saved (n.handleEvent started event, m) := by
  cases event with
  | disconnected reason => exact absurd rfl (hevent reason)
  | connected _ _ =>
      show Saved (n.onConnected started, m)
      refine h.congr ?_ (Notifier.inputMutedBeforeAway_updateMicState _)
      rw [Notifier.onConnected, Notifier.state_updateMicState]
  | error _ =>
      show Saved (n.onError, m)
      unfold Notifier.onError
      split
      · exact h.congr rfl rfl
      · exact h
  | _ => exact h.congr rfl rfl

/-- So does every step of the notifier. -/
theorem saved_of_next {p p' : Notifier × AwayRecord} {e : Notifier.Event} (h : Saved p)
    (hnext : awaySystem.next e p = some p') : Saved p' := by
  obtain ⟨n, m⟩ := p
  obtain ⟨n', m'⟩ := p'
  obtain ⟨hstep, hsee⟩ := System.next_observed hnext
  change Notifier.next e n = some n' at hstep
  change m' = AwayRecord.observer.see e n m at hsee
  rw [hsee]
  unfold Notifier.next at hstep
  cases hinbox : n.inbox with
  -- A batch is being handled. Only the end of the session touches what is saved.
  | cons event rest =>
      rw [hinbox] at hstep
      cases e
      case handle started =>
        cases hstep
        by_cases hdisconnected : ∃ reason, event = .disconnected reason
        · obtain ⟨reason, rfl⟩ := hdisconnected
          simp only [AwayRecord.observer, hinbox]
          show Saved (Notifier.onDisconnected _, _)
          unfold Notifier.onDisconnected
          split
          · exact h.congr rfl rfl
          · exact saved_unknown _
        · have hsame : AwayRecord.observer.see (.handle started) n m = m := by
            simp only [AwayRecord.observer, hinbox]
            cases event <;> first | rfl | exact absurd ⟨_, rfl⟩ hdisconnected
          rw [hsame]
          exact saved_handleEvent (n := { n with inbox := rest }) (h.congr rfl rfl) event started
            fun reason heq => hdisconnected ⟨reason, heq⟩
      all_goals cases hstep
  | nil =>
      -- No batch is open, and the user or a timer acts.
      rw [hinbox] at hstep
      cases e
      case toggleAway =>
        cases hstep
        simp only [AwayRecord.observer, hinbox]
        exact saved_toggleAway h
      case setAwayAndFullMute away muted =>
        cases hstep
        simp only [AwayRecord.observer, hinbox]
        exact saved_setAwayAndFullMute away muted
      case toggleInputMute =>
        simp only [AwayRecord.observer, hinbox]
        exact saved_unknown _
      case disconnect =>
        simp only [AwayRecord.observer, hinbox]
        cases hstep
        split
        · exact h.congr (by simp [Notifier.disconnectReturned])
            (by simp [Notifier.disconnectReturned])
        · exact h
      case connectReturned accepted =>
        simp only [AwayRecord.observer, hinbox]
        simp only [Notifier.step, Option.ite_none_right_eq_some] at hstep
        cases hstep.2
        unfold Notifier.connectReturned
        split <;> exact h.congr rfl rfl
      case permOp queued =>
        simp only [AwayRecord.observer, hinbox]
        cases hstep
        unfold Notifier.permOp
        split
        · exact h
        · dsimp only
          split <;> exact h.congr rfl rfl
      case poll events =>
        simp only [AwayRecord.observer, hinbox]
        simp only [Notifier.step, Option.ite_none_right_eq_some] at hstep
        cases hstep.2
        exact h.congr rfl rfl
      case micAnswered service granted =>
        simp only [AwayRecord.observer, hinbox]
        simp only [Notifier.step, Option.ite_none_right_eq_some] at hstep
        cases hstep.2
        exact h.congr rfl rfl
      case handle => cases hstep
      case togglePttMode =>
        simp only [AwayRecord.observer, hinbox]
        cases hstep
        refine h.congr ?_ (Notifier.inputMutedBeforeAway_updateMicState _)
        rw [Notifier.togglePttMode, Notifier.state_updateMicState]
      case setPttPressed pressed =>
        simp only [AwayRecord.observer, hinbox]
        cases hstep
        refine h.congr ?_ (Notifier.inputMutedBeforeAway_updateMicState _)
        rw [Notifier.setPttPressed, Notifier.state_updateMicState]
      all_goals
        simp only [AwayRecord.observer, hinbox]
        cases hstep
        exact h.congr rfl rfl

/-- The record is in step in every state that the notifier reaches. -/
theorem saved_of_run {p : Notifier × AwayRecord} (hrun : awaySystem.Reachable p) : Saved p := by
  refine Run.invariant (P := Saved) ?_ (fun p p' e h _ hnext => saved_of_next h hnext) hrun
  rintro ⟨n, m⟩ ⟨-, hm⟩
  cases hm
  exact saved_unknown n

/-- When `toggleAway` leaves the away state, `inputMuted` becomes what it was immediately before the
state was entered, iff `setAwayAndFullMute(true, _)` was not called again, or `inputMuted` had that
value at the last such call. -/
theorem restores_iff (hrun : awaySystem.Reachable (n, m)) (hconnected : n.state.connected = true)
    (haway : n.state.away = true) (hbefore : m.before = some v) :
    n.toggleAway.state.away = false ∧
      (n.toggleAway.state.inputMuted = v ↔ m.again = none ∨ m.again = some v) := by
  have hsaved : n.inputMutedBeforeAway = m.again.getD v := saved_of_run hrun haway v hbefore
  have hleft : n.toggleAway.state =
      { n.state with away := false, inputMuted := n.inputMutedBeforeAway } := by
    unfold Notifier.toggleAway
    rw [hconnected, haway]
    exact Notifier.state_updateMicState _
  rw [hleft, hsaved]
  refine ⟨rfl, ?_⟩
  cases m.again with
  | none => simp
  | some w => simp

/-- The session starts, and the away state is entered. -/
def goesAway : List Notifier.Event :=
  [.connect, .connectReturned true, .poll [.connected "server" 1], .handle true, .toggleAway]

/-- Away and back with the switch alone. -/
theorem restores_switch : ∃ n : Notifier, n.state.away = true ∧
    n.toggleAway.state.inputMuted = false := by
  obtain ⟨p, hrun, hview⟩ := Run.exists_of_exec awaySystem (fun _ _ => True) (fun _ _ => true)
    goesAway (fun p => (p.1.state.connected, p.1.state.away, p.2)) (fun _ _ _ => trivial)
    (s := (.initial, .unknown)) (.start ⟨rfl, rfl⟩) (a := (true, true, ⟨some false, none⟩)) rfl
  obtain ⟨n, m⟩ := p
  simp only [Prod.mk.injEq] at hview
  obtain ⟨hconnected, haway, rfl⟩ := hview
  exact ⟨n, haway, (restores_iff hrun hconnected haway rfl).2.mpr (.inl rfl)⟩

/-- While we are away, the media card pauses: it saves that we are muted. Back from away we stay
muted. -/
theorem not_restores : ¬ ∀ (n : Notifier) (m : AwayRecord) (v : Bool),
    awaySystem.Reachable (n, m) → n.state.connected = true → n.state.away = true →
      m.before = some v → n.toggleAway.state.inputMuted = v := by
  intro hall
  obtain ⟨p, hrun, hview⟩ := Run.exists_of_exec awaySystem (fun _ _ => True) (fun _ _ => true)
    (goesAway ++ [.setAwayAndFullMute true true])
    (fun p => (p.1.state.connected, p.1.state.away, p.2, p.1.toggleAway.state.inputMuted))
    (fun _ _ _ => trivial) (s := (.initial, .unknown)) (.start ⟨rfl, rfl⟩)
    (a := (true, true, ⟨some false, some true⟩, true)) rfl
  obtain ⟨n, m⟩ := p
  simp only [Prod.mk.injEq] at hview
  obtain ⟨hconnected, haway, rfl, hmuted⟩ := hview
  exact absurd (hmuted.symm.trans (hall n _ false hrun hconnected haway rfl)) (by decide)

end Nek0.Proofs.Dart
