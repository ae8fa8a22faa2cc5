import Nek0.Dart.AudioService
import Nek0.Dart.FtTransferService
import Nek0.Lib.System

/-!
# `Nek0.Dart.Notifier`: `TsConnectionNotifier`

`lib/models/ts_state.dart`, as far as the session, the microphone and the pending operations go. The
methods are cut at their `await`s. All of them run on one isolate, so each part is one step.

`_pollEvents` takes all events from the native side at once and then handles one after the other.
`inbox` holds the events of the batch that are still to be handled. Nothing else happens on the
isolate until it is empty.

Left out: the roster, the chat, the notification and the settings.
-/

set_option autoImplicit false

namespace Nek0.Dart

open Nek0.Lib (System Table)
open Nek0.Native (TsEvent)

/-- `TsConnectionState`. -/
structure TsConnectionState where
  connected : Bool
  connecting : Bool
  inputMuted : Bool
  outputMuted : Bool
  away : Bool
  pttMode : Bool
  pttPressed : Bool
  deriving DecidableEq, Repr

/-- `const TsConnectionState()`. -/
def TsConnectionState.initial : TsConnectionState :=
  ⟨false, false, false, false, false, false, false⟩

/-- `TsConnectionNotifier`. `polling` tells that `_pollTimer` runs, and `connects` counts the
`connect` calls that wait for the preferences. -/
structure Notifier where
  state : TsConnectionState
  polling : Bool
  connects : Nat
  inbox : List TsEvent
  audio : AudioServices
  audioService : Option Nat
  micEnabled : Bool
  micGranted : Bool
  inputMutedBeforeAway : Bool
  permSeq : Nat
  permCompleters : Table String Completer
  transfers : FtTransferService

namespace Notifier

/-- `build`. -/
def initial : Notifier where
  state := .initial
  polling := false
  connects := 0
  inbox := []
  audio := .none
  audioService := none
  micEnabled := false
  micGranted := false
  inputMutedBeforeAway := false
  permSeq := 0
  permCompleters := ∅
  transfers := .initial

/-! ### The microphone -/

/-- `_shouldMicBeActive`. -/
def shouldMicBeActive (n : Notifier) : Bool :=
  if n.state.away then false
  else if n.state.pttMode then n.state.pttPressed
  else !n.state.inputMuted

/-- `_updateMicState`. -/
def updateMicState (n : Notifier) : Notifier :=
  match n.audioService with
  | none => n
  | some service =>
    let should := n.shouldMicBeActive
    if should && !n.micEnabled then
      { n with audio := n.audio.enableMic service, micEnabled := true }
    else if !should && n.micEnabled then
      { n with audio := n.audio.disableMic service, micEnabled := false, micGranted := false }
    else n

/-- `updateMicState` leaves what the screens show alone. -/
@[simp]
theorem state_updateMicState (n : Notifier) : n.updateMicState.state = n.state := by
  unfold updateMicState
  split
  · rfl
  · dsimp only
    split
    · rfl
    · split <;> rfl

/-- And it leaves alone what going away has saved. -/
@[simp]
theorem inputMutedBeforeAway_updateMicState (n : Notifier) :
    n.updateMicState.inputMutedBeforeAway = n.inputMutedBeforeAway := by
  unfold updateMicState
  split
  · rfl
  · dsimp only
    split
    · rfl
    · split <;> rfl

/-- `enableMic` goes on, and then its `then` of `_updateMicState`. -/
def micAnswered (n : Notifier) (service : Nat) (granted : Bool) : Notifier :=
  { n with
      audio := n.audio.answer service granted
      micGranted := n.micGranted || granted }

/-- `togglePttMode`. -/
def togglePttMode (n : Notifier) : Notifier :=
  { n with state := { n.state with pttMode := !n.state.pttMode } }.updateMicState

/-- `setPttPressed`. -/
def setPttPressed (n : Notifier) (pressed : Bool) : Notifier :=
  { n with state := { n.state with pttPressed := pressed } }.updateMicState

/-- `toggleInputMute`. -/
def toggleInputMute (n : Notifier) : Notifier :=
  { n with state := { n.state with inputMuted := !n.state.inputMuted } }.updateMicState

/-- `toggleOutputMute`. -/
def toggleOutputMute (n : Notifier) : Notifier :=
  { n with state := { n.state with outputMuted := !n.state.outputMuted } }

/-- `setAwayAndFullMute`. -/
def setAwayAndFullMute (n : Notifier) (away muted : Bool) : Notifier :=
  { n with
      inputMutedBeforeAway := n.state.inputMuted
      state := { n.state with away := away, inputMuted := muted, outputMuted := muted } }
    |>.updateMicState

/-- `toggleAway`. -/
def toggleAway (n : Notifier) : Notifier :=
  if !n.state.connected then n
  else
    let newAway := !n.state.away
    { n with
        inputMutedBeforeAway := if newAway then n.state.inputMuted else n.inputMutedBeforeAway
        state := { n.state with
          away := newAway
          inputMuted := if newAway then true else n.inputMutedBeforeAway } }
      |>.updateMicState

/-! ### The session -/

/-- `connect`, up to the preferences. -/
def connect (n : Notifier) : Notifier :=
  { n with state := { n.state with connecting := true }, connects := n.connects + 1 }

/-- `connect` goes on: `ts_connect` has accepted the call or not. -/
def connectReturned (n : Notifier) (accepted : Bool) : Notifier :=
  if accepted then { n with connects := n.connects - 1, polling := true }
  else
    { n with connects := n.connects - 1, state := { n.state with connecting := false } }

/-- `_audioService?.stop()` and `_audioService = null`. -/
def stopAudio (n : Notifier) : Notifier :=
  match n.audioService with
  | none => n
  | some service => { n with audio := n.audio.stop service, audioService := none }

@[simp]
theorem state_stopAudio (n : Notifier) : n.stopAudio.state = n.state := by
  unfold stopAudio
  split <;> rfl

@[simp]
theorem inputMutedBeforeAway_stopAudio (n : Notifier) :
    n.stopAudio.inputMutedBeforeAway = n.inputMutedBeforeAway := by
  unfold stopAudio
  split <;> rfl

/-- `disconnect` asks the native side. -/
def asksDisconnect (n : Notifier) : Bool := n.state.connected || n.state.connecting

/-- `disconnect`, after the native side was asked. -/
def disconnectReturned (n : Notifier) : Notifier :=
  let n := n.stopAudio
  { n with micEnabled := false, state := { n.state with connecting := false } }

/-- The `connected` event. `started` is the result of `TsNative.startAudio`. -/
def onConnected (n : Notifier) (started : Bool) : Notifier :=
  { n with
      state := { n.state with connecting := false, connected := true }
      audio := n.audio.create.start n.audio.created started
      audioService := some n.audio.created }
    |>.updateMicState

/-- The `disconnected` event: a stale one of the session before is ignored. Every pending permission
operation is completed and forgotten. -/
def onDisconnected (n : Notifier) : Notifier :=
  if n.state.connecting then n
  else { n.stopAudio with polling := false, permCompleters := ∅, state := .initial }

/-- The `error` event. -/
def onError (n : Notifier) : Notifier :=
  if n.state.connecting then
    { n with state := { n.state with connecting := false }, polling := false }
  else n

/-- `_handleEvent`. -/
def handleEvent (n : Notifier) (started : Bool) : TsEvent → Notifier
  | .connected _ _ => n.onConnected started
  | .disconnected _ => n.onDisconnected
  | .error _ => n.onError
  | .ftListing token entries error =>
      { n with transfers := n.transfers.handleEvent (.ftListing token entries error) }
  | .ftStarted id kind name total =>
      { n with transfers := n.transfers.handleEvent (.ftStarted id kind name total) }
  | .ftProgress id transferred =>
      { n with transfers := n.transfers.handleEvent (.ftProgress id transferred) }
  | .ftDone id ok transferred error =>
      { n with transfers := n.transfers.handleEvent (.ftDone id ok transferred error) }
  | .ftOp token ok error =>
      { n with transfers := n.transfers.handleEvent (.ftOp token ok error) }
  | .permOp token _ _ => { n with permCompleters := n.permCompleters.erase token }
  | _ => n

/-! ### Permission operations -/

/-- `_permOp`, up to its `await`. -/
def permOp (n : Notifier) (queued : Bool) : Notifier :=
  if !n.state.connected then n
  else
    let n := { n with permSeq := n.permSeq + 1 }
    if queued then
      { n with
          permCompleters := n.permCompleters.insert ("perm_" ++ toString (n.permSeq - 1)) ⟨false⟩ }
    else n

/-- The server did not answer within 8 s. -/
def permTimeout (n : Notifier) (token : String) : Notifier :=
  { n with permCompleters := n.permCompleters.erase token }

/-! ### Steps -/

/-- What can happen on the isolate. -/
inductive Event where
  | connect
  | connectReturned (accepted : Bool)
  | disconnect
  | poll (events : List TsEvent)
  | handle (started : Bool)
  | togglePttMode
  | setPttPressed (pressed : Bool)
  | toggleInputMute
  | toggleOutputMute
  | toggleAway
  | setAwayAndFullMute (away muted : Bool)
  | micAnswered (service : Nat) (granted : Bool)
  | permOp (queued : Bool)
  | permTimeout (token : String)
  | transfers (c : FtTransferService.Call)
  deriving DecidableEq, Repr

/-- What an event does on an isolate that is handling no batch. -/
def step (n : Notifier) : Event → Option Notifier
  | .connect => some n.connect
  | .connectReturned accepted => if 0 < n.connects then some (n.connectReturned accepted) else none
  | .disconnect => some (if n.asksDisconnect then n.disconnectReturned else n)
  | .poll events => if n.polling then some { n with inbox := events } else none
  | .handle _ => none
  | .togglePttMode => some n.togglePttMode
  | .setPttPressed pressed => some (n.setPttPressed pressed)
  | .toggleInputMute => some n.toggleInputMute
  | .toggleOutputMute => some n.toggleOutputMute
  | .toggleAway => some n.toggleAway
  | .setAwayAndFullMute away muted => some (n.setAwayAndFullMute away muted)
  | .micAnswered service granted =>
      if service ∈ n.audio.requests then some (n.micAnswered service granted) else none
  | .permOp queued => some (n.permOp queued)
  | .permTimeout token => some (n.permTimeout token)
  | .transfers c => some { n with transfers := n.transfers.call c }

/-- What an event does. -/
def next (e : Event) (n : Notifier) : Option Notifier :=
  match n.inbox with
  | [] => n.step e
  | event :: rest =>
    match e with
    | .handle started => some ({ n with inbox := rest }.handleEvent started event)
    | _ => none

/-- The notifier over time. The native side may give any events. -/
def system : System Notifier Event where
  init := (· = initial)
  next := next

end Notifier

end Nek0.Dart
