import Nek0.Dart.Notifier

/-!
# `Nek0.Dart.VoiceGate`: the voice gate and its settings

`vadEnabled` of `TsConnectionState` (`lib/models/ts_state.dart`), and `vad_enabled` of the native
side, which `ts_set_vad_enabled` (`native/src/api.rs`) writes. The `connected` event,
`togglePttMode` and `setVadEnabled` write it. The end of a session resets the settings, but not the
native side.

`Gate` adds the two fields to the notifier. Left out: the threshold.
-/

set_option autoImplicit false

namespace Nek0.Dart

open Nek0.Lib (System)

/-- The notifier with the voice gate. -/
structure Gate where
  notifier : Notifier
  vadEnabled : Bool
  nativeVadEnabled : Bool

namespace Gate

/-- `build`, and `STATE` as it is made. -/
def initial : Gate where
  notifier := .initial
  vadEnabled := true
  nativeVadEnabled := false

/-- `ts_set_vad_enabled`. -/
def tsSetVadEnabled (g : Gate) (enabled : Bool) : Gate := { g with nativeVadEnabled := enabled }

/-- `setVadEnabled`. -/
def setVadEnabled (g : Gate) (enabled : Bool) : Gate :=
  { g with vadEnabled := enabled }.tsSetVadEnabled enabled

/-- What `togglePttMode` asks of the native side. -/
def togglePttMode (g : Gate) : Gate :=
  let newPtt := !g.notifier.state.pttMode
  if newPtt then g.tsSetVadEnabled false else g.tsSetVadEnabled g.vadEnabled

/-- What the next event of the batch does to the gate. -/
def handleEvent (g : Gate) : Gate :=
  match g.notifier.inbox with
  | .connected _ _ :: _ => g.tsSetVadEnabled true
  | .disconnected _ :: _ =>
    if g.notifier.state.connecting then g else { g with vadEnabled := true }
  | _ => g

/-- What can happen on the isolate. -/
inductive Event where
  | notifier (e : Notifier.Event)
  | setVadEnabled (enabled : Bool)
  deriving DecidableEq, Repr

/-- What an event does to the gate. -/
def onEvent (g : Gate) : Notifier.Event → Gate
  | .handle _ => g.handleEvent
  | .togglePttMode => g.togglePttMode
  | _ => g

/-- What an event does. -/
def next (e : Event) (g : Gate) : Option Gate :=
  match e with
  | .notifier e => (Notifier.next e g.notifier).map fun n => { g.onEvent e with notifier := n }
  | .setVadEnabled enabled =>
    if g.notifier.inbox.isEmpty then some (g.setVadEnabled enabled) else none

/-- The notifier with the voice gate over time. -/
def system : System Gate Event where
  init := (· = initial)
  next := next

end Gate

end Nek0.Dart
