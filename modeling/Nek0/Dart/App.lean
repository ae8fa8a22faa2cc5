import Nek0.Dart.Notifier
import Nek0.Native.Machine

/-!
# `Nek0.Dart.App`: the notifier and the native side together

`connect` calls `ts_connect`, the poll timer calls `ts_poll_events`, and `disconnect` calls
`ts_disconnect`. The first two return at once, so they belong to the isolate's step. `ts_disconnect`
has more than one step, and the isolate waits for it while the threads of the native side go on.

The other calls come from the outside of the native side, at any time.
-/

set_option autoImplicit false

namespace Nek0.Dart

open Nek0.Lib (System)
open Nek0.Native

/-- What the specifications talk about. -/
structure AppHistory where
  /-- The last `connected` or `disconnected` event that was handled was a `disconnected` one. -/
  ended : Bool
  /-- `disconnect` has called the native side since `ts_connect` last accepted a call. -/
  requested : Bool
  /-- A `connected` event was handled after that call. -/
  connectedSince : Bool
  deriving DecidableEq, Repr

/-- The record of an event that is handled. -/
def AppHistory.handle (h : AppHistory) : TsEvent → AppHistory
  | .connected _ _ =>
      { h with ended := false, connectedSince := h.connectedSince || h.requested }
  | .disconnected _ => { h with ended := true }
  | _ => h

/-- The notifier and the native side. `asking` is the thread of the `ts_disconnect` call that the
isolate waits for. -/
structure App where
  notifier : Notifier
  machine : Machine
  asking : Option Nat
  history : AppHistory

/-- The calls that only the notifier makes. -/
def ofNotifier : NativeLabel → Bool
  | .env (.call .tsConnect) => true
  | .env (.call .tsDisconnect) => true
  | .env (.call .tsPollEvents) => true
  | _ => false

/-- A call that returns at once. -/
def callAtOnce (c : Call) (P : Machine) : Option Machine :=
  (native.next (.env (.call c)) P).bind (native.next (.run P.threads.length .go))

/-- What can happen. -/
inductive AppEvent where
  /-- The native side takes a step. -/
  | native (label : NativeLabel)
  /-- `connect` goes on and calls `ts_connect`. -/
  | connectReturned
  /-- `_pollEvents` calls `ts_poll_events`. -/
  | poll
  /-- `disconnect` calls `ts_disconnect`. -/
  | disconnect
  /-- `ts_disconnect` has returned. -/
  | disconnectReturned
  /-- Anything else on the isolate. -/
  | notifier (e : Notifier.Event)
  deriving DecidableEq, Repr

namespace App

/-- Program start. -/
def initial : App where
  notifier := .initial
  machine := ⟨.initial, []⟩
  asking := none
  history := ⟨false, false, false⟩

/-- `ts_connect` accepts a call. -/
def accepts (a : App) : Bool := !(a.machine.shared.connecting || a.machine.shared.connected)

/-- `connect` goes on. -/
def connectReturned (a : App) : Option App :=
  (Notifier.next (.connectReturned a.accepts) a.notifier).bind fun n =>
    (callAtOnce .tsConnect a.machine).map fun P =>
      { a with
          notifier := n
          machine := P
          history := if a.accepts then
              { a.history with requested := false, connectedSince := false }
            else a.history }

/-- The poll timer fires. -/
def poll (a : App) : Option App :=
  (Notifier.next (.poll a.machine.shared.pendingEvents) a.notifier).bind fun n =>
    (callAtOnce .tsPollEvents a.machine).map fun P => { a with notifier := n, machine := P }

/-- `disconnect` is called. -/
def disconnect (a : App) : Option App :=
  if a.notifier.inbox ≠ [] then none
  else if a.notifier.asksDisconnect then
    (native.next (.env (.call .tsDisconnect)) a.machine).map fun P =>
      { a with
          machine := P
          asking := some a.machine.threads.length
          history := { a.history with requested := true } }
  else some a

/-- `ts_disconnect` has returned. -/
def disconnectReturned (a : App) : Option App :=
  match a.asking with
  | none => none
  | some i =>
    match a.machine.threads[i]? with
    | some ⟨_, []⟩ => some { a with notifier := a.notifier.disconnectReturned, asking := none }
    | _ => none

/-- Another event on the isolate. -/
def notify (a : App) (e : Notifier.Event) : Option App :=
  match e with
  | .connectReturned _ => none
  | .poll _ => none
  | .disconnect => none
  | .handle started =>
    match a.notifier.inbox with
    | [] => none
    | event :: _ =>
      (Notifier.next (.handle started) a.notifier).map fun n =>
        { a with notifier := n, history := a.history.handle event }
  | e => (Notifier.next e a.notifier).map fun n => { a with notifier := n }

/-- What an event does. While `ts_disconnect` runs, nothing happens on the isolate. -/
def next (e : AppEvent) (a : App) : Option App :=
  match e with
  | .native label =>
    if ofNotifier label then none
    else (native.next label a.machine).map fun P => { a with machine := P }
  | .disconnectReturned => a.disconnectReturned
  | .connectReturned => if a.asking.isSome then none else a.connectReturned
  | .poll => if a.asking.isSome then none else a.poll
  | .disconnect => if a.asking.isSome then none else a.disconnect
  | .notifier e => if a.asking.isSome then none else a.notify e

/-- The app over time, from program start. -/
def system : System App AppEvent where
  init := (· = initial)
  next := next

end App

end Nek0.Dart
