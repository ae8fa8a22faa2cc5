import Mathlib

/-!
# `Nek0.Dart.AudioService`: the microphone objects

`lib/services/audio_service.dart`. The notifier makes a new `AudioService` for each session. The
objects are numbered and stay, because a permission request can be answered after its object was
dropped. A subscription to the microphone is numbered too. It is live from its `listen` until its
`cancel`.

Left out: the samples.
-/

set_option autoImplicit false

namespace Nek0.Dart

/-- An `AudioService`: `_running`, and the subscription that `_micSubscription` refers to. -/
structure AudioService where
  running : Bool
  micSubscription : Option Nat
  deriving DecidableEq, Repr

/-- All `AudioService` objects. `created` objects exist, and `listens` subscriptions were made, of
which `live` are not cancelled. `requests` are the objects whose `enableMic` waits for the
permission, and `granted` is what the last request was answered. -/
structure AudioServices where
  objects : Nat → AudioService
  created : Nat
  listens : Nat
  live : List Nat
  requests : List Nat
  granted : Bool

namespace AudioServices

/-- No object was made yet. -/
def none : AudioServices where
  objects := fun _ => ⟨false, .none⟩
  created := 0
  listens := 0
  live := []
  requests := []
  granted := false

/-- Replaces an object. -/
def set (a : AudioServices) (service : Nat) (o : AudioService) : AudioServices :=
  { a with objects := Function.update a.objects service o }

/-- `AudioService()`. The new object has the number `created`. -/
def create (a : AudioServices) : AudioServices :=
  { a.set a.created ⟨false, .none⟩ with created := a.created + 1 }

/-- `start`. `started` is the result of `TsNative.startAudio`. -/
def start (a : AudioServices) (service : Nat) (started : Bool) : AudioServices :=
  let o := a.objects service
  if o.running then a
  else if started then a.set service { o with running := true }
  else a

/-- `_startMic`. -/
def startMic (a : AudioServices) (service : Nat) : AudioServices :=
  { a.set service { a.objects service with micSubscription := some a.listens } with
      listens := a.listens + 1
      live := a.live ++ [a.listens] }

/-- `_stopMic`. -/
def stopMic (a : AudioServices) (service : Nat) : AudioServices :=
  let o := a.objects service
  match o.micSubscription with
  | .none => a
  | some subscription =>
    { a.set service { o with micSubscription := .none } with live := a.live.erase subscription }

/-- `enableMic`, up to its first `await`. -/
def enableMic (a : AudioServices) (service : Nat) : AudioServices :=
  { a with requests := a.requests ++ [service] }

/-- `enableMic` goes on: the request was granted, or it was denied or failed. -/
def answer (a : AudioServices) (service : Nat) (granted : Bool) : AudioServices :=
  let a := { a with requests := a.requests.erase service, granted := granted }
  if granted then a.startMic service else a

/-- `disableMic`. -/
def disableMic (a : AudioServices) (service : Nat) : AudioServices := a.stopMic service

/-- `stop`. -/
def stop (a : AudioServices) (service : Nat) : AudioServices :=
  let o := a.objects service
  if o.running then (a.set service { o with running := false }).stopMic service else a

end AudioServices

end Nek0.Dart
