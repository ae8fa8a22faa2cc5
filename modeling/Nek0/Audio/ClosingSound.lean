import Nek0.Lib.Pool

/-!
# `Nek0.Audio.ClosingSound`: the sound at the end of a session

The end of a session queues a sound and defers the teardown of the output stream until the sound is
over: `schedule_sfx_teardown`, `schedule_teardown_after_kick_sfx`, the exits of `event_loop`,
`do_connect` and `ts_stop_audio` of `native/src/api.rs`.

The exits, the deferred tasks and `do_connect` are the threads of a `Pool`. A statement is one
access to what they share (`ClosingStmt`). `schedule` is the store to `SFX_DEFERRED_TEARDOWN` and
the spawn after it: the task can start its sleep at any time later. Dart is the environment. It
polls events and calls `ts_connect` and `ts_stop_audio`, one at a time, and `dart` is where it is in
the latter. Time is in milliseconds, and it passes between any two steps.

Sessions are known by their number in `CONNECTION_GENERATION`. `dues`, `scheduled`, `polled`, `cut`
and `taken` are there for the specification.

Left out: the sounds in `SFX_QUEUE`, the rebuilds of the stream, and the fallbacks of the disconnect
calls for a loop that does not run, which do not use `teardown_output_state`.
-/

set_option autoImplicit false

namespace Nek0.Audio

open Nek0.Lib (Language Outcome Pool Thread)

/-- The exits of `event_loop`: the stream had an error, the stream ended, `disconnect_requested` was
seen, and `Command::Disconnect` was received. -/
inductive Exit where
  | error
  | ended
  | requested
  | command
  deriving DecidableEq, Repr

/-- A statement. `len` is the length of the sample of the sound. -/
inductive ClosingStmt where
  | openSocket
  | resetFlags
  | answer
  | nextGeneration
  | establish (gen : Nat)
  | connectFailed
  | startLoop (gen : Nat)
  | ifCurrent (gen : Nat) (exit : Exit) (len : Nat)
  | setDisconnected
  | pushDisconnected (gen : Nat)
  | endSession (gen : Nat)
  | loadSuppress (gen len : Nat)
  | clearSuppress
  | schedule (gen ms : Nat)
  | handshake
  | clearRequested
  | sleep (ms : Nat)
  | wake (due : Nat)
  | clearDeferred
  | testConnected
  | teardown
  deriving DecidableEq, Repr

/-- How long a sound of `len` samples is waited for. -/
def playMs (len : Nat) : Nat := len * 1000 / 48000 + 400

/-- `PRESERVE_MS`. -/
def preserveMs : Nat := 2400

/-- What an exit does once it knows that its session is the current one. -/
def Exit.body (gen len : Nat) : Exit → List ClosingStmt
  | .error => [.setDisconnected, .pushDisconnected gen, .schedule gen (playMs len)]
  | .ended => [.endSession gen, .loadSuppress gen len]
  | .requested => [.pushDisconnected gen, .setDisconnected, .clearRequested]
  | .command => [.endSession gen]

/-- What an exit does. A disconnect by the user queues its sound before the handshake. -/
def Exit.program (gen len : Nat) : Exit → List ClosingStmt
  | .error => [.ifCurrent gen .error len]
  | .ended => [.ifCurrent gen .ended len]
  | .requested => [.schedule gen (playMs len), .handshake, .ifCurrent gen .requested len]
  | .command => [.schedule gen (playMs len), .handshake, .ifCurrent gen .command len]

/-- Where Dart is in `ts_stop_audio`. -/
inductive StopStmt where
  | loadDeferred
  | teardown
  deriving DecidableEq, Repr

/-- What the threads and Dart share. `deferred` is `SFX_DEFERRED_TEARDOWN`, `suppress` is
`SFX_SUPPRESS_DISCONNECT`, `live` are the sessions whose loop runs, and `pending` are the
`Disconnected` events in `pending_events`.

* `dues`: when the delays end that were scheduled since the last session was established.
* `scheduled`: the sessions that have scheduled their sound.
* `polled`: the sessions whose `Disconnected` event Dart has polled.
* `cut`: the stream was torn down before one of the `dues`.
* `taken`: `ts_stop_audio` tore the stream down for a session in `polled` that is not in
  `scheduled`. -/
structure Closing where
  now : Nat
  connecting : Bool
  connected : Bool
  disconnectRequested : Bool
  generation : Nat
  deferred : Bool
  suppress : Bool
  live : List Nat
  pending : List Nat
  dart : Option StopStmt
  dues : List Nat
  scheduled : List Nat
  polled : List Nat
  cut : Bool
  taken : Bool
  deriving DecidableEq, Repr

namespace Closing

/-- Nothing was called yet. -/
def initial : Closing where
  now := 0
  connecting := false
  connected := false
  disconnectRequested := false
  generation := 0
  deferred := false
  suppress := false
  live := []
  pending := []
  dart := none
  dues := []
  scheduled := []
  polled := []
  cut := false
  taken := false

/-- `teardown_output_state`. -/
def tearDown (s : Closing) : Closing := { s with cut := s.cut || s.dues.any fun due => s.now < due }

/-- What a statement does. The choice says whether an attempt to connect goes on. -/
def exec (choice : Bool) (st : ClosingStmt) (s : Closing) :
    Option (Outcome Closing Unit ClosingStmt) :=
  match st with
  -- `do_connect` waits twice, and either wait can end the attempt.
  | .openSocket => some { shared := s, front := if choice then [.resetFlags] else [.connectFailed] }
  | .resetFlags =>
    some { shared := { s with suppress := false, deferred := false }, front := [.answer] }
  | .answer => some { shared := s, front := if choice then [.nextGeneration] else [.connectFailed] }
  | .nextGeneration =>
    some {
      shared := { s with generation := s.generation + 1 }
      front := [.establish (s.generation + 1)] }
  | .establish gen =>
    some {
      shared := { s with connecting := false, connected := true, dues := [] }
      front := [.startLoop gen] }
  | .connectFailed => some { shared := { s with connecting := false } }
  | .startLoop gen => some { shared := { s with live := gen :: s.live } }
  -- An exit acts for its session only while its generation is the current one.
  | .ifCurrent gen exit len =>
    some { shared := s, front := if s.generation = gen then exit.body gen len else [] }
  | .setDisconnected => some { shared := { s with connected := false } }
  | .pushDisconnected gen => some { shared := { s with pending := s.pending ++ [gen] } }
  | .endSession gen =>
    some { shared := { s with connected := false, pending := s.pending ++ [gen] } }
  -- The sound of a kick is left to play out instead of the closing sound.
  | .loadSuppress gen len =>
    some {
      shared := s
      front :=
        if s.suppress then [.clearSuppress, .schedule gen preserveMs]
        else [.schedule gen (playMs len)] }
  | .clearSuppress => some { shared := { s with suppress := false } }
  | .schedule gen ms =>
    some {
      shared :=
        { s with
          deferred := true
          dues := (s.now + ms) :: s.dues
          scheduled := gen :: s.scheduled }
      spawn := [{ owner := (), prog := [.sleep ms] }] }
  | .handshake => some { shared := s }
  | .clearRequested => some { shared := { s with disconnectRequested := false } }
  -- The deferred task sleeps, clears its flag, and stops the audio if no new session is up.
  | .sleep ms => some { shared := s, front := [.wake (s.now + ms), .clearDeferred, .testConnected] }
  | .wake due => if due ≤ s.now then some { shared := s } else none
  | .clearDeferred => some { shared := { s with deferred := false } }
  | .testConnected => some { shared := s, front := if s.connected then [] else [.teardown] }
  | .teardown => some { shared := s.tearDown }

/-- The environment. `kicked` is the event that sets `SFX_SUPPRESS_DISCONNECT`. -/
inductive Event where
  | advance (ms : Nat)
  | kicked
  | requestDisconnect
  | exit (gen : Nat) (exit : Exit) (len : Nat)
  | connect
  | poll
  | stopAudio
  | stop
  deriving DecidableEq, Repr

/-- What the environment does. -/
def env (e : Event) (s : Closing) : Option (Closing × List (Thread Unit ClosingStmt)) :=
  match e, s.dart with
  | .advance ms, _ => some ({ s with now := s.now + ms }, [])
  | .kicked, _ => some ({ s with suppress := true }, [])
  | .requestDisconnect, _ => some ({ s with disconnectRequested := true }, [])
  -- A loop exits once, and on request only if there was one.
  | .exit gen exit len, _ =>
    if gen ∈ s.live ∧ (exit = .requested → s.disconnectRequested = true) then
      some ({ s with live := s.live.erase gen }, [{ owner := (), prog := exit.program gen len }])
    else none
  | .connect, none =>
    -- A second `ts_connect` is ignored.
    if s.connecting ∨ s.connected then some (s, [])
    else some ({ s with connecting := true, pending := [] },
      [{ owner := (), prog := [.openSocket] }])
  | .poll, none =>
    match s.pending with
    | [] => some (s, [])
    | gen :: pending => some ({ s with pending := pending, polled := gen :: s.polled }, [])
  -- `ts_stop_audio` does nothing while a disconnect is requested.
  | .stopAudio, none =>
    some (if s.disconnectRequested then s else { s with dart := some .loadDeferred }, [])
  | .stop, some .loadDeferred =>
    -- A deferred stop is left to its task.
    some ({ s with dart := if s.deferred then none else some .teardown }, [])
  | .stop, some .teardown =>
    some ({ s.tearDown with
      dart := none
      taken := s.taken || s.polled.any fun gen => gen ∉ s.scheduled }, [])
  | _, _ => none

/-- The threads and Dart. -/
def language : Language Closing Unit ClosingStmt Bool Event where
  exec := exec
  env := env

end Closing

/-- The ends of the sessions over time. -/
abbrev ClosingPool := Pool Closing Unit ClosingStmt

/-- The ends of the sessions over time. -/
def closingSystem : Nek0.Lib.System ClosingPool (Pool.Label Bool Closing.Event) :=
  Pool.system Closing.language (· = Closing.initial)

end Nek0.Audio
