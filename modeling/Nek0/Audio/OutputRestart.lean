import Nek0.Lib.Pool

/-!
# `Nek0.Audio.OutputRestart`: requests to rebuild the output stream

`OUTPUT_RESTART_REQUESTED` of `native/src/api.rs`: `ts_restart_audio_output` and the error callback
of the stream set it, and the maintenance tasks test it every 500 ms. `do_connect` spawns one more
maintenance task for every session, and none of them ends.

The tasks and the callers are the threads of a `Pool`. A statement is one access to what they share
(`RestartStmt`), so that everything is interleaved in every order. The events of the environment are
the calls, at any time.

`waiting`, `unserved` and `extra` are there for the specification. Left out: the other ticks of a
maintenance task, and what `restart_output_stream` does.
-/

set_option autoImplicit false

namespace Nek0.Audio

open Nek0.Lib (Language Outcome Pool Thread)

/-- A statement of a maintenance task, or of a caller. -/
inductive RestartStmt where
  | tick
  | loadRequested
  | checkConnected
  | beginRestart (forRequest : Bool)
  | endRestart
  | clearRequested
  | setConnected
  | spawnMaintenanceTask
  | setDisconnected
  | checkSession
  | storeRequested
  deriving DecidableEq, Repr

/-- `connected` and `OUTPUT_RESTART_REQUESTED`.

* `waiting`: there was a request during this session, and no rebuild began after it.
* `unserved`: there was a request, and no rebuild for a request began after it.
* `extra`: a rebuild for a request began while there was no such request. -/
structure Restart where
  connected : Bool
  requested : Bool
  waiting : Bool
  unserved : Bool
  extra : Bool
  deriving DecidableEq, Repr

namespace Restart

/-- Nothing was called yet. -/
def initial : Restart where
  connected := false
  requested := false
  waiting := false
  unserved := false
  extra := false

/-- The rebuild of a maintenance task, and its clear. -/
def rebuild : List RestartStmt := [.beginRestart true, .endRestart, .clearRequested]

/-- What a statement does. -/
def exec (_ : Unit) (st : RestartStmt) (s : Restart) : Option (Outcome Restart Unit RestartStmt) :=
  match st with
  | .tick => some { shared := s, front := [.loadRequested, .tick] }
  | .loadRequested => some { shared := s, front := if s.requested then [.checkConnected] else [] }
  | .checkConnected => some { shared := s, front := if s.connected then rebuild else [] }
  | .beginRestart forRequest =>
    -- The restart serves what was requested before it.
    some {
      shared :=
        { s with
          waiting := false
          unserved := s.unserved && !forRequest
          extra := s.extra || forRequest && !s.unserved } }
  | .endRestart => some { shared := s }
  | .clearRequested => some { shared := { s with requested := false } }
  | .setConnected => some { shared := { s with connected := true } }
  | .spawnMaintenanceTask => some { shared := s, spawn := [{ owner := (), prog := [.tick] }] }
  | .setDisconnected => some { shared := { s with connected := false, waiting := false } }
  -- `ts_restart_audio_output` needs a session.
  | .checkSession => some { shared := s, front := if s.connected then [.storeRequested] else [] }
  | .storeRequested =>
    some {
      shared :=
        { s with requested := true, waiting := s.waiting || s.connected, unserved := true } }

/-- `do_connect`, the end of a session, `ts_restart_audio_output`, and the error callback. -/
inductive Event where
  | connect
  | disconnect
  | restartAudioOutput
  | streamError
  deriving DecidableEq, Repr

/-- What a caller executes. -/
def Event.program : Event → List RestartStmt
  | .connect => [.setConnected, .spawnMaintenanceTask, .beginRestart false, .endRestart]
  | .disconnect => [.setDisconnected]
  | .restartAudioOutput => [.checkSession]
  | .streamError => [.storeRequested]

/-- The maintenance tasks and the callers. -/
def language : Language Restart Unit RestartStmt Unit Event where
  exec := exec
  env := fun e s => some (s, [{ owner := (), prog := e.program }])

end Restart

/-- The tasks and the callers over time. -/
abbrev RestartPool := Pool Restart Unit RestartStmt

/-- The tasks and the callers over time. -/
def restartSystem : Nek0.Lib.System RestartPool (Pool.Label Unit Restart.Event) :=
  Pool.system Restart.language (· = Restart.initial)

end Nek0.Audio
