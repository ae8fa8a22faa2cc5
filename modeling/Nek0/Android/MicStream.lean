import Nek0.Lib.LittleEndian
import Nek0.Lib.Pool

/-!
# `Nek0.Android.MicStream`: `MicStreamHandler`

`MainActivity.kt`: the capture of the microphone. `onListen` starts a capture thread, which reads
the recorder while `isRecording` is true and posts each block to the main thread. `onCancel` clears
`isRecording` and releases the recorder, and waits for no thread.

The capture threads are the threads of a `Pool`. A statement is one access to what the threads share
(`MicStmt`). The main thread is the environment. It executes one statement of a handler call at a
time (`MainStmt`), and between two calls it delivers posted blocks. So the calls and the threads are
interleaved in every order.

`recorded` and `delivered` are there for the specification: the blocks that were read, and what the
sink got. Left out: the `thread` field, which is only written, and the reasons for which a recorder
cannot be opened.
-/

set_option autoImplicit false

namespace Nek0.Android

open Nek0.Lib (Language Outcome Pool Thread)
open Nek0.Lib.LittleEndian (toLe)

/-- A block of samples that was read. `serial` counts the blocks of all recorders. -/
structure MicBlock where
  recorder : Nat
  serial : Nat
  samples : List UInt32
  deriving DecidableEq, Repr

/-- What the sink gets: the bytes of the samples, least significant first. -/
def MicBlock.bytes (b : MicBlock) : List UInt8 := b.samples.flatMap fun s => toLe 4 s.toNat

/-- The rest of a handler call. -/
inductive MainStmt where
  | startMic
  | setRecord (recorder : Nat)
  | setRecording
  | startThread
  | clearRecording
  | release
  | clearRecord
  | clearSink
  deriving DecidableEq, Repr

/-- A statement of a capture thread. `load`, `check` and `read` are `readMicBuffer`. -/
inductive MicStmt where
  | test
  | load
  | check (recorder : Nat)
  | read (recorder : Nat)
  | post (block : MicBlock)
  | sleep
  deriving DecidableEq, Repr

/-- What the threads share. Recorders are numbered in the order they were opened. -/
structure Mic where
  isRecording : Bool
  audioRecord : Option Nat
  recorders : Nat
  released : List Nat
  sink : Bool
  main : List MainStmt
  posted : List MicBlock
  recorded : List MicBlock
  delivered : List (Nat × List UInt8)
  deriving DecidableEq, Repr

namespace Mic

/-- Nothing was called yet. -/
def initial : Mic where
  isRecording := false
  audioRecord := none
  recorders := 0
  released := []
  sink := false
  main := []
  posted := []
  recorded := []
  delivered := []

/-- The frame size: 20 ms at 48 kHz. -/
def frameSize : Nat := 960

/-- `onListen`, up to `startMic`. -/
def onListen (m : Mic) : Mic := { m with sink := true, main := [.startMic] }

/-- `onCancel`: `stopMic`, then the sink is dropped. -/
def onCancel (m : Mic) : Mic :=
  { m with main := [.clearRecording, .release, .clearRecord, .clearSink] }

/-- The capture loop starts with its test. -/
def captureThread : Thread Unit MicStmt := { owner := (), prog := [.test] }

/-- A statement of the main thread, and the threads it starts. `opened` says whether the recorder
could be opened. -/
def execMain (opened : Bool) (st : MainStmt) (m : Mic) : Mic × List (Thread Unit MicStmt) :=
  match st with
  | .startMic =>
    -- `startMic` answers `true` at once, and `onListen` starts its thread all the same.
    if m.isRecording then ({ m with main := [.startThread] }, [])
    else if opened then
      ({ m with
        recorders := m.recorders + 1
        main := [.setRecord m.recorders, .setRecording, .startThread] }, [])
    -- It answers `false`, and no thread is started.
    else ({ m with main := [] }, [])
  | .setRecord recorder => ({ m with audioRecord := some recorder }, [])
  | .setRecording => ({ m with isRecording := true }, [])
  | .startThread => (m, [captureThread])
  | .clearRecording => ({ m with isRecording := false }, [])
  | .release => ({ m with released := m.audioRecord.toList ++ m.released }, [])
  | .clearRecord => ({ m with audioRecord := none }, [])
  | .clearSink => ({ m with sink := false }, [])

/-- A posted block is run on the main thread. -/
def deliver (b : MicBlock) (m : Mic) : Mic :=
  if m.sink then { m with delivered := m.delivered ++ [(b.serial, b.bytes)] } else m

/-- What the main thread does next. -/
inductive Event where
  | listen
  | cancel
  | main (opened : Bool)
  | deliver
  deriving DecidableEq, Repr

/-- The main thread. A call begins when the one before is over. -/
def env (e : Event) (m : Mic) : Option (Mic × List (Thread Unit MicStmt)) :=
  match e, m.main with
  | .listen, [] => some (m.onListen, [])
  | .cancel, [] => some (m.onCancel, [])
  | .deliver, [] =>
    match m.posted with
    | [] => none
    | b :: posted => some ({ m with posted := posted }.deliver b, [])
  | .main opened, st :: rest => some ({ m with main := rest }.execMain opened st)
  | _, _ => none

/-- A statement of a capture thread. `samples` is what the recorder has. A recorder that was
released gives nothing. -/
def exec (samples : List UInt32) (st : MicStmt) (m : Mic) : Option (Outcome Mic Unit MicStmt) :=
  match st with
  -- The condition of the loop.
  | .test =>
    some { shared := m, front := if m.isRecording then [.load] else [] }
  -- `readMicBuffer` loads the recorder, and then asks once more whether it records.
  | .load =>
    some {
      shared := m
      front := match m.audioRecord with
        | none => [.sleep]
        | some recorder => [.check recorder] }
  | .check recorder =>
    some { shared := m, front := if m.isRecording then [.read recorder] else [.sleep] }
  | .read recorder =>
    let samples := samples.take frameSize
    -- A read of nothing is a null, and the thread sleeps.
    if samples.isEmpty || m.released.contains recorder then
      some { shared := m, front := [.sleep] }
    else
      let block := { recorder := recorder, serial := m.recorded.length, samples := samples }
      some { shared := { m with recorded := m.recorded ++ [block] }, front := [.post block] }
  | .post block => some { shared := { m with posted := m.posted ++ [block] }, front := [.test] }
  | .sleep => some { shared := m, front := [.test] }

/-- The main thread and the capture threads. -/
def language : Language Mic Unit MicStmt (List UInt32) Event where
  exec := exec
  env := env

end Mic

/-- The handler over time. -/
abbrev MicPool := Pool Mic Unit MicStmt

/-- The handler over time. -/
def micSystem : Nek0.Lib.System MicPool (Pool.Label (List UInt32) Mic.Event) :=
  Pool.system Mic.language (· = Mic.initial)

end Nek0.Android
