import Nek0.Native.Calls
import Nek0.Native.Tasks

/-!
# `Nek0.Native.Machine`: the native side as a whole

The threads of the native side over its shared state, as a transition system. A step executes one
statement of one thread, or the outside acts: a call comes in, time passes, or a link is lost
while the notice of it is still queued in the library.
-/

set_option autoImplicit false

namespace Nek0.Native

open Nek0.Lib (Language Pool System)

/-- What the outside does on its own. -/
inductive Happening where
  | call (c : Call)
  | tick (milliseconds : Nat)
  | linkLost (con : Nat)
  deriving DecidableEq, Repr

/-- What a statement does. -/
def Stmt.exec (choice : Choice) (st : Stmt) (s : Shared) : Option NativeOutcome :=
  match st with
  | .write w => some { shared := w.apply s }
  | .handler h => some (h.exec s)
  | .eventLoop l => l.exec choice s
  | .call c => some (c.exec s)
  | .task t => t.exec choice s

/-- A disconnect request is noted for the specifications. -/
def Shared.noteRequest (s : Shared) (c : Call) : Shared :=
  if c.isRequest then
    { s with history := { s.history with lastRequest := s.history.attempts } }
  else s

/-- What the outside does. -/
def Happening.exec (s : Shared) : Happening → Option (Shared × List NativeThread)
  | .call c => some (s.noteRequest c, [⟨.call, c.program⟩])
  | .tick milliseconds => some ({ s with now := s.now + milliseconds }, [])
  | .linkLost con =>
      if (s.conns con).link = .connected then
        some (s.setConn con { s.conns con with link := .lost }, [])
      else none

/-- The statements and the outside. -/
def nativeLanguage : Language Shared Owner Stmt Choice Happening where
  exec := Stmt.exec
  env := fun h s => h.exec s

/-- A step of the native side. -/
abbrev NativeLabel := Pool.Label Choice Happening

/-- The native side, from program start. -/
def native : System Machine NativeLabel := Pool.system nativeLanguage (· = Shared.initial)

end Nek0.Native
