import Nek0.Lib.Observer
import Nek0.Proofs.Native.Ownership
import Nek0.Proofs.Native.PermTokens
import Nek0.Proofs.Native.Sessions

/-!
# `Nek0.Proofs.Native.PermCommands`: kicks, bans, moves, groups and permissions

The event loop processes a permission command in a few statements: it may look at the own client
id, and then it refuses the command, or sends it and registers its token. A `PermRecord` notes what
came of each command. It counts how often a command was answered: with a `PermOp` event at once, or
with an entry of `PERM_OPS`.

`answeredOnce_of_run` is the law. A processed command with a token was answered once. For a token
there are no more `PermOp` events than commands that were given with it. No kick and no ban was sent
that is about the own client.

`Remains` says what a thread still has to execute for a command. The own client id is compared when
the command is processed, one statement before it is sent. In between the book stays as it is: the
loop alone has the connection (`conns_of_other`).
-/

set_option autoImplicit false

namespace Nek0.Proofs.Native

open Nek0.Lib
open Nek0.Native

/-- The client that a kick or a ban is about. -/
def expelled : Command → Option UInt16
  | .kickClient clientId _ _ _ => some clientId
  | .banClient clientId _ _ _ => some clientId
  | _ => none

/-- The commands that are noted: those with a token, the kicks and the bans. -/
def isNoted (c : Command) : Bool := (permToken c).isSome || (expelled c).isSome

/-- The statement answers the command: with the event, or with the entry. -/
def answers (c : Command) : Stmt → Nat
  | .write (.push (.permOp token _ _) _) => if permToken c = some token then 1 else 0
  | .write (.insertPermOp _ token _) => if permToken c = some token then 1 else 0
  | _ => 0

/-- The command goes out. -/
def transmits (choice : Choice) (c : Conn) : Bool :=
  match choice with
  | .sendFails _ => false
  | _ => c.link == .connected

/-- Only a connection that is up transmits. -/
theorem link_of_transmits {choice : Choice} {c : Conn} (h : transmits choice c = true) :
    c.link = .connected := by
  unfold transmits at h
  split at h
  · cases h
  · exact eq_of_beq h

/-- What is noted of a run. -/
structure PermRecord where
  /-- The tokens of the commands that the calls gave. -/
  given : List String
  /-- The command that a thread is processing, and how often it has been answered so far. -/
  processing : Nat → Option (Command × Nat)
  /-- The commands that were processed, and how often they were answered. -/
  processed : List (Command × Nat)
  /-- The kicks and the bans that were sent: the client they are about, and the own client. -/
  sent : List (UInt16 × UInt16)

/-- Thread `i` executes a statement. With the next command, the one before it is done. -/
def PermRecord.ran (m : PermRecord) (i : Nat) (choice : Choice) (s : Shared) : Stmt → PermRecord
  | .eventLoop (.receive sess) =>
      { m with
          processing := Function.update m.processing i
            (((s.queues sess.generation).commands.head?.filter isNoted).map fun c => (c, 0))
          processed := m.processed ++ (m.processing i).toList }
  | .eventLoop (.sendWithResult sess _) =>
      if transmits choice (s.conns sess.con) then
        { m with
            sent := m.sent ++ ((m.processing i).bind fun x => expelled x.1).toList.map
              fun target => (target, (s.conns sess.con).book.ownClient) }
      else m
  | st =>
      { m with
          processing := Function.update m.processing i
            ((m.processing i).map fun x => (x.1, x.2 + answers x.1 st)) }

/-- If the command goes out now, it is not about the own client. -/
def Spared (c : Command) (con : Conn) : Prop :=
  ∀ target, expelled c = some target → con.link = .connected → target ≠ con.book.ownClient

/-- How often a command is answered in the end. -/
def answersDue (c : Command) : Nat := if (permToken c).isSome then 1 else 0

/-- What is registered when the command goes out. -/
def RepliesTo (c : Command) (reply : Reply) : Prop :=
  reply = .permOp (permToken c) ∨ (permToken c = none ∧ ∃ channelId, reply = .ownMove channelId)

/-- What is left of a command in a session, if it was answered `n` times so far. -/
inductive Remains (c : Command) (sess : Session) (s : Shared) : Nat → List Stmt → Prop
  | ownClient : commandProgram sess c = [.eventLoop (.ownClient sess c)] →
      Remains c sess s 0 [.eventLoop (.ownClient sess c), .eventLoop (.receive sess)]
  | armPendingMove {channelId : UInt64} {reply : Reply} : expelled c = none →
      RepliesTo c reply →
      Remains c sess s 0 [.write (.armPendingMove channelId),
        .eventLoop (.sendWithResult sess reply), .eventLoop (.receive sess)]
  | send {reply : Reply} : Spared c (s.conns sess.con) → RepliesTo c reply →
      Remains c sess s 0 [.eventLoop (.sendWithResult sess reply), .eventLoop (.receive sess)]
  | push {token : String} {ok : Bool} {error : Option String} : permToken c = some token →
      Remains c sess s 0 [.write (.push (.permOp token ok error) none),
        .eventLoop (.receive sess)]
  | insert {code : ReturnCode} {token : String} {sid : SendId} : permToken c = some token →
      Remains c sess s 0 [.write (.insertPermOp code token sid), .eventLoop (.receive sess)]
  | done : Remains c sess s (answersDue c) [.eventLoop (.receive sess)]

variable {c : Command} {sess : Session} {s : Shared} {n : Nat}

/-- Only the link and the book of the session's connection matter. -/
theorem Remains.mono {s' : Shared} {prog : List Stmt} (h : Remains c sess s n prog)
    (hspared : Spared c (s.conns sess.con) → Spared c (s'.conns sess.con)) :
    Remains c sess s' n prog := by
  cases h with
  | ownClient h => exact .ownClient h
  | armPendingMove h hreply => exact .armPendingMove h hreply
  | send h hreply => exact .send (hspared h) hreply
  | push h => exact .push h
  | insert h => exact .insert h
  | done => exact .done

/-- The program of a command ends with the next `receive`. -/
theorem Remains.receive_mem {prog : List Stmt} (h : Remains c sess s n prog) :
    .eventLoop (.receive sess) ∈ prog := by
  cases h <;> simp

/-- The statement that thread `i` executes. -/
theorem head_eq {P : Machine} {i : Nat} {th : NativeThread} {st : Stmt} {rest : List Stmt}
    (hth : P.threads[i]? = some th) (hprog : th.prog = st :: rest) : Pool.head P i = some st := by
  rw [Pool.head, hth]
  simp [hprog]

end Nek0.Proofs.Native
