import Nek0.Proofs.Native.Sessions

/-!
# `Nek0.Proofs.Native.Isolation`: old event loops and the current session

`Isolated` says what a step must leave alone to belong to an older session only: the flags, the
command channel, the pending operations, the roster, and the `Disconnected` events in the queue.

Under `sequential` every step of the event loop of an older generation is isolated
(`oldLoop_isolated`). Without it, an exit whose generation check has passed can go on in the next
session (`oldLoop_not_isolated`): the check and the writes behind it are separate steps.
-/

set_option autoImplicit false

namespace Nek0.Proofs.Native

open Nek0.Lib
open Nek0.Native

/-- A `Disconnected` event. -/
def isDisconnected : TsEvent → Bool
  | .disconnected _ => true
  | _ => false

/-- Between `s` and `s'` nothing has changed that belongs to the current session. -/
structure Isolated (s s' : Shared) : Prop where
  connected : s'.connected = s.connected
  disconnectRequested : s'.disconnectRequested = s.disconnectRequested
  commandTx : s'.commandTx = s.commandTx
  eventLoopAlive : s'.eventLoopAlive = s.eventLoopAlive
  ftTaskByRc : s'.ftTaskByRc = s.ftTaskByRc
  ftOps : s'.ftOps = s.ftOps
  permOps : s'.permOps = s.permOps
  ftLists : s'.ftLists = s.ftLists
  channels : s'.channels = s.channels
  clients : s'.clients = s.clients
  disconnected :
    s'.pendingEvents.filter isDisconnected = s.pendingEvents.filter isDisconnected

/-- A drop is isolated. -/
theorem isolated_of_spent {choice : Choice} {s : Shared} {st : Stmt} {out : NativeOutcome}
    (hexec : st.exec choice s = some out) (hst : spent st = true) : Isolated s out.shared := by
  cases st with
  | write w =>
      cases hexec
      cases w with
      | dropReceiver generation => exact ⟨rfl, rfl, rfl, rfl, rfl, rfl, rfl, rfl, rfl, rfl, rfl⟩
      | dropConnection con => exact ⟨rfl, rfl, rfl, rfl, rfl, rfl, rfl, rfl, rfl, rfl, rfl⟩
      | _ => cases hst
  | _ => cases hst

/-- In every run that advances the generation only when no thread is working on a session, every
step of an event loop of an older generation is isolated. -/
theorem oldLoop_isolated {P P' : Machine} {i g : Nat} {choice : Choice} {prog : List Stmt}
    (hrun : RunUnder (fun P _ => sequential P) P)
    (hth : P.threads[i]? = some ⟨.eventLoop g, prog⟩)
    (hold : g < P.shared.connectionGeneration)
    (hnext : Pool.next nativeLanguage (.run i choice) P = some P') :
    Isolated P.shared P'.shared := by
  have hworks := worksOn_of_run (fun _ _ _ h => h) hrun _ (List.mem_of_getElem? hth)
  obtain ⟨th, st, rest, out, hth', hprog, hexec, rfl⟩ := Pool.next_run hnext
  obtain rfl : th = ⟨.eventLoop g, prog⟩ := by
    rw [hth] at hth'
    exact (Option.some.inj hth').symm
  refine isolated_of_spent hexec ?_
  by_contra hst
  -- A thread with anything else left to do works on the current generation.
  have hw : working ⟨.eventLoop g, prog⟩ = true :=
    List.any_eq_true.mpr ⟨st, by rw [show prog = st :: rest from hprog]; exact List.mem_cons_self,
      by simpa using hst⟩
  rcases hworks hw with howner | ⟨⟨_, howner⟩, _⟩
  · cases howner
    omega
  · cases howner

/-- Session 1 is stashed, and the stash is emptied by a disconnect. Its event loop panics, and
`ts_connect` is accepted again. -/
def emptiedStash : List NativeLabel :=
  publishSteps 0 ++ [.run 1 .go, .run 1 .go, .env (.call .tsDisconnect)] ++
    List.replicate 4 (.run 3 .go) ++ [.run 2 .go] ++ publishSteps 4

/-- The unwinding event loop of session 1 drops its channel in session 2. -/
theorem oldLoop_isolated_drop : ∃ P P' : Machine,
    P.shared.connectionGeneration = 2 ∧
    Pool.next nativeLanguage (.run 2 .go) P = some P' ∧ Isolated P.shared P'.shared := by
  obtain ⟨P, hrun, hobs⟩ := exists_run (fun P _ => sequential P) emptiedStash
    (fun P => (P.threads[2]?, P.shared.connectionGeneration,
      (Pool.next nativeLanguage (.run 2 .go) P).isSome))
    (a := (some ⟨.eventLoop 1, [.write (.dropReceiver 1)]⟩, 2, true)) rfl
  simp only [Prod.mk.injEq, Option.isSome_iff_exists] at hobs
  obtain ⟨hth, hgen, P', hnext⟩ := hobs
  exact ⟨P, P', hgen, hnext, oldLoop_isolated hrun hth (by omega) hnext⟩

/-- A stream error ends session 1. After `connected = false`, session 2 is opened. -/
def overtakenExit : List NativeLabel :=
  publishSteps 0 ++ startSteps 0 ++ iterateSteps 2 ++
    [.run 2 (.incoming (.failed "reset")), .run 2 .go, .run 2 .go, .run 2 .go] ++ publishSteps 3

/-- The exit of session 1 then pushes its `Disconnected` event into session 2. -/
theorem oldLoop_not_isolated :
    ¬ ∀ (P P' : Machine) (i g : Nat) (choice : Choice) (prog : List Stmt),
      native.Reachable P → P.threads[i]? = some ⟨.eventLoop g, prog⟩ →
      g < P.shared.connectionGeneration →
      Pool.next nativeLanguage (.run i choice) P = some P' → Isolated P.shared P'.shared := by
  intro hall
  obtain ⟨P, hrun, hobs⟩ := exists_run (fun _ _ _ => true) overtakenExit
    (fun P => ((P.threads[2]?).map (·.owner), P.shared.connectionGeneration,
      P.shared.pendingEvents.filter isDisconnected,
      (Pool.next nativeLanguage (.run 2 .go) P).map fun P' =>
        P'.shared.pendingEvents.filter isDisconnected))
    (a := (some (.eventLoop 1), 2, [], some [.disconnected "Connection error: reset"])) rfl
  simp only [Prod.mk.injEq, Option.map_eq_some_iff] at hobs
  obtain ⟨⟨⟨owner, prog⟩, hth, rfl⟩, hgen, hbefore, P', hnext, hafter⟩ := hobs
  have h := (hall P P' 2 1 .go prog hrun.reachable hth (by omega) hnext).disconnected
  rw [hbefore, hafter] at h
  cases h

end Nek0.Proofs.Native
