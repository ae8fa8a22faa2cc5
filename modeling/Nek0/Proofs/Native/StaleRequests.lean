import Nek0.Proofs.Native.Ownership
import Nek0.Proofs.Native.Queues
import Nek0.Proofs.Native.Sessions

/-!
# `Nek0.Proofs.Native.StaleRequests`: which session a disconnect request ends

`ts_disconnect` and the swipe entry point express their request with two flags and a queued
`Command::Disconnect`. The request is open (`Asked`) while one of these is left: a flag is set, a
statement is about to set one or to queue the command, or an event loop can still receive it.

No step opens a request but a call (`asked_of_exec`). But the exits leave parts of it behind. The
exit through `Command::Disconnect` leaves `disconnect_requested` set, and the next session ends at
once (`not_ownRequest`). `freshStart` is the condition that no request is open when `ts_connect` is
accepted.

`ownRequest_of_run` is the main result: in a run under this condition, a session that leaves through
the user-disconnect path was asked to after its connect attempt was accepted. A record of
`userExits` says which attempts opened the session's channel and its connection, and how many
attempts had been accepted at the last request.
-/

set_option autoImplicit false

namespace Nek0.Proofs.Native

open Nek0.Lib
open Nek0.Native

/-- The statement is about to set a flag, or to queue `Command::Disconnect`. -/
def asks : Stmt → Bool
  | .write (.setDisconnectRequested b) => b
  | .write (.setSwipeDisconnect b) => b
  | .call .disconnect => true
  | .call .sendDisconnect => true
  | .call (.trySendCmd c) => c == .disconnect
  | .call (.ftReady (.command c)) => c == .disconnect
  | .call (.ftReadyAlive (.command c)) => c == .disconnect
  | .call (.sendCommand c) => c == .disconnect
  | _ => false

/-- The generation whose commands are received after the statement. An event loop that is on its way
out receives none. -/
def listensTo : Stmt → Option Nat
  | .task (.spawnEventLoop g) => some g
  | .eventLoop (.takeStash g) => some g
  | .eventLoop (.top sess) => some sess.generation
  | .eventLoop (.checkDisconnect sess) => some sess.generation
  | .eventLoop (.receive sess) => some sess.generation
  | .eventLoop (.poll sess) => some sess.generation
  | .eventLoop (.drain sess) => some sess.generation
  | .eventLoop (.handle sess _) => some sess.generation
  | .eventLoop (.acceptDownload sess _ _ _) => some sess.generation
  | .eventLoop (.startDownload sess _ _ _) => some sess.generation
  | _ => none

/-- The statement keeps a request open: it asks, or it can still receive the command. -/
def keepsAsking (s : Shared) (st : Stmt) : Bool :=
  asks st || (listensTo st).any fun g => decide (.disconnect ∈ (s.queues g).commands)

/-- A disconnect request is open. -/
def isAsked (P : Machine) : Bool :=
  P.shared.disconnectRequested || P.shared.swipeDisconnect ||
    P.threads.any fun th => th.prog.any (keepsAsking P.shared)

/-- The condition: no disconnect request is open when `ts_connect` is accepted. -/
def freshStart (P : Machine) (_ : Choice) : Stmt → Bool
  | .call .connect => P.shared.connecting || P.shared.connected || !isAsked P
  | _ => true

/-- The sessions that left through the user-disconnect path were asked to after their attempts were
accepted. -/
def OwnRequest (s : Shared) : Prop :=
  ∀ e ∈ s.history.userExits, e.1 ≤ e.2.2 ∧ e.2.1 ≤ e.2.2

/-! ### What a statement does to a request -/

/-- The ways in which a request is open. -/
inductive Asked (P : Machine) : Prop
  | flag : P.shared.disconnectRequested = true → Asked P
  | swipe : P.shared.swipeDisconnect = true → Asked P
  | asking {th : NativeThread} {st : Stmt} : th ∈ P.threads → st ∈ th.prog → asks st = true →
      Asked P
  | queued {th : NativeThread} {st : Stmt} {g : Nat} : th ∈ P.threads → st ∈ th.prog →
      listensTo st = some g → .disconnect ∈ (P.shared.queues g).commands → Asked P

/-- `isAsked` decides `Asked`: the condition of the run can be evaluated. -/
theorem isAsked_iff (P : Machine) : isAsked P = true ↔ Asked P := by
  simp only [isAsked, keepsAsking, Bool.or_eq_true, List.any_eq_true, Option.any_eq_true,
    decide_eq_true_eq]
  constructor
  · rintro ((hflag | hswipe) | ⟨th, hth, st, hst, hasks | ⟨g, hlistens, hqueued⟩⟩)
    · exact .flag hflag
    · exact .swipe hswipe
    · exact .asking hth hst hasks
    · exact .queued hth hst hlistens hqueued
  · intro h
    cases h with
    | flag hflag => exact .inl (.inl hflag)
    | swipe hswipe => exact .inl (.inr hswipe)
    | asking hth hst hasks => exact .inr ⟨_, hth, _, hst, .inl hasks⟩
    | queued hth hst hlistens hqueued => exact .inr ⟨_, hth, _, hst, .inr ⟨_, hlistens, hqueued⟩⟩

section

variable {choice : Choice} {s : Shared} {st : Stmt} {out : NativeOutcome}

/-- A flag is set by the statement that asks for it. -/
theorem flags_of_exec (hexec : st.exec choice s = some out) :
    (out.shared.disconnectRequested = true → s.disconnectRequested = true ∨ asks st = true) ∧
      (out.shared.swipeDisconnect = true → s.swipeDisconnect = true ∨ asks st = true) := by
  -- Only the two writes that set the flags matter. Every other statement has a frame lemma in which
  -- the flags stay.
  cases st with
  | write w =>
      cases hexec
      cases w with
      | setDisconnectRequested b => exact ⟨.inr, .inl⟩
      | setSwipeDisconnect b => exact ⟨.inl, .inr⟩
      | endStashed =>
          refine ⟨?_, .inl⟩
          intro h
          cases h
      | downloadProgress taskId done =>
          obtain ⟨_, _, heq, _⟩ := downloadProgress_frame s taskId done
          rw [heq]
          exact ⟨.inl, .inl⟩
      | uploadProgress taskId n =>
          obtain ⟨_, _, heq, _⟩ := uploadProgress_frame s taskId n
          rw [heq]
          exact ⟨.inl, .inl⟩
      -- The other writes touch one field each, and none of the two flags.
      | _ =>
          dsimp only [Write.apply]
          repeat' split
          all_goals exact ⟨.inl, .inl⟩
  | handler h =>
      cases hexec
      obtain ⟨_, _, _, _, _, _, heq⟩ := handler_frame s h
      rw [heq]
      exact ⟨.inl, .inl⟩
  | eventLoop l =>
      obtain ⟨_, _, _, _, _, _, _, _, _, _, _, _, heq, _⟩ := loop_frame hexec
      rw [heq]
      exact ⟨.inl, .inl⟩
  | call c =>
      cases hexec
      obtain ⟨_, _, _, _, _, _, _, _, heq, _⟩ := call_frame s c
      rw [heq]
      exact ⟨.inl, .inl⟩
  | task t =>
      obtain ⟨_, _, _, _, heq⟩ := task_frame hexec
      rw [heq]
      exact ⟨.inl, .inl⟩

/-- The command is queued by the statement that asks for it. -/
theorem queued_of_exec (hexec : st.exec choice s = some out) {g : Nat}
    (h : .disconnect ∈ (out.shared.queues g).commands) :
    .disconnect ∈ (s.queues g).commands ∨ asks st = true := by
  -- Only a call appends to a queue, only the receiving side shortens it, and a new generation
  -- starts an empty one.
  cases st with
  | write w =>
      cases hexec
      rcases queues_of_write s w with heq | ⟨g', heq⟩
      · rw [heq] at h
        exact .inl h
      -- The stash is closed: its queue is emptied.
      · rw [heq] at h
        by_cases hg : g = g'
        · subst hg
          rw [Function.update_self] at h
          cases h
        · rw [Function.update_of_ne hg] at h
          exact .inl h
  | handler hs =>
      cases hexec
      obtain ⟨_, _, _, _, _, _, heq⟩ := handler_frame s hs
      rw [heq] at h
      exact .inl h
  | eventLoop l =>
      left
      -- `try_recv` takes the first command. What stays in the queue was there before.
      by_cases hl : ∃ sess, l = .receive sess
      · obtain ⟨sess, rfl⟩ := hl
        have hexec' : (LoopStmt.receive sess).exec choice s = some out := hexec
        rcases receive_step hexec' with ⟨_, rfl⟩ | ⟨c, rest, hcons, hqueues, _⟩
        · exact h
        · rw [hqueues] at h
          by_cases hg : g = sess.generation
          · subst hg
            rw [Function.update_self] at h
            rw [hcons]
            exact .tail _ h
          · rwa [Function.update_of_ne hg] at h
      · rwa [queues_of_loop hexec fun sess hsess => hl ⟨sess, hsess⟩] at h
  | call c =>
      cases hexec
      rcases queues_of_call s c with heq | ⟨g', cmd, hcmd, _, heq⟩
      · rw [heq] at h
        exact .inl h
      · rw [heq] at h
        by_cases hg : g = g'
        · subst hg
          rw [Function.update_self] at h
          rcases List.mem_append.mp h with hold | hnew
          · exact .inl hold
          · obtain rfl := List.mem_singleton.mp hnew
            right
            -- Of the commands that a call sends, `Disconnect` comes from `ts_disconnect` only.
            cases c with
            | sendDisconnect => rfl
            | sendCommand c =>
                obtain rfl := Option.some.inj hcmd
                rfl
            | sendTransfer taskId t =>
                have hne : t.command taskId ≠ .disconnect := by
                  unfold Transfer.command
                  split <;> simp
                exact absurd (Option.some.inj hcmd) hne
            | _ => cases hcmd
        · rw [Function.update_of_ne hg] at h
          exact .inl h
  | task t =>
      left
      cases t with
      -- A new generation replaces its queue by an empty one.
      | advanceGeneration attempt serverName =>
          cases hexec
          change .disconnect ∈ ((Shared.setQueue _ _ _).queues g).commands at h
          rw [queues_setQueue] at h
          split at h
          · cases h
          · exact h
      | _ =>
          dsimp only [Stmt.exec, TaskStmt.exec] at hexec
          repeat' split at hexec
          all_goals cases hexec
          all_goals exact h

/-- The statement asks for nothing, and no command is received after it. -/
def isAside (st : Stmt) : Bool := !asks st && (listensTo st).isNone

/-- What the handler of a stream item leads to neither asks for a disconnect nor receives a command.
-/
theorem isAside_of_item (con : Nat) (it : StreamItem) :
    ∀ k ∈ itemProgram con it, isAside k = true := by
  intro k hk
  cases it with
  | bookEvents events =>
      obtain ⟨e, _, rfl⟩ := List.mem_map.mp hk
      cases e <;> rfl
  | commandError flags =>
      obtain ⟨_, _, rfl⟩ := List.mem_map.mp hk
      rfl
  | fileDownload clientFt stream =>
      cases stream <;> simp_all [itemProgram, isAside, asks, listensTo]
  | fileUpload clientFt stream =>
      cases stream <;> simp_all [itemProgram, isAside, asks, listensTo]
  | messageResult code res sid =>
      simp only [itemProgram, List.mem_cons, List.not_mem_nil, or_false] at hk
      rcases hk with rfl | rfl | rfl | rfl <;> rfl
  | disconnectedTemporarily reason =>
      simp only [itemProgram, List.mem_cons, List.not_mem_nil, or_false] at hk
      rcases hk with rfl | rfl | rfl <;> rfl
  | _ => simp_all [itemProgram, isAside, asks, listensTo]

theorem isAside_of_command (sess : Session) (c : Command) :
    ∀ k ∈ commandProgram sess c, isAside k = true := by
  cases c <;> simp [commandProgram, isAside, asks, listensTo]

/-- The commands that look up the own client id neither ask for a disconnect nor receive one. -/
theorem isAside_of_ownClient (sess : Session) (own : UInt32) (c : Command) :
    ∀ k ∈ ownClientProgram sess own c, isAside k = true := by
  have hrefuse : ∀ token message, ∀ k ∈ refuse token message, isAside k = true := by
    intro token message
    cases token <;> simp [refuse, isAside, asks, listensTo]
  cases c <;> dsimp only [ownClientProgram]
  -- `MoveChannel` forks on its token before it looks at the id. The other commands either refuse or
  -- send.
  case moveChannel clientId channelId password token =>
    cases token <;> split <;> simp [isAside, asks, listensTo]
  all_goals
    repeat' split
    all_goals first
      | exact hrefuse _ _
      | simp [isAside, asks, listensTo]

/-- Sending a command is handled aside. -/
theorem isAside_of_sendWithResult (s : Shared) (con : Nat) (reply : Reply)
    (failure : Option String) :
    ∀ k ∈ (s.sendWithResult con reply failure).front, isAside k = true := by
  dsimp only [Shared.sendWithResult]
  repeat' split
  all_goals
    cases reply with
    | permOp token => cases token <;> simp [Reply.onSent, Reply.onFailed, isAside, asks, listensTo]
    | _ => simp [Reply.onSent, Reply.onFailed, isAside, asks, listensTo]

/-- Nor does the exit of a session. -/
theorem isAside_of_exit (s : Shared) (sess : Session) (way : ExitWay) :
    ∀ k ∈ exitProgram s sess way, isAside k = true := by
  rw [exitProgram, List.forall_mem_append]
  constructor
  · split
    · cases way <;> simp [ExitWay.writes, isAside, asks, listensTo]
    · simp
  · simp [leaveProgram, isAside, asks, listensTo]

/-- What a statement of the event loop leads to: a swipe is passed on, and the loop goes on. -/
theorem asks_of_loop {l : LoopStmt} (hexec : l.exec choice s = some out) :
    ∀ k ∈ out.front, (asks k = true → s.swipeDisconnect = true) ∧
      ∀ g, listensTo k = some g → listensTo (.eventLoop l) = some g := by
  intro k hk
  -- A statement that does not ask and receives where the loop does satisfies both halves.
  have hgoes : asks k = false → listensTo k = none ∨ listensTo k = listensTo (.eventLoop l) →
      (asks k = true → s.swipeDisconnect = true) ∧
        ∀ g, listensTo k = some g → listensTo (.eventLoop l) = some g := by
    intro hasks hlistens
    rw [hasks]
    refine ⟨fun h => absurd h Bool.false_ne_true, fun g hg => ?_⟩
    rcases hlistens with hnone | hsame
    · rw [hnone] at hg
      cases hg
    · rw [← hsame, hg]
  have haside : isAside k = true → (asks k = true → s.swipeDisconnect = true) ∧
      ∀ g, listensTo k = some g → listensTo (.eventLoop l) = some g := by
    intro h
    simp only [isAside, Bool.and_eq_true, Bool.not_eq_true', Option.isNone_iff_eq_none] at h
    exact hgoes h.1 (.inl h.2)
  cases l with
  | top sess =>
      cases hexec
      dsimp only at hk
      split at hk
      -- A swipe was requested: the loop passes it on as a disconnect request.
      · rename_i hswipe
        simp only [List.mem_cons, List.not_mem_nil, or_false] at hk
        rcases hk with rfl | rfl | rfl
        · refine ⟨fun _ => hswipe, ?_⟩
          intro g hg
          cases hg
        · exact haside rfl
        · exact hgoes rfl (.inr rfl)
      · obtain rfl := List.mem_singleton.mp hk
        exact hgoes rfl (.inr rfl)
  | receive sess =>
      rcases receive_step hexec with ⟨_, rfl⟩ | ⟨c, rest, _, _, _, _, _, hfront⟩
      · obtain rfl := List.mem_singleton.mp hk
        exact hgoes rfl (.inr rfl)
      -- `Disconnect` leaves the session. Any other command runs its program and the loop goes on.
      · rcases hfront with ⟨_, hfront⟩ | ⟨_, hfront⟩
        · rw [hfront] at hk
          obtain rfl := List.mem_singleton.mp hk
          exact haside rfl
        · rw [hfront] at hk
          rcases List.mem_append.mp hk with hk | hk
          · exact haside (isAside_of_command sess c k hk)
          · obtain rfl := List.mem_singleton.mp hk
            exact hgoes rfl (.inr rfl)
  | ownClient sess c =>
      cases hexec
      exact haside (isAside_of_ownClient sess _ c k hk)
  | sendWithResult sess reply =>
      dsimp only [LoopStmt.exec] at hexec
      split at hexec
      all_goals
        cases hexec
        exact haside (isAside_of_sendWithResult s sess.con reply _ k hk)
  | handle sess ended =>
      dsimp only [LoopStmt.exec] at hexec
      split at hexec
      · cases hexec
        dsimp only at hk
        split at hk
        · obtain rfl := List.mem_singleton.mp hk
          exact haside rfl
        · obtain rfl := List.mem_singleton.mp hk
          exact hgoes rfl (.inr rfl)
      · cases hexec
        dsimp only at hk
        split at hk
        · obtain rfl := List.mem_singleton.mp hk
          exact hgoes rfl (.inr rfl)
        · rcases List.mem_append.mp hk with hk | hk
          · exact haside (isAside_of_item _ _ k hk)
          · obtain rfl := List.mem_singleton.mp hk
            exact hgoes rfl (.inr rfl)
  | guardExit sess way =>
      cases hexec
      exact haside (isAside_of_exit s sess way k hk)
  -- The other statements of the loop lead to their own successor or to the way out.
  | _ =>
      dsimp only [LoopStmt.exec, leaveProgram] at hexec
      repeat' split at hexec
      all_goals cases hexec
      all_goals simp only [List.mem_cons, List.not_mem_nil, or_false] at hk
      all_goals
        repeat' rcases hk with rfl | hk
        all_goals first
          | exact haside rfl
          | exact hgoes rfl (.inr rfl)

/-- What a handler of the event loop leads to neither asks nor receives: it publishes what has
failed. -/
theorem isAside_of_handler (s : Shared) (h : HandlerStmt) :
    ∀ k ∈ (h.exec s).front, isAside k = true := by
  intro k hk
  cases h with
  | takeFtTask code res sid =>
      dsimp only [HandlerStmt.exec] at hk
      split at hk
      · cases hk
      · cases res with
        | ok _ => cases hk
        | error e =>
            obtain rfl := List.mem_singleton.mp hk
            rfl
  | drainPermOps =>
      obtain ⟨_, _, rfl⟩ := List.mem_map.mp hk
      rfl
  | markListFinished cid path sid =>
      obtain ⟨_, _, rfl⟩ := List.mem_map.mp hk
      rfl
  | _ =>
      dsimp only [HandlerStmt.exec] at hk
      repeat' split at hk
      all_goals first
        | exact absurd hk List.not_mem_nil
        | obtain rfl := List.mem_singleton.mp hk
          rfl

/-- What a statement leads to asks for nothing new, and receives from no other queue but a new one.
-/
theorem asks_of_front (hexec : st.exec choice s = some out) : ∀ k ∈ out.front,
    (asks k = true → asks st = true ∨ s.swipeDisconnect = true) ∧
      ∀ g, listensTo k = some g →
        listensTo st = some g ∨ (out.shared.queues g).commands = [] := by
  intro k hk
  have haside : isAside k = true → (asks k = true → asks st = true ∨ s.swipeDisconnect = true) ∧
      ∀ g, listensTo k = some g → listensTo st = some g ∨ (out.shared.queues g).commands = [] := by
    -- By the kind of the statement. Only `advanceGeneration` starts a loop that receives from a
    -- queue.
    intro h
    simp only [isAside, Bool.and_eq_true, Bool.not_eq_true', Option.isNone_iff_eq_none] at h
    simp [h.1, h.2]
  cases st with
  | write w =>
      cases hexec
      cases hk
  | handler h =>
      cases hexec
      exact haside (isAside_of_handler s h k hk)
  | eventLoop l =>
      obtain ⟨hasks, hlistens⟩ := asks_of_loop hexec k hk
      exact ⟨fun h => .inr (hasks h), fun g hg => .inl (hlistens g hg)⟩
  | call c =>
      -- A call that is ready asks only if it is a call that asks.
      have hnone : listensTo k = none ∧ (asks k = true → asks (.call c) = true) := by
        cases hexec
        cases c with
        | ftReady r =>
            dsimp only [CallStmt.exec] at hk
            split at hk
            · obtain rfl := List.mem_singleton.mp hk
              cases r <;> exact ⟨rfl, id⟩
            · cases hk
        | ftReadyAlive r =>
            dsimp only [CallStmt.exec] at hk
            split at hk
            · cases r with
              | command c =>
                  obtain rfl := List.mem_singleton.mp hk
                  exact ⟨rfl, id⟩
              | transfer t =>
                  obtain rfl := List.mem_singleton.mp hk
                  exact ⟨rfl, fun h => absurd h Bool.false_ne_true⟩
            · cases hk
        | _ =>
            dsimp only [CallStmt.exec] at hk
            repeat' split at hk
            all_goals simp only [List.mem_cons, List.not_mem_nil, or_false] at hk
            all_goals
              repeat' rcases hk with rfl | hk
              all_goals first
                | exact ⟨rfl, fun _ => rfl⟩
                | exact ⟨rfl, id⟩
      refine ⟨fun h => .inl (hnone.2 h), fun g hg => ?_⟩
      rw [hnone.1] at hg
      cases hg
  | task t =>
      cases t with
      | advanceGeneration attempt serverName =>
          cases hexec
          simp only [List.mem_cons, List.not_mem_nil, or_false] at hk
          rcases hk with rfl | rfl | rfl | rfl
          · exact haside rfl
          · exact haside rfl
          · exact haside rfl
          · -- The queue of a new generation is empty.
            refine ⟨fun h => absurd h Bool.false_ne_true, fun g hg => .inr ?_⟩
            obtain rfl := Option.some.inj hg
            show ((Shared.setQueue _ _ _).queues _).commands = []
            rw [queues_setQueue, if_pos rfl]
      | _ =>
          dsimp only [Stmt.exec, TaskStmt.exec, finishProgram] at hexec
          repeat' split at hexec
          all_goals cases hexec
          all_goals simp only [List.mem_cons, List.not_mem_nil, or_false] at hk
          all_goals
            repeat' rcases hk with rfl | hk
            all_goals exact haside rfl

/-- What a statement starts asks for nothing, and receives from its queue. -/
theorem asks_of_spawn (hexec : st.exec choice s = some out) : ∀ th ∈ out.spawn, ∀ k ∈ th.prog,
    asks k = false ∧ ∀ g, listensTo k = some g → listensTo st = some g := by
  intro th hth k hk
  rcases spawn_cases hexec with h | ⟨_, _, h⟩ | ⟨g, rfl, h⟩ | ⟨_, _, h⟩ | ⟨_, _, _, _, _, h⟩ |
    ⟨_, _, h⟩
  · rw [h] at hth
    cases hth
  case inr.inr.inl =>
    rw [h] at hth
    obtain rfl := List.mem_singleton.mp hth
    obtain rfl := List.mem_singleton.mp hk
    exact ⟨rfl, fun g hg => hg⟩
  all_goals
    rw [h] at hth
    obtain rfl := List.mem_singleton.mp hth
    obtain rfl := List.mem_singleton.mp hk
    exact ⟨rfl, fun g hg => by cases hg⟩

/-- No step of a thread opens a request. -/
theorem asked_of_run {P P' : Machine} {i : Nat}
    (hnext : Pool.next nativeLanguage (.run i choice) P = some P') (h : Asked P') : Asked P := by
  obtain ⟨th, st, rest, out, hth, hprog, hexec, rfl⟩ := Pool.next_run hnext
  have hmem := List.mem_of_getElem? hth
  have hst : st ∈ th.prog := by
    rw [hprog]
    exact .head _
  have hrest : ∀ k ∈ rest, k ∈ th.prog := by
    intro k hk
    rw [hprog]
    exact .tail _ hk
  have hasks : asks st = true → Asked P := .asking hmem hst
  -- A statement of a thread that still receives a queued command.
  have hqueued : ∀ {u : NativeThread} {k : Stmt} {g : Nat}, u ∈ P.threads → k ∈ u.prog →
      listensTo k = some g → .disconnect ∈ (out.shared.queues g).commands → Asked P := by
    intro u k g hu hk hlistens hcommand
    rcases queued_of_exec hexec hcommand with hold | hnew
    · exact .queued hu hk hlistens hold
    · exact hasks hnew
  -- By what holds the request open afterwards: a flag, a statement or a queued command.
  cases h with
  | flag hflag => exact ((flags_of_exec hexec).1 hflag).elim .flag hasks
  | swipe hswipe => exact ((flags_of_exec hexec).2 hswipe).elim .swipe hasks
  | @asking u k hu hk hask =>
      -- A thread of the new pool is an old one, the one that ran, or one that it has spawned.
      rcases Pool.mem_set_append hu with hold | rfl | hnew
      · exact .asking hold hk hask
      · rcases List.mem_append.mp hk with hfront | hk
        · exact ((asks_of_front hexec k hfront).1 hask).elim hasks .swipe
        · exact .asking hmem (hrest k hk) hask
      · rw [(asks_of_spawn hexec u hnew k hk).1] at hask
        cases hask
  | @queued u k g hu hk hlistens hcommand =>
      rcases Pool.mem_set_append hu with hold | rfl | hnew
      · exact hqueued hold hk hlistens hcommand
      · rcases List.mem_append.mp hk with hfront | hk
        -- The statement receives from the same queue as the one that ran, or from an empty one.
        · rcases (asks_of_front hexec k hfront).2 g hlistens with hsame | hempty
          · exact hqueued hmem hst hsame hcommand
          · have hcommand' : .disconnect ∈ (out.shared.queues g).commands := hcommand
            rw [hempty] at hcommand'
            cases hcommand'
        · exact hqueued hmem (hrest k hk) hlistens hcommand
      · exact hqueued hmem hst ((asks_of_spawn hexec u hnew k hk).2 g hlistens) hcommand

/-! ### The attempts, the requests and the exits -/

/-- What a statement records. -/
inductive Records (s : Shared) (st : Stmt) (s' : Shared) : Prop
  | nothing : s'.history.userExits = s.history.userExits →
      s'.history.attempts = s.history.attempts → Records s st s'
  | accepted : st = .call .connect → s.connecting = false → s.connected = false →
      s'.history.userExits = s.history.userExits →
      s'.history.attempts = s.history.attempts + 1 → Records s st s'
  | exit {sess : Session} : (s.disconnectRequested = true ∨
        listensTo st = some sess.generation ∧
          .disconnect ∈ (s.queues sess.generation).commands) →
      concerns sess.con st = true →
      s'.history.userExits = s.history.userExits ++
        [((s.queues sess.generation).attempt, sess.con, s.history.lastRequest)] →
      s'.history.attempts = s.history.attempts → Records s st s'

/-- A statement of a thread requests nothing by itself. -/
theorem lastRequest_of_exec (hexec : st.exec choice s = some out) :
    out.shared.history.lastRequest = s.history.lastRequest := by
  cases st with
  | write w =>
      cases hexec
      cases w with
      | push e origin => cases origin <;> rfl
      | downloadProgress taskId done =>
          obtain ⟨_, _, heq, _⟩ := downloadProgress_frame s taskId done
          rw [heq]
      | uploadProgress taskId n =>
          obtain ⟨_, _, heq, _⟩ := uploadProgress_frame s taskId n
          rw [heq]
      | _ =>
          dsimp only [Write.apply]
          repeat' split
          all_goals rfl
  | handler h =>
      cases hexec
      obtain ⟨_, _, _, _, _, _, heq⟩ := handler_frame s h
      rw [heq]
  | eventLoop l =>
      obtain ⟨_, _, _, _, _, _, _, _, _, _, _, _, heq, _⟩ := loop_frame hexec
      rw [heq]
  | call c =>
      cases hexec
      obtain ⟨_, _, _, _, _, _, _, _, heq, _⟩ := call_frame s c
      rw [heq]
  | task t =>
      obtain ⟨_, _, _, _, heq⟩ := task_frame hexec
      rw [heq]

/-- A statement of the event loop records an exit only behind the flag or behind a queued
`Disconnect`. -/
theorem records_of_loop {l : LoopStmt} (hexec : l.exec choice s = some out) :
    Records s (.eventLoop l) out.shared := by
  cases l with
  | checkDisconnect sess =>
      dsimp only [LoopStmt.exec] at hexec
      split at hexec
      -- The flag is seen at the top of an iteration: the session leaves through the user's path.
      · rename_i hflag
        cases hexec
        exact .exit (.inl hflag) (by simp [concerns, sessionOf]) rfl rfl
      · cases hexec
        exact .nothing rfl rfl
  | receive sess =>
      dsimp only [LoopStmt.exec] at hexec
      split at hexec
      · cases hexec
        exact .nothing rfl rfl
      · rename_i c rest hcons
        split at hexec
        -- `Disconnect` is received from the queue of the session's own generation.
        · rename_i hc
          cases hexec
          have hmem : .disconnect ∈ (s.queues sess.generation).commands := by
            rw [hcons, hc]
            exact .head _
          refine .exit (.inr ⟨rfl, hmem⟩) (by simp [concerns, sessionOf]) ?_ rfl
          show s.history.userExits ++ [(((Shared.setQueue _ _ _).queues _).attempt, _, _)] = _
          rw [queues_setQueue, if_pos rfl]
          rfl
        · cases hexec
          exact .nothing rfl rfl
  | ownClient sess c =>
      cases hexec
      have hsame : (s.ownClientIdOrCache sess.con).1.history = s.history := by
        simp only [Shared.ownClientIdOrCache]
        repeat' split
        all_goals rfl
      exact .nothing (by rw [hsame]) (by rw [hsame])
  | sendWithResult sess reply =>
      have hframe := fun failure => sendWithResult_frame s sess.con reply failure
      dsimp only [LoopStmt.exec] at hexec
      split at hexec
      all_goals
        cases hexec
        obtain ⟨_, _, _, heq⟩ := hframe _
        exact .nothing (by rw [heq]) (by rw [heq])
  | startDownload sess ended taskId total =>
      dsimp only [LoopStmt.exec] at hexec
      split at hexec
      · cases hexec
        obtain ⟨_, _, heq, _⟩ := maybePublishFtProgress_frame s taskId true
        exact .nothing (by rw [heq]) (by rw [heq])
      · cases hexec
        exact .nothing rfl rfl
  -- The other statements of the loop record nothing.
  | _ =>
      dsimp only [LoopStmt.exec] at hexec
      repeat' split at hexec
      all_goals cases hexec
      all_goals exact .nothing rfl rfl

/-- What a statement records of exits and attempts: nothing, an accepted connect, or an exit on a
request. -/
theorem records_of_exec (hexec : st.exec choice s = some out) : Records s st out.shared := by
  cases st with
  | write w =>
      cases hexec
      cases w with
      | push e origin => cases origin <;> exact .nothing rfl rfl
      | downloadProgress taskId done =>
          obtain ⟨_, _, heq, _⟩ := downloadProgress_frame s taskId done
          exact .nothing (by rw [heq]) (by rw [heq])
      | uploadProgress taskId n =>
          obtain ⟨_, _, heq, _⟩ := uploadProgress_frame s taskId n
          exact .nothing (by rw [heq]) (by rw [heq])
      | _ =>
          dsimp only [Write.apply]
          repeat' split
          all_goals exact .nothing rfl rfl
  | handler h =>
      cases hexec
      obtain ⟨_, _, _, _, _, _, heq⟩ := handler_frame s h
      exact .nothing (by rw [heq]) (by rw [heq])
  | eventLoop l => exact records_of_loop hexec
  | call c =>
      cases hexec
      have hsend : ∀ cmd, (s.trySend cmd).1.history = s.history := by
        intro cmd
        rcases trySend_frame s cmd with ⟨heq, _⟩ | ⟨_, _, _, _, heq⟩
        all_goals
          rw [heq]
          try rfl
      cases c with
      | connect =>
          dsimp only [CallStmt.exec]
          -- `ts_connect` is refused while an attempt is under way, and accepted otherwise.
          split
          · exact .nothing rfl rfl
          · rename_i hidle
            simp only [Bool.or_eq_true, not_or, Bool.not_eq_true] at hidle
            exact .accepted rfl hidle.1 hidle.2 rfl rfl
      | sendDisconnect =>
          exact .nothing (congrArg History.userExits (hsend _))
            (congrArg History.attempts (hsend _))
      | sendCommand cmd =>
          exact .nothing (congrArg History.userExits (hsend _))
            (congrArg History.attempts (hsend _))
      | sendTransfer taskId t =>
          exact .nothing (congrArg History.userExits (hsend _))
            (congrArg History.attempts (hsend _))
      | _ =>
          dsimp only [CallStmt.exec]
          repeat' split
          all_goals exact .nothing rfl rfl
  | task t =>
      obtain ⟨_, _, _, _, heq⟩ := task_frame hexec
      exact .nothing (by rw [heq]) (by rw [heq])

/-- A queue belongs to the attempt that has advanced the generation. -/
theorem attempt_of_exec (hexec : st.exec choice s = some out) (g : Nat) :
    (out.shared.queues g).attempt = (s.queues g).attempt ∨
      concerns (out.shared.queues g).attempt st = true := by
  -- An updated queue keeps its attempt if the update does.
  have hupdate : ∀ {queues : Nat → CommandQueue} {g' : Nat} {q : CommandQueue},
      queues = Function.update s.queues g' q → q.attempt = (s.queues g').attempt →
        (queues g).attempt = (s.queues g).attempt := by
    rintro _ g' q rfl hq
    by_cases hg : g = g'
    · subst hg
      rw [Function.update_self, hq]
    · rw [Function.update_of_ne hg]
  cases st with
  | write w =>
      cases hexec
      rcases queues_of_write s w with heq | ⟨g', heq⟩
      · exact .inl (by rw [heq])
      · exact .inl (hupdate heq rfl)
  | handler h =>
      cases hexec
      obtain ⟨_, _, _, _, _, _, heq⟩ := handler_frame s h
      exact .inl (by rw [heq])
  | eventLoop l =>
      left
      by_cases hl : ∃ sess, l = .receive sess
      · obtain ⟨sess, rfl⟩ := hl
        have hexec' : (LoopStmt.receive sess).exec choice s = some out := hexec
        rcases receive_step hexec' with ⟨_, rfl⟩ | ⟨_, _, _, hqueues, _⟩
        · rfl
        · exact hupdate hqueues rfl
      · rw [queues_of_loop hexec fun sess h => hl ⟨sess, h⟩]
  | call c =>
      cases hexec
      rcases queues_of_call s c with heq | ⟨g', _, _, _, heq⟩
      · exact .inl (by rw [heq])
      · exact .inl (hupdate heq rfl)
  | task t =>
      cases t with
      | advanceGeneration attempt serverName =>
          cases hexec
          show ((Shared.setQueue _ _ _).queues g).attempt = _ ∨
            concerns ((Shared.setQueue _ _ _).queues g).attempt _ = true
          rw [queues_setQueue]
          -- The queue of the new generation belongs to the attempt that advances it.
          split
          · exact .inr (by simp [concerns])
          · exact .inl rfl
      | _ =>
          dsimp only [Stmt.exec, TaskStmt.exec] at hexec
          repeat' split at hexec
          all_goals cases hexec
          all_goals exact .inl rfl

end

/-- A call that requests nothing asks for nothing. -/
theorem isAside_of_program {c : Call} (hc : c.isRequest = false) :
    ∀ k ∈ c.program, isAside k = true := by
  cases c with
  | tsDisconnect => cases hc
  | swipeDisconnect => cases hc
  | queueCommand c => cases c <;> simp [Call.program, Command.isQueueable, isAside, asks, listensTo]
  | queueFtCommand c =>
      cases c <;> simp [Call.program, Command.isQueueable, isAside, asks, listensTo]
  | _ => simp [Call.program, isAside, asks, listensTo]

/-- A request opens with the call that makes it. -/
theorem asked_of_env {P P' : Machine} {event : Happening}
    (hnext : Pool.next nativeLanguage (.env event) P = some P') (h : Asked P') :
    Asked P ∨ P'.shared.history.lastRequest = P'.shared.history.attempts := by
  obtain ⟨s, spawn, henv, rfl⟩ := Pool.next_env hnext
  -- If the flags and the queues stay, and the new threads hold nothing of a request, then nothing
  -- opens.
  have hsame : s.disconnectRequested = P.shared.disconnectRequested →
      s.swipeDisconnect = P.shared.swipeDisconnect → s.queues = P.shared.queues →
      (∀ th ∈ spawn, ∀ k ∈ th.prog, isAside k = true) → Asked P := by
    intro hflag hswipe hqueues haside
    have hnew : ∀ {th : NativeThread} {k : Stmt}, th ∈ P.threads ++ spawn → k ∈ th.prog →
        th ∈ P.threads ∨ (asks k = false ∧ listensTo k = none) := by
      intro th k hth hk
      rcases List.mem_append.mp hth with hold | hnew
      · exact .inl hold
      · have hk' := haside th hnew k hk
        simp only [isAside, Bool.and_eq_true, Bool.not_eq_true',
          Option.isNone_iff_eq_none] at hk'
        exact .inr hk'
    cases h with
    | flag hset => exact .flag (hflag ▸ hset)
    | swipe hset => exact .swipe (hswipe ▸ hset)
    | asking hth hk hask =>
        rcases hnew hth hk with hold | ⟨hnone, _⟩
        · exact .asking hold hk hask
        · rw [hnone] at hask
          cases hask
    | queued hth hk hlistens hcommand =>
        rcases hnew hth hk with hold | ⟨_, hnone⟩
        · exact .queued hold hk hlistens (hqueues ▸ hcommand)
        · rw [hnone] at hlistens
          cases hlistens
  rcases happening_cases henv with ⟨c, _, rfl, rfl⟩ | ⟨_, _, rfl, rfl⟩ | ⟨_, _, _, rfl, rfl⟩
  -- A call that requests a disconnect notes the attempts that it has seen. No other call opens a
  -- request.
  · by_cases hc : c.isRequest = true
    · right
      show (P.shared.noteRequest c).history.lastRequest =
        (P.shared.noteRequest c).history.attempts
      rw [Shared.noteRequest, if_pos hc]
    · left
      rw [Bool.not_eq_true] at hc
      have hnote : P.shared.noteRequest c = P.shared := by
        rw [Shared.noteRequest, if_neg (by rw [hc]; exact Bool.false_ne_true)]
      refine hsame (by rw [hnote]) (by rw [hnote]) (by rw [hnote]) ?_
      intro th hth
      rw [List.mem_singleton.mp hth]
      exact isAside_of_program hc
  · exact .inl (hsame rfl rfl rfl fun th hth => by cases hth)
  · exact .inl (hsame rfl rfl rfl fun th hth => by cases hth)

/-- An open request was made after the last attempt was accepted. -/
structure Current (P : Machine) : Prop where
  request : P.shared.history.lastRequest ≤ P.shared.history.attempts
  asked : Asked P → P.shared.history.lastRequest = P.shared.history.attempts
  queues : ∀ g, (P.shared.queues g).attempt ≤ P.shared.history.attempts
  own : OwnRequest P.shared

/-- A step of a thread keeps the requests current. -/
theorem current_run {P P' : Machine} {i : Nat} {choice : Choice} (hreach : native.Reachable P)
    (hok : Pool.checks freshStart P (.run i choice : NativeLabel) = true)
    (hnext : Pool.next nativeLanguage (.run i choice) P = some P') (h : Current P) :
    Current P' := by
  have hasked := asked_of_run hnext
  obtain ⟨th, st, rest, out, hth, hprog, hexec, rfl⟩ := Pool.next_run hnext
  have hmem := List.mem_of_getElem? hth
  have hst : st ∈ th.prog := by
    rw [hprog]
    exact .head _
  -- A thread that concerns a connection holds it, so its attempt has been accepted before.
  have hbound : ∀ con, concerns con st = true → con ≤ P.shared.history.attempts :=
    fun con hcon => le_attempts_of_holdsConn hreach hmem (List.any_eq_true.mpr ⟨st, hst, hcon⟩)
  have hlast := lastRequest_of_exec hexec
  have hqueues : ∀ g, (out.shared.queues g).attempt ≤ P.shared.history.attempts := by
    intro g
    rcases attempt_of_exec hexec g with hsame | hcon
    · rw [hsame]
      exact h.queues g
    · exact hbound _ hcon
  cases records_of_exec hexec with
  -- Nothing is recorded: the counters stay, and no request has opened.
  | nothing hexits hattempts =>
      refine ⟨?_, ?_, ?_, ?_⟩
      · rw [hlast, hattempts]
        exact h.request
      · intro hopen
        rw [hlast, hattempts]
        exact h.asked (hasked hopen)
      · rw [hattempts]
        exact hqueues
      · rw [OwnRequest, hexits]
        exact h.own
  -- An attempt is accepted: the attempts go up, the last request does not.
  | accepted hconnect hconnecting hconnected hexits hattempts =>
      refine ⟨?_, ?_, ?_, ?_⟩
      · rw [hlast, hattempts]
        exact Nat.le_succ_of_le h.request
      · -- By the condition no request is open when the attempt is accepted.
        intro hopen
        exfalso
        have hcond := Pool.cond_of_checks hok hth hprog
        rw [hconnect] at hcond
        simp only [freshStart, hconnecting, hconnected, Bool.false_or, Bool.not_eq_true'] at hcond
        have hopen' := (isAsked_iff P).mpr (hasked hopen)
        rw [hcond] at hopen'
        cases hopen'
      · intro g
        rw [hattempts]
        exact Nat.le_succ_of_le (hqueues g)
      · rw [OwnRequest, hexits]
        exact h.own
  | @exit sess hopen hcon hexits hattempts =>
      -- The exit has an open request behind it, and an open request is of the latest attempt.
      have hlatest : P.shared.history.lastRequest = P.shared.history.attempts := by
        refine h.asked ?_
        rcases hopen with hflag | ⟨hlistens, hcommand⟩
        · exact .flag hflag
        · exact .queued hmem hst hlistens hcommand
      refine ⟨?_, ?_, ?_, ?_⟩
      · rw [hlast, hattempts]
        exact h.request
      · intro hopen'
        rw [hlast, hattempts]
        exact h.asked (hasked hopen')
      · rw [hattempts]
        exact hqueues
      · intro e he
        -- The new exit is of this session. Its request and its attempt are both the latest.
        rw [hexits] at he
        rcases List.mem_append.mp he with hold | hnew
        · exact h.own e hold
        · rw [List.mem_singleton.mp hnew]
          dsimp only
          rw [hlatest]
          exact ⟨h.queues sess.generation, hbound sess.con hcon⟩

/-- In a run under the condition the requests are current. -/
theorem current_of_run {P : Machine} (hrun : RunUnder freshStart P) : Current P := by
  refine System.Run.invariant_of (P := Current) (Q := native.Reachable)
    (fun _ hP => hP.reachable) ?_ ?_ hrun
  · rintro P ⟨hshared, hthreads⟩
    refine ⟨?_, ?_, ?_, ?_⟩
    · rw [hshared]
      exact Nat.le_refl 0
    · intro _
      rw [hshared]
      rfl
    · intro g
      rw [hshared]
      exact Nat.le_refl 0
    · rw [hshared]
      intro e he
      cases he
  · intro P P' label hreach _ h hok hnext
    cases label with
    | run i choice => exact current_run hreach hok hnext h
    | env event =>
        have hasked := asked_of_env hnext
        obtain ⟨s, spawn, henv, rfl⟩ := Pool.next_env hnext
        -- A call may note its request. Nothing else is recorded.
        have hrecords : s.history.attempts = P.shared.history.attempts ∧
            s.history.userExits = P.shared.history.userExits ∧ s.queues = P.shared.queues ∧
            (s.history.lastRequest = P.shared.history.lastRequest ∨
              s.history.lastRequest = P.shared.history.attempts) := by
          rcases happening_cases henv with ⟨c, _, rfl, _⟩ | ⟨_, _, rfl, _⟩ | ⟨_, _, _, rfl, _⟩
          · unfold Shared.noteRequest
            split
            · exact ⟨rfl, rfl, rfl, .inr rfl⟩
            · exact ⟨rfl, rfl, rfl, .inl rfl⟩
          · exact ⟨rfl, rfl, rfl, .inl rfl⟩
          · exact ⟨rfl, rfl, rfl, .inl rfl⟩
        obtain ⟨hattempts, hexits, hqueues, hlast⟩ := hrecords
        refine ⟨?_, ?_, ?_, ?_⟩
        · show s.history.lastRequest ≤ s.history.attempts
          rcases hlast with hlast | hlast
          · rw [hlast, hattempts]
            exact h.request
          · rw [hlast, hattempts]
        · intro hopen
          rcases hasked hopen with hold | hnew
          · show s.history.lastRequest = s.history.attempts
            rcases hlast with hlast | hlast
            · rw [hlast, hattempts]
              exact h.asked hold
            · rw [hlast, hattempts]
          · exact hnew
        · show ∀ g, (s.queues g).attempt ≤ s.history.attempts
          rw [hqueues, hattempts]
          exact h.queues
        · show ∀ e ∈ s.history.userExits, _
          rw [hexits]
          exact h.own

/-- In a run in which no disconnect request is open when `ts_connect` is accepted, a session that
leaves through the user-disconnect path was asked to after its attempt was accepted. -/
theorem ownRequest_of_run {P : Machine} (hrun : RunUnder freshStart P) : OwnRequest P.shared :=
  (current_of_run hrun).own

/-- The user disconnects while the event loop polls. -/
def disconnectsOnce : List NativeLabel :=
  publishSteps 0 ++ startSteps 0 ++ iterateSteps 2 ++
    [.env (.call .tsDisconnect), .run 3 .go, .run 3 .go, .run 3 .go] ++
    [.run 2 (.incoming .timeout), .run 2 (.incoming .timeout)] ++ List.replicate 3 (.run 2 .go)

/-- The session leaves through the user-disconnect path, and was asked to. -/
theorem ownRequest_disconnectsOnce : ∃ P : Machine, OwnRequest P.shared ∧
    P.shared.history.userExits = [(1, 1, 1)] := by
  obtain ⟨P, hrun, hobs⟩ := exists_run freshStart disconnectsOnce
    (fun P => P.shared.history.userExits) (a := [(1, 1, 1)]) rfl
  exact ⟨P, ownRequest_of_run hrun, hobs⟩

/-- The user disconnects after the event loop has looked at the flag. It leaves through the queued
command. Then the user connects again. -/
def disconnectsThenConnects : List NativeLabel :=
  publishSteps 0 ++ startSteps 0 ++ [.run 2 .go, .run 2 .go] ++
    [.env (.call .tsDisconnect), .run 3 .go, .run 3 .go, .run 3 .go] ++
    [.run 2 .go, .run 2 .go, .run 2 (.incoming .ended)] ++ List.replicate 9 (.run 2 .go) ++
    publishSteps 4 ++ startSteps 4 ++ [.run 6 .go, .run 6 .go]

/-- The second session ends at once, on the request that was made for the first. -/
theorem not_ownRequest : ¬ ∀ P : Machine, native.Reachable P → OwnRequest P.shared := by
  intro hall
  obtain ⟨P, hrun, hobs⟩ := exists_run (fun _ _ _ => true) disconnectsThenConnects
    (fun P => P.shared.history.userExits) (a := [(1, 1, 1), (2, 2, 1)]) rfl
  have hexit : (2, 2, 1) ∈ P.shared.history.userExits := by
    rw [show P.shared.history.userExits = _ from hobs]
    exact .tail _ (.head _)
  -- The request behind the second exit is the first attempt's.
  have h : (2 : Nat) ≤ 1 := (hall P hrun.reachable _ hexit).1
  omega

end Nek0.Proofs.Native
