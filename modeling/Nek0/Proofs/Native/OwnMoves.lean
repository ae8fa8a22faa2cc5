import Nek0.Proofs.Native.PermCommands
import Nek0.Proofs.Native.StaleRequests

/-!
# `Nek0.Proofs.Native.OwnMoves`: whom `ts_move_to_channel` moves

`ts_move_to_channel` reads the own client id from the cache and queues it with the move. The event
loop compares it with the id in the book, arms `pending_move` if they agree, and sends the move
with the queued id either way. After a temporary disconnect the book can hold another id, and the
cache is refreshed only when the loop processes a move, a kick or a ban
(`tsMoveToChannel_of_refreshed`, `ownClientId_of_exec`).

An `OwnMove` follows the move of one call: through the call's thread, the queue and the event loop.
`keepsOwnId` is the condition: the cached id is the live one when the call queues its move, and the
own client is not given another id while the move waits. Then the move is sent with the own id, and
`pending_move` is armed (`addressed_of_run`). Without it another client is moved
(`not_addressed_reassigned`).

`Serves` carries the proof: each loop that will receive from the queue has a connection with this
own id. `serves_step` says that a step keeps this, as no statement but a poll changes the book.
-/

set_option autoImplicit false

namespace Nek0.Proofs.Native

open Nek0.Lib
open Nek0.Native

/-- `ts_move_to_channel`: the client id is the cached one. -/
def tsMoveToChannel (s : Shared) (cid : UInt32) (password : Option String) : Call :=
  .queueCommand (.moveChannel s.ownClientId.toUInt16 cid.toUInt64 password none)

/-- Where the move of a call is. -/
inductive OwnMove where
  /-- The call has not begun, or its move got lost. -/
  | absent
  /-- The call has read this client id from the cache. -/
  | calling (channelId : UInt64) (clientId : UInt16)
  /-- In the queue of a generation, behind so many other commands. -/
  | queued (channelId : UInt64) (clientId : UInt16) (generation ahead : Nat)
  /-- Thread `i` processes it. -/
  | taken (channelId : UInt64) (i : Nat) (clientId : UInt16) (armed : Option UInt64)
  /-- It was sent: with this client id, while the book had this own client id. -/
  | sent (channelId : UInt64) (clientId ownClient : UInt16) (armed : Option UInt64)
  deriving DecidableEq, Repr

/-- Thread `i` executes a statement, and `k` is the thread of the call. -/
def OwnMove.ran (k i : Nat) (choice : Choice) (s : Shared) (st : Stmt) (m : OwnMove) : OwnMove :=
  match m with
  | .absent => .absent
  | .calling channelId clientId =>
    match st with
    | .call (.sendCommand c) =>
      if i = k then
        match s.commandTx with
        | none => .absent
        | some g =>
          if (s.trySend c).2 then .queued channelId clientId g (s.queues g).commands.length
          else .absent
      else m
    | _ => m
  | .queued channelId clientId g ahead =>
    match st with
    | .eventLoop (.receive sess) =>
      if sess.generation = g then
        match ahead, (s.queues g).commands with
        | 0, .moveChannel clientId _ _ _ :: _ => .taken channelId i clientId none
        | ahead + 1, _ => .queued channelId clientId g ahead
        | _, _ => .absent
      else m
    | .write (.dropReceiver g') => if g' = g then .absent else m
    | _ => m
  | .taken channelId j clientId armed =>
    if i = j then
      match st with
      | .write (.armPendingMove channelId') => .taken channelId j clientId (some channelId')
      | .eventLoop (.sendWithResult sess _) =>
        if transmits choice (s.conns sess.con) then
          .sent channelId clientId (s.conns sess.con).book.ownClient armed
        else .absent
      | _ => m
    else m
  | .sent _ _ _ _ => m

/-- Follows the move of call `k`, if that is a `ts_move_to_channel`. -/
def moveObserver (k : Nat) : Observer Machine NativeLabel OwnMove where
  start := .absent
  see := fun label P m =>
    match label with
    | .run i choice =>
      match Pool.head P i with
      | none => m
      | some st => m.ran k i choice P.shared st
    | .env (.call (.queueCommand (.moveChannel clientId channelId password none))) =>
      if P.threads.length = k ∧ .queueCommand (.moveChannel clientId channelId password none) =
          tsMoveToChannel P.shared channelId.toUInt32 password then
        .calling channelId clientId
      else m
    | .env _ => m

/-- A move that was sent is about the own client, and `pending_move` was armed for it. -/
def Addressed (m : OwnMove) : Prop :=
  ∀ channelId clientId ownClient armed, m = .sent channelId clientId ownClient armed →
    clientId = ownClient ∧ armed = some channelId

/-- The connection of a statement of the event loop. -/
def conOf : Stmt → Option Nat
  | .eventLoop l => (sessionOf l).map Session.con
  | _ => none

/-- The own client of the book of connection `con` has this id. -/
def hasOwnId (s : Shared) (clientId : UInt16) (con : Nat) : Bool :=
  (s.conns con).book.ownClient == clientId

/-- The live own id is this one: each event loop that receives from the queue of the generation has
it in its book. -/
def isLiveId (P : Machine) (g : Nat) (clientId : UInt16) : Bool :=
  P.threads.all fun t => t.prog.all fun st =>
    listensTo st != some g || (conOf st).all (hasOwnId P.shared clientId)

/-- The stream gives the own client another id. -/
def reassigns (choice : Choice) (c : Conn) : Bool :=
  match choice with
  | .incoming (.book book _) => book.ownClient != c.book.ownClient
  | .incoming (.reconnected book) => book.ownClient != c.book.ownClient
  | _ => false

/-- The statement leaves those who receive from the queue of the generation with this own id. A loop
that begins takes its connection from the stash, and a loop that polls may get another id. -/
def keepsServing (s : Shared) (choice : Choice) (clientId : UInt16) (g : Nat) : Stmt → Bool
  | .eventLoop (.takeStash g') => g' != g || s.connectionStash.all (hasOwnId s clientId)
  | .eventLoop (.poll sess) => sess.generation != g || !reassigns choice (s.conns sess.con)
  | .eventLoop (.drain sess) => sess.generation != g || !reassigns choice (s.conns sess.con)
  | _ => true

/-- The condition: when call `k` queues its move, the id that it read from the cache is the live own
id, and it stays so while the move is queued. -/
def keepsOwnId (k : Nat) (p : Machine × OwnMove) (label : NativeLabel) : Bool :=
  match label with
  | .env _ => true
  | .run i choice =>
    match p.2, Pool.head p.1 i with
    | .calling _ clientId, some (.call (.sendCommand _)) =>
      i != k || p.1.shared.commandTx.all fun g => isLiveId p.1 g clientId
    | .queued _ clientId g _, some st => keepsServing p.1.shared choice clientId g st
    | _, _ => true

/-! ### The cache -/

/-- `own_client_id_or_cache` refreshes the cache over a link that is up: the next
`ts_move_to_channel` reads the live own id. -/
theorem tsMoveToChannel_of_refreshed {s : Shared} {con : Nat} (cid : UInt32)
    (password : Option String) (hlink : (s.conns con).link = .connected)
    (hown : (s.conns con).book.ownClient ≠ 0) :
    tsMoveToChannel (s.ownClientIdOrCache con).1 cid password =
      .queueCommand (.moveChannel (s.conns con).book.ownClient cid.toUInt64 password none) := by
  have hne : (s.conns con).book.ownClient.toUInt32 ≠ 0 := by
    intro h
    refine hown ?_
    rw [← UInt16.toUInt16_toUInt32 (s.conns con).book.ownClient, h]
    rfl
  simp only [tsMoveToChannel, Shared.ownClientIdOrCache, hlink, if_true, if_pos hne,
    UInt16.toUInt16_toUInt32]

/-- And so does the publication of a session. -/
theorem tsMoveToChannel_of_published (s : Shared) (serverName : String) (book : Book)
    (cid : UInt32) (password : Option String) :
    tsMoveToChannel ((Write.publish serverName book).apply s) cid password =
      .queueCommand (.moveChannel book.ownClient cid.toUInt64 password none) := by
  simp only [tsMoveToChannel, Write.apply, Shared.pushEvent, UInt16.toUInt16_toUInt32]

/-- Nothing else writes the cache. -/
theorem ownClientId_of_exec {choice : Choice} {s : Shared} {st : Stmt} {out : NativeOutcome}
    (hexec : st.exec choice s = some out)
    (hpublish : ∀ serverName book, st ≠ .write (.publish serverName book))
    (hrefresh : ∀ sess c, st ≠ .eventLoop (.ownClient sess c)) :
    out.shared.ownClientId = s.ownClientId := by
  -- The cache is written by `publish`, and by a command that asks for the own id.
  cases st with
  | write w =>
      cases hexec
      cases w with
      | publish serverName book => exact absurd rfl (hpublish serverName book)
      | push e origin => cases origin <;> rfl
      | downloadProgress taskId done =>
          obtain ⟨_, _, heq, _⟩ := downloadProgress_frame s taskId done
          rw [heq]
      | uploadProgress taskId n =>
          obtain ⟨_, _, heq, _⟩ := uploadProgress_frame s taskId n
          rw [heq]
      | _ =>
          dsimp only [Write.apply]
          repeat' split
          all_goals rfl
  | handler h =>
      cases hexec
      obtain ⟨_, _, _, _, _, _, heq⟩ := handler_frame s h
      rw [heq]
  | eventLoop l =>
      cases l with
      | ownClient sess c => exact absurd rfl (hrefresh sess c)
      | sendWithResult sess reply =>
          dsimp only [Stmt.exec, LoopStmt.exec, Shared.sendWithResult] at hexec
          repeat' split at hexec
          all_goals cases hexec
          all_goals rfl
      | startDownload sess ended taskId total =>
          dsimp only [Stmt.exec, LoopStmt.exec] at hexec
          split at hexec
          · cases hexec
            obtain ⟨_, _, heq, _⟩ := maybePublishFtProgress_frame s taskId true
            rw [heq]
          · cases hexec
            rfl
      | _ =>
          dsimp only [Stmt.exec, LoopStmt.exec] at hexec
          repeat' split at hexec
          all_goals cases hexec
          all_goals rfl
  | call c =>
      cases hexec
      obtain ⟨_, _, _, _, _, _, _, _, heq, _⟩ := call_frame s c
      rw [heq]
  | task t =>
      obtain ⟨_, _, _, _, heq⟩ := task_frame hexec
      rw [heq]

/-! ### The own id of a connection -/

section
variable {choice : Choice} {s : Shared} {st : Stmt} {out : NativeOutcome}

/-- An own id changes with a book or behind a reconnect, and the condition excludes both. -/
theorem ownClient_of_yield {c c' : Conn} {i : Incoming} {p : Polled}
    (h : c.yield i = some (c', p)) (hsame : reassigns (.incoming i) c = false) :
    c'.book.ownClient = c.book.ownClient := by
  cases i with
  | book book events =>
      simp only [Conn.yield, Option.ite_none_right_eq_some, Option.some.injEq, Prod.mk.injEq] at h
      obtain ⟨-, rfl, -⟩ := h
      simpa [reassigns] using hsame
  | reconnected book =>
      simp only [Conn.yield, Option.ite_none_right_eq_some, Option.some.injEq, Prod.mk.injEq] at h
      obtain ⟨-, rfl, -⟩ := h
      simpa [reassigns] using hsame
  | _ =>
      simp only [Conn.yield] at h
      repeat' split at h
      all_goals cases h
      all_goals rfl

/-- Writing a connection back with the same own id leaves all own ids. -/
theorem ownClient_setConn {c : Nat} {x : Conn}
    (h : x.book.ownClient = (s.conns c).book.ownClient) (con : Nat) :
    ((s.setConn c x).conns con).book.ownClient = (s.conns con).book.ownClient := by
  by_cases hcon : con = c
  · subst hcon
    rw [conns_setConn_self, h]
  · have heq : (s.setConn c x).conns con = s.conns con := Function.update_of_ne hcon _ _
    rw [heq]

/-- No statement of an event loop but a poll changes an own id. -/
theorem ownClient_of_loop {l : LoopStmt} (hexec : l.exec choice s = some out)
    (hpoll : ∀ sess, l = .poll sess ∨ l = .drain sess →
      reassigns choice (s.conns sess.con) = false)
    (hclose : ∀ sess way, l ≠ .closeStream sess way) (con : Nat) :
    (out.shared.conns con).book.ownClient = (s.conns con).book.ownClient := by
  -- Only `poll` and `drain` let the connection yield an item.
  cases l with
  | closeStream sess way => exact absurd rfl (hclose sess way)
  | ownClient sess c =>
      cases hexec
      simp only [Shared.ownClientIdOrCache]
      repeat' split
      all_goals rfl
  | sendWithResult sess reply =>
      dsimp only [LoopStmt.exec, Shared.sendWithResult] at hexec
      repeat' split at hexec
      all_goals cases hexec
      all_goals first
        | rfl
        | refine ownClient_setConn ?_ con
          first
            | rfl
            | cases reply <;> rfl
  | startDownload sess ended taskId total =>
      dsimp only [LoopStmt.exec] at hexec
      split at hexec
      · cases hexec
        obtain ⟨_, _, heq, _⟩ := maybePublishFtProgress_frame s taskId true
        rw [heq]
      · cases hexec
        rfl
  -- Closing the link keeps the book.
  | disconnect sess way =>
      have hsame : (s.conns sess.con).disconnect.book.ownClient =
          (s.conns sess.con).book.ownClient := by
        unfold Conn.disconnect
        split <;> rfl
      dsimp only [LoopStmt.exec] at hexec
      split at hexec
      · cases hexec
        rfl
      · cases hexec
        exact ownClient_setConn hsame con
  | poll sess =>
      have hsame := hpoll sess (.inl rfl)
      dsimp only [LoopStmt.exec] at hexec
      repeat' split at hexec
      all_goals cases hexec
      all_goals refine ownClient_setConn ?_ con
      all_goals
        next heq =>
          have hid := ownClient_of_yield heq hsame
          exact hid
  | drain sess =>
      have hsame := hpoll sess (.inr rfl)
      dsimp only [LoopStmt.exec] at hexec
      repeat' split at hexec
      all_goals cases hexec
      all_goals refine ownClient_setConn ?_ con
      all_goals
        next heq =>
          have hid := ownClient_of_yield heq hsame
          exact hid
  | _ =>
      dsimp only [LoopStmt.exec] at hexec
      repeat' split at hexec
      all_goals cases hexec
      all_goals first
        | rfl
        | refine ownClient_setConn ?_ con
          rfl

/-- What a statement leads to receives from the queue that the statement received from, over the
same connection. Only a loop that begins takes a connection, from the stash. -/
theorem listens_front (hexec : st.exec choice s = some out) {k : Stmt} (hk : k ∈ out.front)
    {g con : Nat} (hg : listensTo k = some g) (hcon : conOf k = some con) :
    (listensTo st = some g ∧ conOf st = some con) ∨
      (st = .eventLoop (.takeStash g) ∧ s.connectionStash = some con) := by
  -- The statement is one of an event loop, over this session.
  have hloop : ∃ l sess, k = .eventLoop l ∧ sessionOf l = some sess ∧ sess.con = con := by
    cases k with
    | eventLoop l =>
        obtain ⟨sess, hsess, rfl⟩ := Option.map_eq_some_iff.mp hcon
        exact ⟨l, sess, rfl, hsess, rfl⟩
    | _ => cases hcon
  obtain ⟨l', sess', rfl, hsess', rfl⟩ := hloop
  have hconcerns : concerns sess'.con (.eventLoop l') = true := by simp [concerns, hsess']
  cases st with
  | write w =>
      cases hexec
      cases hk
  | handler h =>
      cases hexec
      have haside := isAside_of_handler s h _ hk
      simp [isAside, hg] at haside
  | call c =>
      cases hexec
      have hcalls := calls_of_call s c _ hk
      exact hcalls.elim
  | task t =>
      -- The tasks do not lead to statements of an event loop.
      exfalso
      cases t <;> dsimp only [Stmt.exec, TaskStmt.exec, finishProgram] at hexec
      all_goals repeat' split at hexec
      all_goals cases hexec
      all_goals simp at hk
  | eventLoop l =>
      have hlistens := (asks_of_loop hexec _ hk).2 g hg
      -- A loop that runs goes on with its session, from its queue.
      cases hsess : sessionOf l with
      | some sess =>
          left
          refine ⟨hlistens, ?_⟩
          have heq := con_of_loop hexec hsess sess'.con _ hk hconcerns
          simp [conOf, hsess, heq]
      | none =>
          right
          cases l <;> cases hsess
          obtain rfl := Option.some.inj hlistens
          refine ⟨rfl, ?_⟩
          have hfront := concerns_front hexec hk hconcerns
          rcases hfront with h | h
          · simp [concerns, sessionOf] at h
          · exact h.1

/-- No statement at all does, but a poll and a handshake. -/
theorem ownClient_of_exec (hexec : st.exec choice s = some out)
    (hpoll : ∀ sess, st = .eventLoop (.poll sess) ∨ st = .eventLoop (.drain sess) →
      reassigns choice (s.conns sess.con) = false)
    (hclose : ∀ sess way, st ≠ .eventLoop (.closeStream sess way))
    (hshake : ∀ attempt, st ≠ .task (.handshake attempt)) (con : Nat) :
    (out.shared.conns con).book.ownClient = (s.conns con).book.ownClient := by
  by_cases hcon : concerns con st = false
  · rw [conns_of_exec hexec hcon]
  · cases st with
    | write w =>
        cases hexec
        cases w with
        | dropConnection c =>
            refine ownClient_setConn ?_ con
            rfl
        | stashConnection c => rfl
        | _ => exact absurd rfl hcon
    | eventLoop l =>
        refine ownClient_of_loop hexec (fun sess hsess => hpoll sess ?_)
          (fun sess way heq => ?_) con
        · rcases hsess with rfl | rfl
          · exact .inl rfl
          · exact .inr rfl
        · exact hclose sess way (congrArg Stmt.eventLoop heq)
    | task t =>
        cases t with
        | handshake attempt => exact absurd rfl (hshake attempt)
        | advanceGeneration attempt serverName =>
            cases hexec
            rfl
        | _ => exact absurd rfl hcon
    | _ => exact absurd rfl hcon

end

/-! ### Who serves the queue -/

/-- Each event loop that receives from the queue of the generation has this own id in its book. -/
def Serves (P : Machine) (g : Nat) (clientId : UInt16) : Prop :=
  ∀ t ∈ P.threads, ∀ st ∈ t.prog, listensTo st = some g → ∀ con, conOf st = some con →
    (P.shared.conns con).book.ownClient = clientId

/-- `isLiveId` decides `Serves`: the condition of the run can be evaluated. -/
theorem isLiveId_iff {P : Machine} {g : Nat} {clientId : UInt16} :
    isLiveId P g clientId = true ↔ Serves P g clientId := by
  simp only [isLiveId, Serves, hasOwnId, List.all_eq_true, Bool.or_eq_true, bne_iff_ne,
    Option.all_eq_true, beq_iff_eq]
  constructor
  · intro h t ht st hst hg con hcon
    exact ((h t ht st hst).resolve_left fun hne => hne hg) con hcon
  · intro h t ht st hst
    by_cases hg : listensTo st = some g
    · exact .inr (h t ht st hst hg)
    · exact .inl hg

/-- A statement over a connection concerns it. -/
theorem concerns_of_conOf {st : Stmt} {con : Nat} (h : conOf st = some con) :
    concerns con st = true := by
  cases st with
  | eventLoop l =>
      obtain ⟨sess, hsess, rfl⟩ := Option.map_eq_some_iff.mp h
      simp [concerns, hsess]
  | _ => cases h

/-- While an event loop has more to execute, a statement of its thread leaves the own ids alone. -/
theorem ownClient_of_rest {ok : Machine → NativeLabel → Prop} {P : Machine}
    (hrun : native.Run ok P) {th : NativeThread} {st : Stmt} {rest : List Stmt} {choice : Choice}
    {out : NativeOutcome} (hth : th ∈ P.threads) (hprog : th.prog = st :: rest)
    (hexec : st.exec choice P.shared = some out) {k : Stmt} (hk : k ∈ rest) {c : Nat}
    (hcon : conOf k = some c) (con : Nat) :
    (out.shared.conns con).book.ownClient = (P.shared.conns con).book.ownClient := by
  have hshaped := shaped_of_run hrun th hth
  have hkexec := executes_of_shaped hshaped (hprog ▸ .tail _ hk : k ∈ th.prog)
  have hstexec := executes_of_shaped hshaped (hprog ▸ .head _ : st ∈ th.prog)
  -- The statement that is left belongs to an event loop, so the thread is one.
  obtain ⟨l, rfl⟩ : ∃ l, k = .eventLoop l := by
    cases k with
    | eventLoop l => exact ⟨l, rfl⟩
    | _ => cases hcon
  obtain ⟨g, howner⟩ : ∃ g, th.owner = .eventLoop g := by
    cases howner : th.owner with
    | eventLoop g => exact ⟨g, rfl⟩
    | _ =>
        rw [howner] at hkexec
        exact hkexec.elim
  rw [howner] at hstexec
  -- A statement that ends the iteration is the last one.
  have hbody : st = .eventLoop (.takeStash g) ∨ Body g st ∨ Leaves g st := by
    rcases hstexec with h | h | h | h
    · exact .inl h
    · rw [rest_eq_nil hrun hth hprog h] at hk
      cases hk
    · exact .inr (.inl h)
    · exact .inr (.inr h)
  -- A poll ends the iteration, closing the stream ends the session, and a handshake is of another
  -- task.
  refine ownClient_of_exec hexec ?_ ?_ ?_ con
  · rintro sess (rfl | rfl)
    · rcases hbody with h | h | h
      · cases h
      · exact h.elim
      · exact h.elim
    · rcases hbody with h | h | h
      · cases h
      · exact h.elim
      · exact h.elim
  · rintro sess way rfl
    rcases hbody with h | h | h
    · cases h
    · exact h.elim
    · exact h.elim
  · rintro attempt rfl
    rcases hbody with h | h | h
    · cases h
    · exact h.elim
    · exact h.elim

/-- A step of a thread keeps the own ids of those who serve the queue. -/
theorem serves_step {ok : Machine → NativeLabel → Prop} {P : Machine} (hrun : native.Run ok P)
    {i : Nat} {th : NativeThread} {st : Stmt} {rest : List Stmt} {choice : Choice}
    {out : NativeOutcome} (hth : P.threads[i]? = some th) (hprog : th.prog = st :: rest)
    (hexec : st.exec choice P.shared = some out) {g : Nat} {clientId : UInt16}
    (hserves : Serves P g clientId)
    (hkeeps : keepsServing P.shared choice clientId g st = true) :
    Serves
      { shared := out.shared
        threads := P.threads.set i ⟨th.owner, out.front ++ rest⟩ ++ out.spawn } g clientId := by
  have hmem := List.mem_of_getElem? hth
  have hst : st ∈ th.prog := hprog ▸ .head _
  intro t ht k hk hg con hcon
  dsimp only at ht ⊢
  -- The loop that serves the queue is another thread, the one that ran, or a new one.
  rcases Pool.cases_set_append ht with ⟨j, hji, hu⟩ | rfl | hspawn
  · -- The loop alone has its connection.
    rw [conns_of_other hrun (Ne.symm hji) hth hprog hexec hu hk (concerns_of_conOf hcon)]
    exact hserves t (List.mem_of_getElem? hu) k hk hg con hcon
  -- It goes on behind this statement, or it was still to execute.
  · rcases List.mem_append.mp hk with hfront | hrest
    · rcases listens_front hexec hfront hg hcon with ⟨hg', hcon'⟩ | ⟨rfl, hstash⟩
      · rw [ownClient_of_exec hexec ?_ ?_ ?_ con]
        · exact hserves th hmem st hst hg' con hcon'
        · rintro sess (rfl | rfl)
          · obtain rfl := Option.some.inj hg'
            simpa [keepsServing] using hkeeps
          · obtain rfl := Option.some.inj hg'
            simpa [keepsServing] using hkeeps
        · rintro sess way rfl
          cases hg'
        · rintro attempt rfl
          cases hg'
      · -- The loop begins, with the stashed connection.
        rw [ownClient_of_exec hexec (fun sess h => by rcases h with h | h <;> cases h)
          (fun sess way h => by cases h) (fun attempt h => by cases h) con]
        simpa [keepsServing, hstash, hasOwnId] using hkeeps
    · rw [ownClient_of_rest hrun hmem hprog hexec hrest hcon con]
      exact hserves th hmem k (hprog ▸ .tail _ hrest) hg con hcon
  · -- No new thread has a connection.
    exfalso
    rcases spawn_cases hexec with h | ⟨_, _, h⟩ | ⟨_, _, h⟩ | ⟨_, _, h⟩ | ⟨_, _, _, _, _, h⟩ |
      ⟨_, _, h⟩
    · rw [h] at hspawn
      cases hspawn
    all_goals
      rw [h] at hspawn
      obtain rfl := List.mem_singleton.mp hspawn
      obtain rfl := List.mem_singleton.mp hk
      cases hcon

/-- The outside does too. -/
theorem serves_env {P : Machine} {event : Happening} {s : Shared} {spawn : List NativeThread}
    (henv : event.exec P.shared = some (s, spawn)) {g : Nat} {clientId : UInt16}
    (hserves : Serves P g clientId) :
    Serves { shared := s, threads := P.threads ++ spawn } g clientId := by
  have hown : ∀ con, (s.conns con).book.ownClient = (P.shared.conns con).book.ownClient := by
    intro con
    rcases happening_cases henv with ⟨c, _, rfl, _⟩ | ⟨_, _, rfl, _⟩ | ⟨_, _, _, rfl, _⟩
    · unfold Shared.noteRequest
      split <;> rfl
    · rfl
    · refine ownClient_setConn ?_ con
      rfl
  intro t ht k hk hg con hcon
  dsimp only at ht ⊢
  rw [hown con]
  rcases List.mem_append.mp ht with hold | hnew
  · exact hserves t hold k hk hg con hcon
  · rcases happening_cases henv with ⟨c, _, _, rfl⟩ | ⟨_, _, _, rfl⟩ | ⟨_, _, _, _, rfl⟩
    · obtain rfl := List.mem_singleton.mp hnew
      have hcalls := calls_of_program c k hk
      cases k with
      | eventLoop l => exact hcalls.elim
      | _ => cases hcon
    · cases hnew
    · cases hnew

/-! ### Following the move -/

/-- If the link is up, the client id is the book's. -/
def Live (clientId : UInt16) (c : Conn) : Prop :=
  c.link = .connected → clientId = c.book.ownClient

/-- What is left of the move in a session. -/
inductive Moving (channelId : UInt64) (clientId : UInt16) (sess : Session) (s : Shared) :
    Option UInt64 → List Stmt → Prop
  | compare {password : Option String} : Live clientId (s.conns sess.con) →
      Moving channelId clientId sess s none
        [.eventLoop (.ownClient sess (.moveChannel clientId channelId password none)),
          .eventLoop (.receive sess)]
  | arm {reply : Reply} : Live clientId (s.conns sess.con) → Moving channelId clientId sess s none
      [.write (.armPendingMove channelId), .eventLoop (.sendWithResult sess reply),
        .eventLoop (.receive sess)]
  | send {armed : Option UInt64} {reply : Reply} :
      ((s.conns sess.con).link = .connected →
        clientId = (s.conns sess.con).book.ownClient ∧ armed = some channelId) →
      Moving channelId clientId sess s armed
        [.eventLoop (.sendWithResult sess reply), .eventLoop (.receive sess)]

/-- The move is where the record says. -/
def Follows (k : Nat) (P : Machine) : OwnMove → Prop
  | .absent => True
  | .calling channelId clientId =>
      ∃ th password, P.threads[k]? = some th ∧
        (th.prog = [.call (.trySendCmd (.moveChannel clientId channelId password none))] ∨
          th.prog = [.call (.sendCommand (.moveChannel clientId channelId password none))] ∨
          th.prog = [])
  | .queued channelId clientId g ahead =>
      (∃ password, (P.shared.queues g).commands[ahead]? =
        some (.moveChannel clientId channelId password none)) ∧ Serves P g clientId
  | .taken channelId i clientId armed =>
      ∃ th sess, P.threads[i]? = some th ∧
        Moving channelId clientId sess P.shared armed th.prog
  | .sent channelId clientId ownClient armed => clientId = ownClient ∧ armed = some channelId

variable {channelId : UInt64} {clientId : UInt16} {sess : Session} {s : Shared}
  {armed : Option UInt64}

/-- The link can be lost meanwhile. The book stays. -/
theorem Moving.mono {s' : Shared} {prog : List Stmt}
    (h : Moving channelId clientId sess s armed prog)
    (hconn : (s'.conns sess.con).link = .connected → s'.conns sess.con = s.conns sess.con) :
    Moving channelId clientId sess s' armed prog := by
  cases h with
  | compare hlive =>
      refine .compare fun hlink => ?_
      have heq := hconn hlink
      rw [heq] at hlink ⊢
      exact hlive hlink
  | arm hlive =>
      refine .arm fun hlink => ?_
      have heq := hconn hlink
      rw [heq] at hlink ⊢
      exact hlive hlink
  | send hsend =>
      refine .send fun hlink => ?_
      have heq := hconn hlink
      rw [heq] at hlink ⊢
      exact hsend hlink

theorem Moving.receive_mem {prog : List Stmt} (h : Moving channelId clientId sess s armed prog) :
    .eventLoop (.receive sess) ∈ prog := by
  cases h <;> simp

/-- The comparison of the client ids, if the queued one is the book's. -/
theorem moving_of_ownClient {choice : Choice} {out : NativeOutcome} {password : Option String}
    (hexec : Stmt.exec choice
      (.eventLoop (.ownClient sess (.moveChannel clientId channelId password none))) s = some out)
    (hlive : Live clientId (s.conns sess.con)) :
    Moving channelId clientId sess out.shared none
      (out.front ++ [.eventLoop (.receive sess)]) := by
  have hconns : out.shared.conns = s.conns := by
    cases hexec
    simp only [Shared.ownClientIdOrCache]
    repeat' split
    all_goals rfl
  by_cases hlink : (s.conns sess.con).link = .connected
  · -- The ids agree: the branch that arms the move is taken.
    have hfront : out.front = [.write (.armPendingMove channelId),
        .eventLoop (.sendWithResult sess (.ownMove channelId))] := by
      cases hexec
      simp only [Shared.ownClientIdOrCache, hlink, if_true, ownClientProgram, hlive hlink,
        Option.isNone_none]
    rw [hfront]
    refine .arm ?_
    rw [hconns]
    exact hlive
  · -- Nothing can be sent.
    have hdown : ¬ (out.shared.conns sess.con).link = .connected := by rwa [hconns]
    cases hexec
    dsimp only [ownClientProgram]
    split
    · exact .arm fun h => absurd h hdown
    · exact .send fun h => absurd h hdown

/-- A step of the thread that processes the move. -/
theorem moving_step {k i : Nat} {choice : Choice} {st : Stmt} {rest : List Stmt}
    {out : NativeOutcome} (h : Moving channelId clientId sess s armed (st :: rest))
    (hexec : st.exec choice s = some out) :
    (∃ armed', OwnMove.ran k i choice s st (.taken channelId i clientId armed) =
        .taken channelId i clientId armed' ∧
      Moving channelId clientId sess out.shared armed' (out.front ++ rest)) ∨
    OwnMove.ran k i choice s st (.taken channelId i clientId armed) = .absent ∨
    ∃ ownClient, clientId = ownClient ∧ armed = some channelId ∧
      OwnMove.ran k i choice s st (.taken channelId i clientId armed) =
        .sent channelId clientId ownClient armed := by
  cases h with
  | compare hlive =>
      refine .inl ⟨none, ?_, moving_of_ownClient hexec hlive⟩
      simp only [OwnMove.ran, if_true]
  | arm harm =>
      cases hexec
      refine .inl ⟨some channelId, ?_, .send fun hlink => ⟨harm hlink, rfl⟩⟩
      simp only [OwnMove.ran, if_true]
  | send hsend =>
      right
      simp only [OwnMove.ran, if_true]
      split
      · rename_i htransmits
        obtain ⟨hid, harmed⟩ := hsend (link_of_transmits htransmits)
        exact .inr ⟨_, hid, harmed, rfl⟩
      · exact .inl rfl

/-! ### Runs -/

/-- A thread's step keeps the move where the record says. -/
theorem follows_of_run_step {ok : Machine → NativeLabel → Prop} {k i : Nat} {P P' : Machine}
    {m : OwnMove} (hrun : native.Run ok P) {choice : Choice} (hfollows : Follows k P m)
    (hkeeps : keepsOwnId k (P, m) (.run i choice) = true)
    (hnext : Pool.next nativeLanguage (.run i choice) P = some P') :
    Follows k P' ((moveObserver k).see (.run i choice) P m) := by
  obtain ⟨th, st, rest, out, hth, hprog, hexec, rfl⟩ := Pool.next_run hnext
  have hhead := head_eq hth hprog
  have hsee : (moveObserver k).see (.run i choice) P m = m.ran k i choice P.shared st := by
    simp only [moveObserver, hhead]
  have hself : (P.threads.set i ⟨th.owner, out.front ++ rest⟩ ++ out.spawn)[i]? =
      some ⟨th.owner, out.front ++ rest⟩ := Pool.getElem?_self hth
  have hexec' : st.exec choice P.shared = some out := hexec
  rw [hsee]
  -- The cases follow the record of the move: in its call, in a queue, taken by a loop, or sent.
  cases m with
  | absent => trivial
  | sent channelId clientId ownClient armed => exact hfollows
  | calling channelId clientId =>
      obtain ⟨u, password, hu, hprogram⟩ := hfollows
      -- A step of the call itself. The command is created, then queued.
      by_cases hik : i = k
      · subst hik
        obtain rfl : u = th := by
          rw [hth] at hu
          exact (Option.some.inj hu).symm
        rw [hprog] at hprogram
        rcases hprogram with h | h | h
        · obtain ⟨rfl, rfl⟩ := List.cons.inj h
          cases hexec'
          refine ⟨_, password, hself, ?_⟩
          dsimp only [CallStmt.exec]
          split
          · exact .inr (.inl rfl)
          · exact .inr (.inr rfl)
        · -- The move is queued, or it gets lost.
          obtain ⟨rfl, rfl⟩ := List.cons.inj h
          have hserves : ∀ g, P.shared.commandTx = some g → Serves P g clientId := by
            intro g hg
            rw [keepsOwnId] at hkeeps
            simp only [hhead, hg, Option.all_some, bne_self_eq_false, Bool.false_or] at hkeeps
            exact isLiveId_iff.mp hkeeps
          have hstep : ∀ g, P.shared.commandTx = some g → Serves _ g clientId :=
            fun g hg => serves_step hrun hth hprog hexec' (hserves g hg) rfl
          cases hexec'
          simp only [OwnMove.ran, if_true]
          rcases trySend_frame P.shared (.moveChannel clientId channelId password none) with
            ⟨_, hfalse⟩ | ⟨g, htx, _, htrue, heq⟩
          · split
            · trivial
            · rw [hfalse]
              trivial
          · rw [htx]
            simp only [htrue, if_true]
            refine ⟨⟨password, ?_⟩, hstep g htx⟩
            show (((P.shared.trySend _).1.queues g).commands)[_]? = _
            rw [heq, queues_setQueue, if_pos rfl]
            exact List.getElem?_concat_length
        · cases h
      · have hsame : OwnMove.ran k i choice P.shared st (.calling channelId clientId) =
            .calling channelId clientId := by
          simp only [OwnMove.ran, if_neg hik]
          split <;> rfl
        rw [hsame]
        exact ⟨u, password, Pool.getElem?_of_ne (Ne.symm hik) hu, hprogram⟩
  | queued channelId clientId g ahead =>
      obtain ⟨⟨password, hc⟩, hserves⟩ := hfollows
      -- The condition lets no own id change while the move is queued.
      have hserving : keepsServing P.shared choice clientId g st = true := by
        rw [keepsOwnId] at hkeeps
        simpa only [hhead] using hkeeps
      have hserves' := serves_step hrun hth hprog hexec' hserves hserving
      by_cases hreceive : ∃ sess, st = .eventLoop (.receive sess) ∧ sess.generation = g
      · obtain ⟨sess, rfl, rfl⟩ := hreceive
        have hnil := rest_eq_nil hrun (List.mem_of_getElem? hth) hprog (g := sess.generation) rfl
        have hstep : (LoopStmt.receive sess).exec choice P.shared = some out := hexec
        rcases receive_step hstep with ⟨hempty, _⟩ | ⟨c, cs, hcons, hqueues, _, _, _, hfront⟩
        · rw [hempty] at hc
          cases hc
        · rw [hcons] at hc
          cases ahead with
          | zero =>
              -- It is the command that is received.
              obtain rfl : c = .moveChannel clientId channelId password none := by simpa using hc
              simp only [OwnMove.ran, if_true, hcons]
              refine ⟨_, sess, hself, ?_⟩
              rcases hfront with ⟨hdisconnect, _⟩ | ⟨_, hfront⟩
              · cases hdisconnect
              · rw [hfront, hnil, List.append_nil]
                refine .compare fun _ => Eq.symm ?_
                refine hserves' _ (List.mem_of_getElem? hself) (.eventLoop (.receive sess)) ?_ rfl
                  sess.con rfl
                rw [hfront]
                simp
          -- An older command is received: the move is one place nearer to the front.
          | succ ahead =>
              simp only [OwnMove.ran, if_true]
              refine ⟨⟨password, ?_⟩, hserves'⟩
              rw [hqueues, Function.update_self]
              simpa using hc
      -- A dropped receiver loses the queue, and the move with it.
      · by_cases hdrop : st = .write (.dropReceiver g)
        · subst hdrop
          simp only [OwnMove.ran, if_true]
          trivial
        · have hsame : OwnMove.ran k i choice P.shared st
              (.queued channelId clientId g ahead) = .queued channelId clientId g ahead := by
            simp only [OwnMove.ran]
            split
            · rename_i sess
              rw [if_neg fun h => hreceive ⟨sess, rfl, h⟩]
            · rename_i g'
              rw [if_neg]
              rintro rfl
              exact hdrop rfl
            · rfl
          rw [hsame]
          exact ⟨⟨password, command_kept hexec' (queuesBelow_of_run hrun) hc
            (fun sess h hg => hreceive ⟨sess, h, hg⟩) hdrop⟩, hserves'⟩
  | taken channelId j clientId armed =>
      obtain ⟨u, sess, hu, hmoving⟩ := hfollows
      -- The loop that has the move goes on with it, loses it, or sends it.
      by_cases hij : i = j
      · subst hij
        obtain rfl : u = th := by
          rw [hth] at hu
          exact (Option.some.inj hu).symm
        rw [hprog] at hmoving
        rcases moving_step (k := k) (i := i) hmoving hexec' with
          ⟨armed', hran, hnext⟩ | hran | ⟨ownClient, hid, harmed, hran⟩
        · rw [hran]
          exact ⟨_, sess, hself, hnext⟩
        · rw [hran]
          trivial
        · rw [hran]
          exact ⟨hid, harmed⟩
      · have hsame : OwnMove.ran k i choice P.shared st (.taken channelId j clientId armed) =
            .taken channelId j clientId armed := by
          simp only [OwnMove.ran, if_neg hij]
        rw [hsame]
        refine ⟨u, sess, Pool.getElem?_of_ne (Ne.symm hij) hu, hmoving.mono fun _ => ?_⟩
        -- The loop alone has its connection.
        exact conns_of_other hrun hij hth hprog hexec' hu hmoving.receive_mem
          (by simp [concerns, sessionOf])

/-- The outside does too. -/
theorem follows_of_env_step {k : Nat} {P P' : Machine} {m : OwnMove} {event : Happening}
    (hfollows : Follows k P m) (hnext : Pool.next nativeLanguage (.env event) P = some P') :
    Follows k P' ((moveObserver k).see (.env event) P m) := by
  obtain ⟨s, spawn, henv, rfl⟩ := Pool.next_env hnext
  have henv' : event.exec P.shared = some (s, spawn) := henv
  have hthread : ∀ {i : Nat} {th : NativeThread}, P.threads[i]? = some th →
      (P.threads ++ spawn)[i]? = some th := by
    intro i th hth
    exact (List.getElem?_append_left (List.getElem?_eq_some_iff.mp hth).1).trans hth
  -- The move stays where it was.
  have hstays : Follows k { shared := s, threads := P.threads ++ spawn } m := by
    cases m with
    | absent => trivial
    | sent channelId clientId ownClient armed => exact hfollows
    | calling channelId clientId =>
        obtain ⟨th, password, hth, hprogram⟩ := hfollows
        exact ⟨th, password, hthread hth, hprogram⟩
    | queued channelId clientId g ahead =>
        obtain ⟨⟨password, hc⟩, hserves⟩ := hfollows
        -- Nothing that comes from outside touches the queues.
        have hqueues : s.queues = P.shared.queues := by
          rcases happening_cases henv' with ⟨c, _, rfl, _⟩ | ⟨_, _, rfl, _⟩ | ⟨_, _, _, rfl, _⟩
          · unfold Shared.noteRequest
            split <;> rfl
          · rfl
          · rfl
        refine ⟨⟨password, ?_⟩, serves_env henv' hserves⟩
        rw [hqueues]
        exact hc
    | taken channelId i clientId armed =>
        obtain ⟨th, sess, hth, hmoving⟩ := hfollows
        refine ⟨th, sess, hthread hth, hmoving.mono ?_⟩
        -- Behind a lost link nothing more is claimed of this connection.
        rcases happening_cases henv' with ⟨c, _, rfl, _⟩ | ⟨_, _, rfl, _⟩ | ⟨con, _, _, rfl, _⟩
        · intro _
          unfold Shared.noteRequest
          split <;> rfl
        · exact fun _ => rfl
        · intro hlink
          by_cases hcon : sess.con = con
          · subst hcon
            rw [conns_setConn_self] at hlink
            cases hlink
          · exact Function.update_of_ne hcon _ _
  dsimp only [moveObserver]
  split
  · rename_i hlabel
    cases hlabel
  · rename_i clientId channelId password hlabel
    cases hlabel
    split
    · -- The call begins: it is the new thread.
      rename_i hk
      obtain ⟨_, rfl⟩ := Prod.mk.inj (Option.some.inj henv')
      refine ⟨⟨.call, [.call (.trySendCmd (.moveChannel clientId channelId password none))]⟩,
        password, ?_, .inl rfl⟩
      rw [← hk.1]
      exact List.getElem?_concat_length
    · exact hstays
  · exact hstays

/-- In a run in which the id that the call has read is the live own id when it queues its move, and
stays so while the move is queued, the move is sent with the own id, and `pending_move` is armed
with its channel. -/
theorem addressed_of_run {k : Nat} {P : Machine} {m : OwnMove}
    (hrun : (native.observed (moveObserver k)).Run
      (fun p label => keepsOwnId k p label = true) (P, m)) :
    Addressed m := by
  suffices hfollows : Follows k P m by
    rintro channelId clientId ownClient armed rfl
    exact hfollows
  suffices h : ∀ p : Machine × OwnMove,
      (native.observed (moveObserver k)).Run (fun p label => keepsOwnId k p label = true) p →
        Follows k p.1 p.2 from h (P, m) hrun
  intro p hrun
  induction hrun with
  | @start p h =>
      obtain ⟨_, hm⟩ := h
      rw [hm]
      trivial
  | @step p p' label hrun hlive hnext ih =>
      obtain ⟨P, m⟩ := p
      obtain ⟨P', m'⟩ := p'
      have hreach : native.Reachable P := hrun.of_observed fun _ _ _ => trivial
      obtain ⟨hstep, rfl⟩ := System.next_observed hnext
      cases label with
      | run i choice => exact follows_of_run_step hreach ih hlive hstep
      | env event => exact follows_of_env_step ih hstep

/-- The loop is polling when the call comes in, and it processes the move in its next iteration. -/
def movesToChannel (clientId : UInt16) : List NativeLabel :=
  [.env (.call (.queueCommand (.moveChannel clientId 5 none none))), .run 3 .go, .run 3 .go,
    .run 2 (.incoming .timeout), .run 2 (.incoming .timeout), .run 2 .go] ++
    List.replicate 6 (.run 2 .go)

/-- The move is sent with the own id, and it is armed. -/
theorem addressed_first : ∃ (P : Machine) (m : OwnMove), Addressed m ∧ m = .sent 5 1 1 (some 5) ∧
    P.shared.pendingMove = some (5, 0) := by
  obtain ⟨⟨P, m⟩, hrun, hobs⟩ := System.Run.exists_of_exec (native.observed (moveObserver 3))
    (fun p label => keepsOwnId 3 p label = true) (keepsOwnId 3)
    (publishSteps 0 ++ startSteps 0 ++ iterateSteps 2 ++ movesToChannel 1)
    (fun p => (p.2, p.1.shared.pendingMove)) (s := (⟨Shared.initial, []⟩, .absent))
    (a := (.sent 5 1 1 (some 5), some (5, 0)))
    (fun _ _ h => h) (.start ⟨⟨rfl, rfl⟩, rfl⟩) rfl
  obtain ⟨hm, hmove⟩ := Prod.mk.inj hobs
  exact ⟨P, m, addressed_of_run hrun, hm, hmove⟩

/-- After a temporary disconnect the own id is 2. Client 1 is moved. -/
theorem not_addressed_reassigned : ¬ ∀ (k : Nat) (P : Machine) (m : OwnMove),
    (native.observed (moveObserver k)).Reachable (P, m) → Addressed m := by
  intro hall
  obtain ⟨⟨P, m⟩, hrun, hobs⟩ := System.Run.exists_of_exec (native.observed (moveObserver 3))
    (fun _ _ => True) (fun _ _ => true)
    (publishSteps 0 ++ startSteps 0 ++ iterateSteps 2 ++
      [.run 2 (.incoming (.lost "timeout")), .run 2 (.incoming (.reconnected ⟨2, [], []⟩)),
        .run 2 (.incoming .timeout)] ++ List.replicate 10 (.run 2 .go) ++ movesToChannel 1)
    (fun p => (p.2, p.1.shared.pendingMove)) (s := (⟨Shared.initial, []⟩, .absent))
    (a := (.sent 5 1 2 none, none)) (fun _ _ _ => trivial) (.start ⟨⟨rfl, rfl⟩, rfl⟩) rfl
  obtain ⟨hm, _⟩ := Prod.mk.inj hobs
  have h := hall 3 P m hrun 5 1 2 none hm
  exact absurd h.2 (by simp)

end Nek0.Proofs.Native
