import Nek0.Proofs.Native.Frames
import Nek0.Proofs.Native.Threads

/-!
# `Nek0.Proofs.Native.Ownership`: who a connection belongs to

A connection is named by the connect attempt that opens it. It passes from the connect task to the
stash, and from there to an event loop or to a disconnect call. `concerns con` are the statements
that can touch connection `con`.

At every time at most one thread has such a statement, or the stash holds the connection
(`exclusive_of_run`). A statement that does not concern a connection leaves it alone
(`conns_of_exec`). Thus, while an event loop has a connection, no other thread changes it.
-/

set_option autoImplicit false

namespace Nek0.Proofs.Native

open Nek0.Lib
open Nek0.Native

/-- The session of a loop statement. -/
def sessionOf : LoopStmt → Option Session
  | .takeStash _ => none
  | .top sess => some sess
  | .checkDisconnect sess => some sess
  | .receive sess => some sess
  | .ownClient sess _ => some sess
  | .sendWithResult sess _ => some sess
  | .nextClientFt sess _ => some sess
  | .poll sess => some sess
  | .drain sess => some sess
  | .handle sess _ => some sess
  | .acceptDownload sess _ _ _ => some sess
  | .startDownload sess _ _ _ => some sess
  | .disconnect sess _ => some sess
  | .closeStream sess _ => some sess
  | .guardExit sess _ => some sess

/-- The statement can touch connection `con`, or it passes it on. -/
def concerns (con : Nat) : Stmt → Bool
  | .eventLoop l => (sessionOf l).any fun sess => sess.con == con
  | .write (.stashConnection c) => c == con
  | .write (.dropConnection c) => c == con
  | .task (.handshake attempt) => attempt == con
  | .task (.advanceGeneration attempt _) => attempt == con
  | _ => false

/-- The thread has a statement that concerns `con`. -/
def holdsConn (con : Nat) (t : NativeThread) : Bool := t.prog.any (concerns con)

/-- Where connection `con` is: with how many threads, and in the stash. -/
def holders (con : Nat) (P : Machine) : Nat :=
  Pool.weight (fun s => if s.connectionStash = some con then 1 else 0)
    (fun t => if holdsConn con t then 1 else 0) P

/-! ### What does not concern a connection -/

/-- A loop statement touches the connection of its session only. -/
theorem conns_of_loop {choice : Choice} {s : Shared} {l : LoopStmt} {out : NativeOutcome}
    (hexec : l.exec choice s = some out) {con : Nat}
    (h : ∀ sess, sessionOf l = some sess → sess.con ≠ con) :
    out.shared.conns con = s.conns con := by
  have hset : ∀ (s : Shared) sess c, sessionOf l = some sess →
      (s.setConn sess.con c).conns con = s.conns con := by
    intro s sess c hsess
    exact Function.update_of_ne (Ne.symm (h sess hsess)) c s.conns
  cases l with
  | ownClient sess c =>
      cases hexec
      simp only [Shared.ownClientIdOrCache]
      repeat' split
      all_goals rfl
  | sendWithResult sess reply =>
      dsimp only [LoopStmt.exec, Shared.sendWithResult] at hexec
      repeat' split at hexec
      all_goals cases hexec
      all_goals first
        | rfl
        | exact hset s sess _ rfl
  | startDownload sess ended taskId total =>
      dsimp only [LoopStmt.exec] at hexec
      split at hexec
      · cases hexec
        obtain ⟨_, _, heq, _⟩ := maybePublishFtProgress_frame s taskId true
        rw [heq]
      · cases hexec
        rfl
  | _ =>
      dsimp only [LoopStmt.exec] at hexec
      repeat' split at hexec
      all_goals cases hexec
      all_goals first
        | rfl
        | exact hset _ _ _ rfl

/-- A statement that does not concern a connection leaves it alone. -/
theorem conns_of_exec {choice : Choice} {s : Shared} {st : Stmt} {out : NativeOutcome}
    (hexec : st.exec choice s = some out) {con : Nat} (h : concerns con st = false) :
    out.shared.conns con = s.conns con := by
  cases st with
  | write w =>
      cases hexec
      cases w with
      | downloadProgress taskId done =>
          obtain ⟨_, _, heq, _⟩ := downloadProgress_frame s taskId done
          rw [heq]
      | uploadProgress taskId n =>
          obtain ⟨_, _, heq, _⟩ := uploadProgress_frame s taskId n
          rw [heq]
      -- The dropped connection is the statement's own.
      | dropConnection c =>
          have hne : con ≠ c := by
            rintro rfl
            simp [concerns] at h
          exact Function.update_of_ne hne _ s.conns
      | _ =>
          dsimp only [Write.apply]
          repeat' split
          all_goals rfl
  | handler hs =>
      cases hexec
      obtain ⟨_, _, _, _, _, _, heq⟩ := handler_frame s hs
      rw [heq]
  | eventLoop l =>
      refine conns_of_loop hexec ?_
      rintro sess hsess rfl
      simp [concerns, hsess] at h
  | call c =>
      cases hexec
      obtain ⟨_, _, _, _, _, _, _, _, heq, _⟩ := call_frame s c
      rw [heq]
  | task t =>
      cases t with
      -- The handshake writes the connection of its attempt, and no other.
      | handshake attempt =>
          have hne : con ≠ attempt := by
            rintro rfl
            simp [concerns] at h
          dsimp only [Stmt.exec, TaskStmt.exec] at hexec
          repeat' split at hexec
          all_goals cases hexec
          all_goals first
            | rfl
            | exact Function.update_of_ne hne _ s.conns
      | _ =>
          dsimp only [Stmt.exec, TaskStmt.exec] at hexec
          repeat' split at hexec
          all_goals cases hexec
          all_goals rfl

/-! ### How a connection is passed on -/

theorem con_of_command (sess : Session) (c : Command) (con : Nat) :
    ∀ k ∈ commandProgram sess c, concerns con k = true → sess.con = con := by
  cases c <;> simp [commandProgram, concerns, sessionOf]

/-- A command that looks up the own id stays with its session. -/
theorem con_of_ownClient (sess : Session) (own : UInt32) (c : Command) (con : Nat) :
    ∀ k ∈ ownClientProgram sess own c, concerns con k = true → sess.con = con := by
  have hrefuse : ∀ token message, ∀ k ∈ refuse token message, concerns con k = true →
      sess.con = con := by
    intro token message
    cases token <;> simp [refuse, concerns]
  cases c <;> dsimp only [ownClientProgram]
  all_goals
    repeat' split
    all_goals first
      | exact hrefuse _ _
      | simp [concerns, sessionOf]

/-- Sending a command leads to nothing over a connection. -/
theorem con_of_sendWithResult (s : Shared) (c : Nat) (reply : Reply) (failure : Option String)
    (con : Nat) : ∀ k ∈ (s.sendWithResult c reply failure).front, concerns con k = false := by
  dsimp only [Shared.sendWithResult]
  repeat' split
  all_goals
    cases reply with
    | permOp token => cases token <;> simp [Reply.onSent, Reply.onFailed, concerns]
    | _ => simp [Reply.onSent, Reply.onFailed, concerns]

/-- Nor does handling a stream item. -/
theorem con_of_item (c : Nat) (it : StreamItem) (con : Nat) :
    ∀ k ∈ itemProgram c it, concerns con k = false := by
  cases it with
  | bookEvents events =>
      intro k hk
      obtain ⟨e, _, rfl⟩ := List.mem_map.mp hk
      cases e <;> rfl
  | commandError flags =>
      intro k hk
      obtain ⟨_, _, rfl⟩ := List.mem_map.mp hk
      rfl
  | fileDownload clientFt stream => cases stream <;> simp [itemProgram, concerns]
  | fileUpload clientFt stream => cases stream <;> simp [itemProgram, concerns]
  | _ => simp [itemProgram, concerns]

theorem con_of_leaveProgram (sess : Session) (con : Nat) :
    ∀ k ∈ leaveProgram sess, concerns con k = true → sess.con = con := by
  simp [leaveProgram, concerns]

/-- The exit of a session stays with its connection. -/
theorem con_of_exitProgram (s : Shared) (sess : Session) (way : ExitWay) (con : Nat) :
    ∀ k ∈ exitProgram s sess way, concerns con k = true → sess.con = con := by
  rw [exitProgram, List.forall_mem_append]
  refine ⟨?_, con_of_leaveProgram sess con⟩
  split
  · cases way <;> simp [ExitWay.writes, concerns]
  · simp

/-- What a loop statement leads to belongs to the same session. -/
theorem con_of_loop {choice : Choice} {s : Shared} {l : LoopStmt} {out : NativeOutcome}
    (hexec : l.exec choice s = some out) {sess : Session} (hsess : sessionOf l = some sess)
    (con : Nat) : ∀ k ∈ out.front, concerns con k = true → sess.con = con := by
  -- Every branch goes on with the session that the statement has, or with none.
  cases l with
  | takeStash g => cases hsess
  | ownClient sess' c =>
      cases hsess
      cases hexec
      exact con_of_ownClient sess _ c con
  | sendWithResult sess' reply =>
      have hnone : ∀ failure, ∀ k ∈ (s.sendWithResult sess'.con reply failure).front,
          concerns con k = true → sess.con = con := by
        intro failure k hk hcon
        rw [con_of_sendWithResult s _ reply failure con k hk] at hcon
        cases hcon
      dsimp only [LoopStmt.exec] at hexec
      split at hexec
      all_goals
        cases hexec
        exact hnone _
  | receive sess' =>
      cases hsess
      dsimp only [LoopStmt.exec] at hexec
      split at hexec
      · cases hexec
        simp [concerns, sessionOf]
      · rename_i c rest _
        split at hexec <;> cases hexec
        · simp [concerns, sessionOf]
        · rw [List.forall_mem_append]
          exact ⟨con_of_command sess c con, by simp [concerns, sessionOf]⟩
  -- A stream item is handled aside. What goes on is the loop of the same session.
  | handle sess' ended =>
      cases hsess
      dsimp only [LoopStmt.exec] at hexec
      split at hexec
      · cases hexec
        dsimp only
        split <;> simp [concerns, sessionOf]
      · rename_i it rest _
        cases hexec
        dsimp only
        split
        · simp [concerns, sessionOf]
        · rw [List.forall_mem_append]
          refine ⟨?_, by simp [concerns, sessionOf]⟩
          intro k hk hcon
          rw [con_of_item _ _ con k hk] at hcon
          cases hcon
  | startDownload sess' ended taskId total =>
      cases hsess
      dsimp only [LoopStmt.exec] at hexec
      split at hexec <;> cases hexec
      · simp [concerns, sessionOf]
      · exact con_of_leaveProgram sess con
  | guardExit sess' way =>
      cases hsess
      cases hexec
      exact con_of_exitProgram s sess way con
  | acceptDownload sess' ended clientFt total =>
      cases hsess
      cases hexec
      dsimp only
      split <;> simp [concerns, sessionOf]
  | top sess' =>
      cases hsess
      cases hexec
      dsimp only
      split <;> simp [concerns, sessionOf]
  | _ =>
      cases hsess
      dsimp only [LoopStmt.exec] at hexec
      repeat' split at hexec
      all_goals cases hexec
      all_goals simp [concerns, sessionOf]

/-- A handler statement leads to nothing that concerns a connection. -/
theorem con_of_handler (s : Shared) (h : HandlerStmt) (con : Nat) :
    ∀ k ∈ (h.exec s).front, concerns con k = false := by
  intro k hk
  have hbody := body_of_handler 0 s h k hk
  cases k with
  | write w => cases w <;> first | rfl | exact hbody.elim
  | handler h => rfl
  | eventLoop l =>
      exfalso
      cases h <;> dsimp only [HandlerStmt.exec] at hk
      all_goals
        repeat' split at hk
        all_goals simp at hk
  | _ => exact hbody.elim

/-- A statement that leads to a connection has it, or takes it out of the stash. -/
theorem concerns_front {choice : Choice} {s : Shared} {st : Stmt} {out : NativeOutcome}
    (hexec : st.exec choice s = some out) {con : Nat} {k : Stmt} (hk : k ∈ out.front)
    (hcon : concerns con k = true) :
    concerns con st = true ∨
      (s.connectionStash = some con ∧ out.shared.connectionStash = none) := by
  -- The loop may take the stash, and so may the call that ends a stashed session. The rest goes on
  -- with its own.
  cases st with
  | write w =>
      cases hexec
      cases hk
  | handler h =>
      cases hexec
      rw [con_of_handler s h con k hk] at hcon
      cases hcon
  | eventLoop l =>
      cases hsess : sessionOf l with
      | some sess =>
          left
          simp [concerns, hsess, con_of_loop hexec hsess con k hk hcon]
      -- This branch fails the task for every status, Ok for a download included.
      | none =>
          right
          cases l <;> cases hsess
          obtain ⟨_, ⟨_, _, hfront⟩ | ⟨c, hstash, hshared, hfront⟩⟩ := takeStash_step choice hexec
          · rw [hfront] at hk
            obtain rfl := List.mem_singleton.mp hk
            cases hcon
          · rw [hfront] at hk
            simp only [List.mem_cons, List.not_mem_nil, or_false] at hk
            rcases hk with rfl | rfl
            · cases hcon
            · obtain rfl : c = con := by simpa [concerns, sessionOf] using hcon
              exact ⟨hstash, by rw [hshared]⟩
  | call c =>
      right
      cases hexec
      cases c with
      -- A call that finds a stashed connection takes it out and disconnects it.
      | disconnectStashed =>
          dsimp only [CallStmt.exec] at hk ⊢
          split at hk
          · cases hk
          · rename_i c hstash
            simp only [List.mem_cons, List.not_mem_nil, or_false] at hk
            rcases hk with rfl | rfl
            · obtain rfl : c = con := by simpa [concerns] using hcon
              exact ⟨hstash, rfl⟩
            · cases hcon
      | _ =>
          exfalso
          dsimp only [CallStmt.exec] at hk
          repeat' split at hk
          all_goals simp only [List.mem_cons, List.not_mem_nil, or_false] at hk
          all_goals
            repeat' rcases hk with rfl | hk
            all_goals cases hcon
  -- A connect task hands its connection from the handshake to the stash.
  | task t =>
      left
      cases t with
      | handshake attempt =>
          dsimp only [Stmt.exec, TaskStmt.exec] at hexec
          repeat' split at hexec
          all_goals cases hexec
          all_goals simp only [List.mem_cons, List.not_mem_nil, or_false] at hk
          · rcases hk with rfl | rfl
            · cases hcon
            · exact hcon
          · subst hk
            cases hcon
          · subst hk
            exact hcon
      | advanceGeneration attempt serverName =>
          cases hexec
          simp only [List.mem_cons, List.not_mem_nil, or_false] at hk
          rcases hk with rfl | rfl | rfl | rfl
          · cases hcon
          · cases hcon
          · exact hcon
          · cases hcon
      | _ =>
          exfalso
          dsimp only [Stmt.exec, TaskStmt.exec, finishProgram] at hexec
          repeat' split at hexec
          all_goals cases hexec
          all_goals
            try dsimp only at hk
            try split at hk
          all_goals simp only [List.mem_cons, List.not_mem_nil, or_false] at hk
          all_goals
            repeat' rcases hk with rfl | hk
            all_goals cases hcon

/-- Only a connect task, an event loop and a disconnect call touch the stash. -/
theorem stash_of_exec {choice : Choice} {s : Shared} {st : Stmt} {out : NativeOutcome}
    (hexec : st.exec choice s = some out) :
    out.shared.connectionStash = s.connectionStash ∨
      (∃ con, st = .write (.stashConnection con) ∧ out.shared.connectionStash = some con) ∨
      (∃ g, st = .eventLoop (.takeStash g)) ∨ st = .call .disconnectStashed := by
  cases st with
  | write w =>
      cases hexec
      cases w with
      | stashConnection con => exact .inr (.inl ⟨con, rfl, rfl⟩)
      | downloadProgress taskId done =>
          obtain ⟨_, _, heq, _⟩ := downloadProgress_frame s taskId done
          exact .inl (by rw [heq])
      | uploadProgress taskId n =>
          obtain ⟨_, _, heq, _⟩ := uploadProgress_frame s taskId n
          exact .inl (by rw [heq])
      | _ =>
          left
          dsimp only [Write.apply]
          repeat' split
          all_goals rfl
  | handler h =>
      cases hexec
      obtain ⟨_, _, _, _, _, _, heq⟩ := handler_frame s h
      exact .inl (by rw [heq])
  -- Of the event loop's statements the frame lemma leaves one, and of the calls one.
  | eventLoop l =>
      obtain ⟨_, _, _, _, _, _, _, _, _, _, _, _, heq, _, hstash⟩ := loop_frame hexec
      rcases hstash with hstash | ⟨g, rfl⟩
      · exact .inl (by rw [heq]; exact hstash)
      · exact .inr (.inr (.inl ⟨g, rfl⟩))
  | call c =>
      cases hexec
      obtain ⟨_, _, _, _, _, _, _, _, heq, _, hstash⟩ := call_frame s c
      rcases hstash with hstash | rfl
      · exact .inl (by rw [heq]; exact hstash)
      · exact .inr (.inr (.inr rfl))
  | task t =>
      obtain ⟨_, _, _, _, heq⟩ := task_frame hexec
      exact .inl (by rw [heq])

/-- A connection gets into the stash only when a connect task stashes it. -/
theorem unstashed_of_exec {choice : Choice} {s : Shared} {st : Stmt} {out : NativeOutcome}
    (hexec : st.exec choice s = some out) {con : Nat} (hne : s.connectionStash ≠ some con)
    (hst : st ≠ .write (.stashConnection con)) : out.shared.connectionStash ≠ some con := by
  intro h
  rcases stash_of_exec hexec with heq | ⟨c, rfl, heq⟩ | ⟨g, rfl⟩ | rfl
  · exact hne (heq ▸ h)
  · obtain rfl : con = c := by
      rw [h] at heq
      exact Option.some.inj heq
    exact hst rfl
  · obtain ⟨_, ⟨_, hshared, _⟩ | ⟨_, _, hshared, _⟩⟩ := takeStash_step choice hexec
    · exact hne (hshared ▸ h)
    · rw [hshared] at h
      cases h
  · cases hexec
    dsimp only [CallStmt.exec] at h
    split at h
    · exact hne h
    · cases h

/-- A call has no connection. -/
theorem con_of_program (c : Call) (con : Nat) : ∀ k ∈ c.program, concerns con k = false := by
  cases c <;> simp only [Call.program]
  all_goals
    try split
    all_goals simp [concerns]

/-! ### One holder at a time -/

/-- Only an accepted `ts_connect` starts a thread that has a connection: a new one. -/
theorem holdsConn_spawn {choice : Choice} {s : Shared} {st : Stmt} {out : NativeOutcome}
    (hexec : st.exec choice s = some out) {con : Nat} {t : NativeThread} (ht : t ∈ out.spawn)
    (hcon : holdsConn con t = true) :
    con = s.history.attempts + 1 ∧ out.shared.history.attempts = s.history.attempts + 1 ∧
      out.spawn = [t] ∧ t.prog = [.task (.handshake con)] := by
  -- A new connect task gets the next attempt. An event loop is started without a connection of its
  -- own.
  cases st with
  | write w =>
      cases hexec
      cases ht
  | handler h =>
      exfalso
      cases hexec
      cases h <;> dsimp only [HandlerStmt.exec] at ht
      all_goals
        repeat' split at ht
        all_goals first
          | exact absurd ht List.not_mem_nil
          | obtain rfl := List.mem_singleton.mp ht
            cases hcon
  | eventLoop l =>
      exfalso
      cases l <;> dsimp only [Stmt.exec, LoopStmt.exec, Shared.sendWithResult] at hexec
      all_goals repeat' split at hexec
      all_goals cases hexec
      all_goals first
        | exact absurd ht List.not_mem_nil
        | obtain rfl := List.mem_singleton.mp ht
          cases hcon
  | call c =>
      cases hexec
      cases c with
      | connect =>
          dsimp only [CallStmt.exec] at ht ⊢
          split at ht
          · cases ht
          · obtain rfl := List.mem_singleton.mp ht
            obtain rfl : s.history.attempts + 1 = con := by
              simpa [holdsConn, concerns] using hcon
            rename_i h
            rw [if_neg h]
            exact ⟨rfl, rfl, rfl, rfl⟩
      | _ =>
          exfalso
          dsimp only [CallStmt.exec] at ht
          repeat' split at ht
          all_goals cases ht
  | task t =>
      exfalso
      cases t <;> dsimp only [Stmt.exec, TaskStmt.exec] at hexec
      all_goals repeat' split at hexec
      all_goals cases hexec
      all_goals first
        | exact absurd ht List.not_mem_nil
        | obtain rfl := List.mem_singleton.mp ht
          cases hcon

/-- Only `ts_connect` counts an attempt. -/
theorem attempts_of_exec {choice : Choice} {s : Shared} {st : Stmt} {out : NativeOutcome}
    (hexec : st.exec choice s = some out) :
    s.history.attempts ≤ out.shared.history.attempts := by
  cases st with
  | write w =>
      cases hexec
      cases w with
      | downloadProgress taskId done =>
          obtain ⟨_, _, heq, _⟩ := downloadProgress_frame s taskId done
          rw [heq]
      | uploadProgress taskId n =>
          obtain ⟨_, _, heq, _⟩ := uploadProgress_frame s taskId n
          rw [heq]
      | _ =>
          dsimp only [Write.apply]
          repeat' split
          all_goals exact Nat.le_refl _
  | handler h =>
      cases hexec
      obtain ⟨_, _, _, _, _, _, heq⟩ := handler_frame s h
      rw [heq]
  | eventLoop l =>
      obtain ⟨_, _, _, _, _, _, _, _, _, _, _, _, heq, _⟩ := loop_frame hexec
      rw [heq]
  | call c =>
      cases hexec
      have hsend : ∀ cmd, (s.trySend cmd).1.history.attempts = s.history.attempts := by
        intro cmd
        rcases trySend_frame s cmd with ⟨heq, _⟩ | ⟨_, _, _, _, heq⟩ <;> rw [heq]
        rfl
      cases c with
      -- An accepted connect is counted, a refused one is not.
      | connect =>
          dsimp only [CallStmt.exec]
          split
          · exact Nat.le_refl _
          · exact Nat.le_succ _
      | sendDisconnect => exact (hsend _).ge
      | sendCommand cmd => exact (hsend _).ge
      | sendTransfer taskId t => exact (hsend _).ge
      | _ =>
          dsimp only [CallStmt.exec]
          repeat' split
          all_goals exact Nat.le_refl _
  | task t =>
      obtain ⟨_, _, _, _, heq⟩ := task_frame hexec
      rw [heq]

/-- The thread that ran and the stash have a connection only if they had it before. -/
theorem holds_step {choice : Choice} {s : Shared} {owner : Owner} {st : Stmt} {rest : List Stmt}
    {out : NativeOutcome} (hexec : st.exec choice s = some out)
    (hshaped : Shaped ⟨owner, st :: rest⟩) (con : Nat) :
    (if out.shared.connectionStash = some con then 1 else 0) +
        (if holdsConn con ⟨owner, out.front ++ rest⟩ then 1 else 0) ≤
      (if s.connectionStash = some con then 1 else 0) +
        (if holdsConn con ⟨owner, st :: rest⟩ then 1 else 0) := by
  by_cases hst : ∃ c, st = .write (.stashConnection c)
  · -- The connect task stashes its connection, and only the start of the event loop is left.
    obtain ⟨c, rfl⟩ := hst
    cases hexec
    obtain ⟨g, rfl⟩ : ∃ g, rest = [.task (.spawnEventLoop g)] := by
      cases owner with
      | connect attempt =>
          rcases hshaped with hcon | ⟨g, _, _, _, hsuffix⟩
          · cases hcon
          · simp only [startProgram, List.suffix_cons_iff, List.cons.injEq, List.suffix_nil]
              at hsuffix
            rcases hsuffix with ⟨h, _⟩ | ⟨h, _⟩ | ⟨_, rfl⟩ | ⟨h, _⟩ | h
            · cases h
            · cases h
            · exact ⟨g, rfl⟩
            · cases h
            · cases h
      | call => exact (hshaped _ List.mem_cons_self).elim
      | listTimer => exact (hshaped _ List.mem_cons_self).elim
      | worker taskId => exact (hshaped _ List.mem_cons_self).elim
      | eventLoop g =>
          rcases hshaped with hbegin | hiter | hleave
          · cases hbegin
          · rcases hiter.cons with ⟨h, _⟩ | ⟨h, _⟩ <;> exact h.elim
          · exact (hleave _ List.mem_cons_self).elim
    by_cases hc : c = con
    · subst hc
      simp [Write.apply, holdsConn, concerns]
    · simp [Write.apply, holdsConn, concerns, hc]
  -- The stash gains a connection by `stashConnection` only.
  · have hstash : out.shared.connectionStash = some con → s.connectionStash = some con := by
      intro h
      rcases stash_of_exec hexec with heq | ⟨c, rfl, _⟩ | ⟨g, rfl⟩ | rfl
      · rw [← heq]
        exact h
      · exact absurd ⟨c, rfl⟩ hst
      · obtain ⟨_, ⟨_, hshared, _⟩ | ⟨_, _, hshared, _⟩⟩ := takeStash_step choice hexec
        · rw [← hshared]
          exact h
        · rw [hshared] at h
          cases h
      · cases hexec
        dsimp only [CallStmt.exec] at h
        split at h
        · exact h
        · cases h
    -- Does the step lead to a statement that has the connection?
    by_cases hfront : ∃ k ∈ out.front, concerns con k = true
    · obtain ⟨k, hk, hcon⟩ := hfront
      rcases concerns_front hexec hk hcon with hself | ⟨hhad, hgone⟩
      · have hbefore : holdsConn con ⟨owner, st :: rest⟩ = true :=
          List.any_eq_true.mpr ⟨st, List.mem_cons_self, hself⟩
        rw [hbefore]
        split <;> split <;> simp_all
      -- The connection goes from the stash to the thread.
      · rw [hgone, hhad, if_neg (by simp), if_pos rfl]
        split <;> omega
    · have hafter : holdsConn con ⟨owner, out.front ++ rest⟩ = true →
          holdsConn con ⟨owner, st :: rest⟩ = true := by
        intro h
        obtain ⟨k, hk, hcon⟩ := List.any_eq_true.mp h
        rcases List.mem_append.mp hk with hk | hk
        · exact absurd ⟨k, hk, hcon⟩ hfront
        · exact List.any_eq_true.mpr ⟨k, .tail _ hk, hcon⟩
      split <;> split <;> simp_all

/-- At most one thread, or the stash, has a connection, and nobody has one that no connect attempt
was made for. -/
def Exclusive (P : Machine) : Prop :=
  ∀ con, holders con P ≤ 1 ∧ (P.shared.history.attempts < con → holders con P = 0)

/-- In every run a connection has one holder at most, and one that was not counted yet has none. -/
theorem exclusive_of_run {ok : Machine → NativeLabel → Prop} {P : Machine}
    (hrun : native.Run ok P) : Exclusive P := by
  refine hrun.invariant_of (P := Exclusive) (fun P h => shaped_of_run h) ?_ ?_
  · rintro P ⟨hshared, hthreads⟩ con
    rw [holders, Pool.weight, hthreads, hshared]
    exact ⟨Nat.zero_le 1, fun _ => rfl⟩
  · rintro P P' label hshaped _ hexcl _ hnext con
    obtain ⟨hone, hzero⟩ := hexcl con
    cases label with
    | run i choice =>
        obtain ⟨th, st, rest, out, hth, hprog, hexec, hshared, hw⟩ :=
          Pool.weight_run (fun s : Shared => if s.connectionStash = some con then 1 else 0)
            (fun t => if holdsConn con t then 1 else 0) hnext
        have hth' : th = ⟨th.owner, st :: rest⟩ := by rw [← hprog]
        have hsh : Shaped ⟨th.owner, st :: rest⟩ := hth' ▸ hshaped th (List.mem_of_getElem? hth)
        have hstep := holds_step hexec hsh con
        have hattempts := attempts_of_exec hexec
        rw [← hth'] at hstep
        change holders con P' + _ = holders con P + _ at hw
        rw [hshared]
        -- A new connection had no holder: its attempt is counted by this very step.
        by_cases hspawn : ∃ t ∈ out.spawn, holdsConn con t = true
        · obtain ⟨t, ht, hcon⟩ := hspawn
          obtain ⟨rfl, hcount, hsingle, _⟩ := holdsConn_spawn hexec ht hcon
          have hnone := hzero (Nat.lt_succ_self _)
          rw [hsingle, Pool.threadsWeight_cons, Pool.threadsWeight_nil, if_pos hcon] at hw
          omega
        -- The new threads have no connection.
        · have hnew : Pool.threadsWeight (fun t => if holdsConn con t then 1 else 0)
              out.spawn = 0 := by
            refine List.sum_eq_zero ?_
            intro n hn
            obtain ⟨t, ht, rfl⟩ := List.mem_map.mp hn
            rw [if_neg fun h => hspawn ⟨t, ht, h⟩]
          rw [hnew] at hw
          omega
    | env event =>
        obtain ⟨s, spawn, henv, hshared, hw⟩ :=
          Pool.weight_env (fun s : Shared => if s.connectionStash = some con then 1 else 0)
            (fun t => if holdsConn con t then 1 else 0) hnext
        change holders con P' + _ = holders con P + _ at hw
        rw [hshared]
        rcases happening_cases henv with ⟨c, _, rfl, rfl⟩ | ⟨_, _, rfl, rfl⟩ | ⟨_, _, _, rfl, rfl⟩
        -- The thread of a call has no connection.
        · have hcall : holdsConn con ⟨.call, c.program⟩ = false :=
            List.any_eq_false.mpr fun k hk => by simp [con_of_program c con k hk]
          rw [Pool.threadsWeight_cons, hcall, Pool.threadsWeight_nil] at hw
          have hstash : (P.shared.noteRequest c).connectionStash = P.shared.connectionStash := by
            unfold Shared.noteRequest
            split <;> rfl
          have hattempts : (P.shared.noteRequest c).history.attempts =
              P.shared.history.attempts := by
            unfold Shared.noteRequest
            split <;> rfl
          rw [hstash] at hw
          rw [hattempts]
          simp only [Bool.false_eq_true, if_false] at hw
          omega
        · rw [Pool.threadsWeight_nil] at hw
          simp only at hw ⊢
          omega
        · rw [Pool.threadsWeight_nil] at hw
          change holders con P' + (if P.shared.connectionStash = some con then 1 else 0) =
            holders con P + ((if P.shared.connectionStash = some con then 1 else 0) + 0) at hw
          change holders con P' ≤ 1 ∧ (P.shared.history.attempts < con → holders con P' = 0)
          omega

/-- While a thread has a connection, no other thread has it. -/
theorem not_holdsConn_of_other {ok : Machine → NativeLabel → Prop} {P : Machine}
    (hrun : native.Run ok P) {con i j : Nat} {t u : NativeThread} (hij : j ≠ i)
    (hi : P.threads[i]? = some t) (hj : P.threads[j]? = some u)
    (ht : holdsConn con t = true) : holdsConn con u = false := by
  have hone := (exclusive_of_run hrun con).1
  have hle := Pool.add_le_threadsWeight (fun t => if holdsConn con t then 1 else 0) hij hi hj
  simp only [holders, Pool.weight] at hone
  rw [if_pos ht] at hle
  by_contra hu
  rw [if_pos (by simpa using hu)] at hle
  omega

/-- While a thread has a connection, the steps of the other threads leave it alone. -/
theorem conns_of_other {ok : Machine → NativeLabel → Prop} {P : Machine} (hrun : native.Run ok P)
    {con i j : Nat} {th u : NativeThread} {st : Stmt} {rest : List Stmt} {choice : Choice}
    {out : NativeOutcome} (hij : i ≠ j) (hth : P.threads[i]? = some th)
    (hprog : th.prog = st :: rest) (hexec : st.exec choice P.shared = some out)
    (hu : P.threads[j]? = some u) {k : Stmt} (hk : k ∈ u.prog) (hcon : concerns con k = true) :
    out.shared.conns con = P.shared.conns con := by
  have hother := not_holdsConn_of_other hrun hij hu hth (List.any_eq_true.mpr ⟨k, hk, hcon⟩)
  have hst := List.any_eq_false.mp hother st (by rw [hprog]; exact List.mem_cons_self)
  exact conns_of_exec hexec (by simpa using hst)

/-- While a thread has a connection, the stash does not have it. -/
theorem stash_ne_of_holdsConn {ok : Machine → NativeLabel → Prop} {P : Machine}
    (hrun : native.Run ok P) {con : Nat} {t : NativeThread} (ht : t ∈ P.threads)
    (hcon : holdsConn con t = true) : P.shared.connectionStash ≠ some con := by
  intro hstash
  have hone := (exclusive_of_run hrun con).1
  have hle := Pool.le_threadsWeight (fun t => if holdsConn con t then 1 else 0) ht
  simp only [holders, Pool.weight, if_pos hstash] at hone
  rw [if_pos hcon] at hle
  omega

/-- A thread that has a connection has that of an accepted attempt. -/
theorem le_attempts_of_holdsConn {ok : Machine → NativeLabel → Prop} {P : Machine}
    (hrun : native.Run ok P) {con : Nat} {t : NativeThread} (ht : t ∈ P.threads)
    (hcon : holdsConn con t = true) : con ≤ P.shared.history.attempts := by
  by_contra hlt
  have hzero := (exclusive_of_run hrun con).2 (by omega)
  have hle := Pool.le_threadsWeight (fun t => if holdsConn con t then 1 else 0) ht
  simp only [holders, Pool.weight] at hzero
  rw [if_pos hcon] at hle
  omega

end Nek0.Proofs.Native
