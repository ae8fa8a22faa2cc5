import Nek0.Proofs.Native.Isolation
import Nek0.Proofs.Native.Ownership

/-!
# `Nek0.Proofs.Native.CleanEnd`: what a finished session leaves behind

`EndedCleanly` says what holds of the shared state when no thread is working on a session:
`connected` is false, `COMMAND_TX` is `None`, the tables of the pending operations are empty, and as
many `Disconnected` events were pushed as sessions were opened.

`endsCleanly` is the condition under which every session ends so. The generation is advanced only
when no thread is working on a session, a disconnect call never finds a connection in the stash, an
accepted download never finds its task gone, and the exit check never finds an entry in
`FT_TASK_BY_RC`.

Two invariants carry the proof. `Attended`: whatever a session leaves in the shared state, some
thread is still to remove it. `Announced`: a session that was opened has its `Disconnected` event
pushed, or some thread is still to push it.
-/

set_option autoImplicit false

namespace Nek0.Proofs.Native

open Nek0.Lib
open Nek0.Native

/-- The condition under which every session ends cleanly. -/
def endsCleanly (P : Machine) (st : Stmt) : Bool :=
  sequential P st &&
    match st with
    | .call .disconnectStashed => P.shared.connectionStash.isNone
    | .eventLoop (.startDownload _ _ taskId _) => decide (taskId ∈ P.shared.ftTasks)
    | .eventLoop (.guardExit _ _) => Table.isEmpty P.shared.ftTaskByRc
    | _ => true

/-- All sessions so far have ended cleanly, and `ts_connect` is accepted unless a connect is under
way. -/
structure EndedCleanly (s : Shared) : Prop where
  connected : s.connected = false
  commandTx : s.commandTx = none
  ftLists : s.ftLists = ∅
  ftOps : s.ftOps = ∅
  permOps : s.permOps = ∅
  ftTaskByRc : s.ftTaskByRc = ∅
  disconnected : eventCount isDisconnected s = s.connectionGeneration
  accepts : s.connecting = false → ((CallStmt.connect).exec s).spawn ≠ []

/-! ### What a session leaves in the shared state -/

/-- What a session puts into the shared state. -/
inductive Remainder where
  | connected
  | commandTx
  | ftLists
  | ftOps
  | permOps
  | ftTaskByRc

/-- The remainder is in the shared state. -/
def Remainder.In (s : Shared) : Remainder → Prop
  | .connected => s.connected = true
  | .commandTx => s.commandTx ≠ none
  | .ftLists => s.ftLists ≠ ∅
  | .ftOps => s.ftOps ≠ ∅
  | .permOps => s.permOps ≠ ∅
  | .ftTaskByRc => s.ftTaskByRc ≠ ∅

/-- A statement with which the event loop goes on. -/
def iterating : Stmt → Bool
  | .eventLoop (.ownClient _ _) => false
  | .eventLoop (.sendWithResult _ _) => false
  | .eventLoop (.nextClientFt _ _) => false
  | .eventLoop _ => true
  | _ => false

/-- The write removes the remainder. -/
def clears : Write → Remainder → Bool
  | .setConnected b, .connected => !b
  | .endSession _, .connected => true
  | .dropCommandTx, .commandTx => true
  | .clearFtLists, .ftLists => true
  | .clearFtOps, .ftOps => true
  | .clearPermOps, .permOps => true
  | _, _ => false

/-- The statement removes the remainder, or a thread with it is still to get to that. -/
def Removes (st : Stmt) (r : Remainder) : Prop :=
  starts st = true ∨ iterating st = true ∨ ∃ w, st = .write w ∧ clears w r = true

/-- Every remainder is still to be removed. -/
def Attended (P : Machine) : Prop :=
  ∀ r, r.In P.shared → Pool.ThreadsHold Removes P.threads r

/-- The writes that can put something into the shared state. -/
def creates : Write → Bool
  | .setConnected b => b
  | .installCommandTx _ => true
  | .publish _ _ => true
  | .insertPermOp _ _ _ => true
  | .insertFtOp _ _ _ => true
  | .insertFtTaskByRc _ _ _ => true
  | .insertFtList _ _ _ _ _ => true
  | .addListRows _ _ _ => true
  | _ => false

/-- Other writes put nothing into it, and what they remove is not there any more. -/
theorem in_of_write {s : Shared} {w : Write} (hw : creates w = false) {r : Remainder}
    (hr : r.In (w.apply s)) : r.In s ∧ ¬ Removes (.write w) r := by
  suffices h : r.In s ∧ clears w r = false by
    refine ⟨h.1, ?_⟩
    rintro (hs | hi | ⟨w', heq, hc⟩)
    · cases hs
    · cases hi
    · cases heq
      rw [h.2] at hc
      cases hc
  cases w with
  | downloadProgress taskId done =>
      obtain ⟨_, _, heq, _⟩ := downloadProgress_frame s taskId done
      rw [heq] at hr
      exact ⟨by cases r <;> exact hr, rfl⟩
  | uploadProgress taskId n =>
      obtain ⟨_, _, heq, _⟩ := uploadProgress_frame s taskId n
      rw [heq] at hr
      exact ⟨by cases r <;> exact hr, rfl⟩
  | _ =>
      dsimp only [Write.apply] at hr
      repeat' split at hr
      all_goals
        cases r <;> simp_all [Remainder.In, clears, creates, Shared.pushEvent, Shared.setQueue,
          Shared.setConn]

/-- What neither starts nor iterates a session, and is no write, removes nothing. -/
theorem not_removes {st : Stmt} (hs : starts st = false) (hi : iterating st = false)
    (hw : ∀ w, st ≠ .write w) {r : Remainder} : ¬ Removes st r := by
  rintro (h | h | ⟨w, rfl, _⟩)
  · rw [hs] at h
    cases h
  · rw [hi] at h
    cases h
  · exact hw w rfl

/-- The step puts nothing into the shared state, and what the statement removes is not there any
more. -/
def Inert (s : Shared) (st : Stmt) (s' : Shared) : Prop :=
  ∀ r : Remainder, r.In s' → r.In s ∧ ¬ Removes st r

/-- `finish_ft_task` leaves nothing of a session behind. -/
theorem inert_of_finishFtTask (s : Shared) (taskId : TaskId) (ok : Bool) (error : Option String)
    (origin : Option Origin) :
    Inert s (.handler (.finishFtTask taskId ok error origin))
      ((HandlerStmt.finishFtTask taskId ok error origin).exec s).shared := by
  intro r hr
  dsimp only [HandlerStmt.exec] at hr
  split at hr
  · exact ⟨hr, not_removes rfl rfl (by simp)⟩
  · exact ⟨by cases r <;> exact hr, not_removes rfl rfl (by simp)⟩

/-- The statements of a call leave nothing of a session behind, and remove nothing of one. -/
theorem inert_of_calls {choice : Choice} {s : Shared} {st : Stmt} {out : NativeOutcome}
    (hexec : st.exec choice s = some out) (hst : Calls st) : Inert s st out.shared := by
  cases st with
  | write w =>
      cases hexec
      intro r hr
      refine in_of_write ?_ hr
      cases w <;> first | rfl | exact hst.elim
  | handler h =>
      cases hexec
      cases h with
      | finishFtTask taskId ok error origin => exact inert_of_finishFtTask s taskId ok error origin
      | _ => exact hst.elim
  | eventLoop l => exact hst.elim
  | call c =>
      cases hexec
      obtain ⟨_, _, _, _, _, _, _, _, heq, _⟩ := call_frame s c
      intro r hr
      rw [heq] at hr
      exact ⟨by cases r <;> exact hr, not_removes rfl rfl (by simp)⟩
  | task t => exact hst.elim

/-- The same of the statements of a worker. -/
theorem inert_of_works {taskId : TaskId} {choice : Choice} {s : Shared} {st : Stmt}
    {out : NativeOutcome} (hexec : st.exec choice s = some out) (hst : Works taskId st) :
    Inert s st out.shared := by
  cases st with
  | write w =>
      cases hexec
      intro r hr
      refine in_of_write ?_ hr
      cases w <;> first | rfl | exact hst.elim
  | handler h =>
      cases hexec
      cases h with
      | finishFtTask id ok error origin => exact inert_of_finishFtTask s id ok error origin
      | _ => exact hst.elim
  | eventLoop l => exact hst.elim
  | call c => exact hst.elim
  | task t =>
      intro r hr
      cases t
      all_goals first
        | exact hst.elim
        | dsimp only [Stmt.exec, TaskStmt.exec] at hexec
      all_goals repeat' split at hexec
      all_goals cases hexec
      all_goals exact ⟨hr, not_removes rfl rfl (by simp)⟩

/-- The same of the timer of a file list. Emptying the lists is no leaving behind. -/
theorem inert_of_finalizes {choice : Choice} {s : Shared} {st : Stmt} {out : NativeOutcome}
    (hexec : st.exec choice s = some out) (hst : Finalizes st) : Inert s st out.shared := by
  cases st with
  | write w =>
      cases hexec
      intro r hr
      refine in_of_write ?_ hr
      cases w <;> first | rfl | exact hst.elim
  | task t =>
      intro r hr
      cases t with
      | finalizeFtList code timer =>
          dsimp only [Stmt.exec, TaskStmt.exec] at hexec
          split at hexec <;> cases hexec
          · exact ⟨hr, not_removes rfl rfl (by simp)⟩
          · refine ⟨?_, not_removes rfl rfl (by simp)⟩
            cases r with
            | ftLists =>
                intro hempty
                rw [Remainder.In, hempty, Table.erase_empty] at hr
                exact hr rfl
            | _ => exact hr
      | _ => exact hst.elim
  | _ => exact hst.elim

/-- Nor do the last writes of an event loop. -/
theorem inert_of_leaves {g : Nat} {choice : Choice} {s : Shared} {st : Stmt} {out : NativeOutcome}
    (hexec : st.exec choice s = some out) (hst : Leaves g st) : Inert s st out.shared := by
  obtain ⟨w, rfl, rfl⟩ := leaves_step hexec hst
  intro r hr
  refine in_of_write ?_ hr
  cases w <;> first | rfl | exact hst | exact hst.elim

/-- The same of a connect task until it starts the event loop. -/
theorem inert_of_connecting {choice : Choice} {s : Shared} {st : Stmt} {rest : List Stmt}
    {out : NativeOutcome} (hexec : st.exec choice s = some out)
    (hcon : Connecting (st :: rest)) : Inert s st out.shared := by
  intro r hr
  cases hcon with
  | handshake =>
      dsimp only [Stmt.exec, TaskStmt.exec] at hexec
      split at hexec
      all_goals cases hexec
      all_goals exact ⟨by cases r <;> exact hr, not_removes rfl rfl (by simp)⟩
  | announce =>
      cases hexec
      exact in_of_write rfl hr
  | advance =>
      cases hexec
      exact ⟨by cases r <;> exact hr, not_removes rfl rfl (by simp)⟩
  | fail =>
      cases hexec
      exact in_of_write rfl hr

/-- What removes something of a session belongs to the session. -/
theorem inSession_of_removes {st : Stmt} {r : Remainder} (h : Removes st r) :
    inSession st = true := by
  rcases h with h | h | ⟨w, rfl, hw⟩
  · cases st with
    | task t => cases t <;> first | rfl | cases h
    | _ => cases h
  · cases st with
    | eventLoop l => rfl
    | _ => cases h
  · cases w <;> first | rfl | cases hw

/-! ### The stash -/

/-- The thread is to take the connection, or the next one is. -/
def TakesStash (t : NativeThread) : Prop :=
  ∃ g, t.prog = [.eventLoop (.takeStash g)] ∨ t.prog = [.task (.spawnEventLoop g)]

/-- A thread that takes the connection works on a session. -/
theorem working_of_takesStash {t : NativeThread} (hshaped : Shaped t) (h : TakesStash t) :
    working t = true := by
  obtain ⟨g, hprog | hprog⟩ := h
  all_goals exact working_of_inSession hshaped (by rw [hprog]; exact List.mem_cons_self) rfl

/-- An iteration does not take the stash. -/
theorem not_takesStash_of_iteration {g : Nat} {owner : Owner} {prog : List Stmt}
    (h : Iteration g prog) : ¬ TakesStash ⟨owner, prog⟩ := by
  rintro ⟨g', hprog | hprog⟩
  all_goals
    rw [show prog = _ from hprog] at h
    rcases h.cons with ⟨hst, _⟩ | ⟨hst, _⟩ <;> exact hst.elim

theorem not_takesStash_of_leaves {g : Nat} {owner : Owner} {prog : List Stmt}
    (h : ∀ st ∈ prog, Leaves g st) : ¬ TakesStash ⟨owner, prog⟩ := by
  rintro ⟨g', hprog | hprog⟩
  all_goals exact h _ (by rw [show prog = _ from hprog]; exact List.mem_cons_self)

/-- A thread comes to take the connection only after it was stashed. -/
theorem takesStash_step {choice : Choice} {s : Shared} {owner : Owner} {st : Stmt}
    {rest : List Stmt} {out : NativeOutcome} (hexec : st.exec choice s = some out)
    (hshaped : Shaped ⟨owner, st :: rest⟩) (h : TakesStash ⟨owner, out.front ++ rest⟩) :
    ∃ con, st = .write (.stashConnection con) := by
  -- A thread that is to take the stash is at work, so it is a connect task in its start or an event
  -- loop.
  have hworking := working_of_takesStash (shaped_step hexec hshaped).1 h
  cases owner with
  | connect attempt =>
      rcases hshaped with hcon | ⟨g, hstart⟩
      · rcases (connecting_step hexec hcon).2 with hself | ⟨_, _, _, hself⟩
        · rw [not_working_of_connecting hself] at hworking
          cases hworking
        · obtain ⟨g, hprog | hprog⟩ := h <;> simp [hself, startProgram] at hprog
      · obtain ⟨attempt, serverName, book, hsuffix⟩ := hstart
        rw [(starting_step hexec ⟨attempt, serverName, book, hsuffix⟩).1, List.nil_append] at h
        simp only [startProgram, List.suffix_cons_iff, List.cons.injEq, List.suffix_nil] at hsuffix
        obtain ⟨g, hprog | hprog⟩ := h
        all_goals
          simp only at hprog
          subst hprog
          simp at hsuffix
        exact ⟨_, hsuffix.1⟩
  -- An event loop takes the connection once, with its first statement. Behind that it never does.
  | eventLoop g =>
      exfalso
      rcases hshaped with hbegin | hiter | hleave
      · obtain ⟨rfl, rfl⟩ := List.cons.inj hbegin
        rw [List.append_nil] at h
        obtain ⟨_, ⟨_, _, hfront⟩ | ⟨con, _, _, hfront⟩⟩ := takeStash_step choice hexec
        all_goals obtain ⟨g', hprog | hprog⟩ := h <;> simp [hfront] at hprog
      · rcases hiter.cons with ⟨hst, rfl⟩ | ⟨hst, hrest⟩
        · rw [List.append_nil] at h
          cases st with
          | eventLoop l =>
              rcases (iterates_step hexec hst).1 with hfront | ⟨hfront, _⟩
              · exact not_takesStash_of_iteration hfront h
              · exact not_takesStash_of_leaves (hfront.leaves hst) h
          | _ => exact hst.elim
        · exact not_takesStash_of_iteration (.append (body_step hexec hst).1 hrest) h
      · obtain ⟨w, rfl, rfl⟩ := leaves_step hexec (hleave st List.mem_cons_self)
        exact not_takesStash_of_leaves (fun k hk => hleave k (.tail _ hk)) h
  | call => cases hworking
  | listTimer => cases hworking
  | worker taskId => cases hworking

/-- A new thread takes the connection only from a thread that was to start it. -/
theorem takesStash_spawn {choice : Choice} {s : Shared} {owner : Owner} {st : Stmt}
    {rest : List Stmt} {out : NativeOutcome} (hexec : st.exec choice s = some out)
    (hshaped : Shaped ⟨owner, st :: rest⟩) {t : NativeThread} (ht : t ∈ out.spawn)
    (h : TakesStash t) : TakesStash ⟨owner, st :: rest⟩ := by
  have hworking := working_of_takesStash ((shaped_step hexec hshaped).2 t ht) h
  by_cases hst : starts st = true
  · obtain ⟨g, attempt, _, hstart⟩ := starting_of_starts hshaped hst
    rcases (starting_step hexec hstart).2.2 with hspawn | ⟨rfl, rfl, _⟩
    · simp [hspawn] at ht
    · exact ⟨g, .inr rfl⟩
  · rw [not_working_of_spawn hexec (by simpa using hst) t ht] at hworking
    cases hworking

theorem sequential_of_endsCleanly {P : Machine} {st : Stmt} (h : endsCleanly P st = true) :
    sequential P st = true :=
  (Bool.and_eq_true_iff.mp h).1

/-- While a thread is to take the connection, the stash holds one. -/
theorem stashed_of_run {P : Machine} (hrun : RunUnder (fun P _ => endsCleanly P) P) :
    ∀ t ∈ P.threads, TakesStash t → P.shared.connectionStash ≠ none := by
  -- The invariant is kept by each thread on its own, so the rule for pools applies.
  suffices h : Pool.Keeps (fun _ => True)
      (fun s t => TakesStash t → s.connectionStash ≠ none) P from h.threads
  refine hrun.invariant_of
    (P := Pool.Keeps (fun _ => True) fun s t => TakesStash t → s.connectionStash ≠ none)
    (fun P h => And.intro (shaped_of_run h)
      (solo_of_run (fun _ _ _ h => sequential_of_endsCleanly h) h)) ?_ ?_
  · rintro P ⟨_, hthreads⟩
    exact ⟨trivial, by simp [hthreads]⟩
  · rintro P P' label ⟨hshaped, hsolo⟩ _ hkeeps hok hnext
    cases label with
    | run i choice =>
        refine Pool.keeps_run hnext hkeeps ?_
        intro th st rest out hth hprog hexec
        have hmem := List.mem_of_getElem? hth
        have hth' : th = ⟨th.owner, st :: rest⟩ := by rw [← hprog]
        have hsh : Shaped ⟨th.owner, st :: rest⟩ := hth' ▸ hshaped th hmem
        have hstash := stash_of_exec hexec
        have hcond : endsCleanly P st = true := Pool.cond_of_checks hok hth hprog
        -- What holds of a thread before the step holds after it.
        have hkept : ∀ t, (TakesStash t → P.shared.connectionStash ≠ none) →
            ((∃ g, st = .eventLoop (.takeStash g)) → ¬ TakesStash t) →
            TakesStash t → out.shared.connectionStash ≠ none := by
          intro t ht hidle htakes
          -- The four ways in which a statement changes the stash, or leaves it.
          rcases hstash with h | ⟨con, _, h⟩ | h | rfl
          · rw [h]
            exact ht htakes
          · rw [h]
            exact Option.some_ne_none con
          -- A stash that is emptied by `endStashed` was empty: the condition says so.
          · exact absurd htakes (hidle h)
          · have hnone : P.shared.connectionStash = none := by
              simpa [endsCleanly, sequential] using hcond
            exact absurd hnone (ht htakes)
        refine ⟨trivial, ?_, ?_, ?_⟩
        -- Another thread: while this one works, that one does not take the stash.
        · rintro t ⟨j, hij, hj⟩ ht
          refine hkept t ht ?_
          rintro ⟨g, rfl⟩ htakes
          have hw : working th = true :=
            working_of_inSession (hshaped th hmem) (by rw [hprog]; exact List.mem_cons_self) rfl
          have hidle := idle_of_working hsolo hij hth hj hw
          rw [working_of_takesStash (hshaped t (List.mem_of_getElem? hj)) htakes] at hidle
          cases hidle
        -- The thread itself: the connection was stashed just now.
        · intro htakes
          obtain ⟨con, rfl⟩ := takesStash_step hexec hsh htakes
          cases hexec
          exact Option.some_ne_none con
        -- A thread that it has started takes over.
        · intro t ht htakes
          have hwas := takesStash_spawn hexec hsh ht htakes
          rw [← hth'] at hwas
          refine hkept th (hkeeps.threads th hmem) ?_ hwas
          rintro ⟨g, rfl⟩ _
          rw [(takeStash_step choice hexec).1] at ht
          simp at ht
    | env event =>
        refine Pool.keeps_env hnext hkeeps ?_
        intro s spawn henv
        rcases happening_cases henv with ⟨c, _, rfl, rfl⟩ | ⟨_, _, rfl, rfl⟩ | ⟨_, _, _, rfl, rfl⟩
        · refine ⟨trivial, ?_, ?_⟩
          · intro t _ ht
            unfold Shared.noteRequest
            split <;> exact ht
          · intro t ht htakes
            obtain rfl := List.mem_singleton.mp ht
            have hw := working_of_takesStash (show Shaped ⟨.call, c.program⟩ from
              calls_of_program c) htakes
            cases hw
        · exact ⟨trivial, fun t _ ht => ht, by simp⟩
        · exact ⟨trivial, fun t _ ht => ht, by simp⟩

/-! ### Every remainder is still to be removed -/

/-- An exit removes everything but the transfers that wait for an answer. -/
theorem exitWay_clears (way : ExitWay) {r : Remainder} (hr : r ≠ .ftTaskByRc) :
    ∃ w ∈ way.writes, clears w r = true := by
  cases way <;> cases r <;> first | exact absurd rfl hr | simp [ExitWay.writes, clears]

/-- A loop that iterates will remove everything, since it will leave. -/
theorem removes_of_iterates {g : Nat} {st : Stmt} (h : Iterates g st) (r : Remainder) :
    Removes st r := by
  refine .inr (.inl ?_)
  cases st with
  | eventLoop l => cases l <;> first | rfl | exact h.elim
  | _ => exact h.elim

/-- The exit check of the current session leads to the removal of everything else. -/
theorem removes_of_guardExit {s : Shared} {sess : Session} {way : ExitWay} {r : Remainder}
    (hgen : s.connectionGeneration = sess.generation) (hne : r ≠ .ftTaskByRc) :
    Pool.ProgHolds Removes (exitProgram s sess way) r := by
  obtain ⟨w, hw, hclears⟩ := exitWay_clears way hne
  rw [exitProgram, if_pos hgen]
  exact ⟨.write w, List.mem_append_left _ (List.mem_map_of_mem hw), .inr (.inr ⟨w, rfl, hclears⟩)⟩

/-- A step of the event loop of the current session keeps every remainder attended. -/
theorem attended_of_eventLoop {g : Nat} {choice : Choice} {s : Shared} {st : Stmt}
    {rest : List Stmt} {out : NativeOutcome} (hexec : st.exec choice s = some out)
    (hshaped : Shaped ⟨.eventLoop g, st :: rest⟩)
    (hworks : WorksOn s.connectionGeneration ⟨.eventLoop g, st :: rest⟩)
    (hstash : TakesStash ⟨.eventLoop g, st :: rest⟩ → s.connectionStash ≠ none)
    (hdownload : ∀ sess ended taskId total,
      st = .eventLoop (.startDownload sess ended taskId total) → taskId ∈ s.ftTasks)
    {r : Remainder} (hexit : ∀ sess way, st = .eventLoop (.guardExit sess way) → r ≠ .ftTaskByRc) :
    Inert s st out.shared ∨ Pool.ProgHolds Removes (out.front ++ rest) r := by
  -- The loop begins, is in an iteration, or is on its way out.
  rcases hshaped with hbegin | hiter | hleave
  · obtain ⟨rfl, rfl⟩ := List.cons.inj hbegin
    obtain ⟨_, ⟨hnone, _, _⟩ | ⟨con, _, _, hfront⟩⟩ := takeStash_step choice hexec
    · exact absurd hnone (hstash ⟨g, .inl rfl⟩)
    · have htop : Iterates g (.eventLoop (.top ⟨g, con⟩)) := rfl
      refine .inr ⟨_, ?_, removes_of_iterates htop r⟩
      simp [hfront]
  · rcases hiter.cons with ⟨hst, rfl⟩ | ⟨hst, hrest⟩
    · rw [List.append_nil]
      -- The statement is the one that ends the program, so it leads to another one or out of the
      -- loop.
      have hit : ∃ l, st = .eventLoop l := by
        cases st with
        | eventLoop l => exact ⟨l, rfl⟩
        | _ => exact hst.elim
      obtain ⟨l, rfl⟩ := hit
      rcases (iterates_step hexec hst).1 with hfront | ⟨hfront, -⟩
      · obtain ⟨k, hk, hkit⟩ := hfront.exists_iterates
        exact .inr ⟨k, hk, removes_of_iterates hkit r⟩
      · rcases hfront with ⟨sess, ended, taskId, total, rfl, hgone, _⟩ | ⟨sess, way, rfl, hfront⟩
        -- The loop is left by an exit whose guard holds: its session is the current one.
        · exact absurd (hdownload _ _ _ _ rfl) hgone
        · obtain rfl : sess.generation = g := hst
          have hgen : s.connectionGeneration = sess.generation := by
            rcases hworks rfl with h | ⟨⟨_, h⟩, _⟩
            · injection h with h
              exact h.symm
            · cases h
          rw [hfront]
          exact .inr (removes_of_guardExit hgen (hexit _ _ rfl))
    · obtain ⟨k, hk, hkit⟩ := hrest.exists_iterates
      exact .inr ⟨k, List.mem_append_right _ hk, removes_of_iterates hkit r⟩
  -- On the way out nothing is added to the remainders any more.
  · exact .inl (inert_of_leaves hexec (hleave st List.mem_cons_self))

/-- What a session leaves in the shared state, some thread is still to remove. -/
theorem attended_of_run {P : Machine} (hrun : RunUnder (fun P _ => endsCleanly P) P) :
    Attended P := by
  refine hrun.invariant_of (P := Attended)
    (fun P h => And.intro (shaped_of_run h) (And.intro
      (worksOn_of_run (fun _ _ _ h => sequential_of_endsCleanly h) h) (stashed_of_run h))) ?_ ?_
  -- At the start nothing is left.
  · rintro P ⟨hshared, _⟩ r hr
    rw [hshared] at hr
    cases r <;> exact absurd hr (by simp [Remainder.In, Shared.initial])
  · rintro P P' label ⟨hshaped, hworks, hstashed⟩ _ hatt hok hnext r hr
    cases label with
    | run i choice =>
        obtain ⟨th, st, rest, out, hth, hprog, hexec, hshared, hkept, hnew⟩ :=
          Pool.held_run Removes hnext
        rw [hshared] at hr
        have hmem := List.mem_of_getElem? hth
        have hth' : th = ⟨th.owner, st :: rest⟩ := by rw [← hprog]
        have hsh : Shaped ⟨th.owner, st :: rest⟩ := hth' ▸ hshaped th hmem
        have hcond : endsCleanly P st = true := Pool.cond_of_checks hok hth hprog
        -- A statement that neither leaves nor removes anything keeps the thread that is to remove
        -- it.
        have hinert : Inert P.shared st out.shared → Pool.ThreadsHold Removes P'.threads r := by
          intro h
          obtain ⟨hin, hnot⟩ := h r hr
          exact (hkept r (hatt r hin)).resolve_left hnot
        cases howner : th.owner with
        | call =>
            rw [howner] at hsh
            exact hinert (inert_of_calls hexec (hsh st List.mem_cons_self))
        | listTimer =>
            rw [howner] at hsh
            exact hinert (inert_of_finalizes hexec (hsh st List.mem_cons_self))
        | worker taskId =>
            rw [howner] at hsh
            exact hinert (inert_of_works hexec (hsh st List.mem_cons_self))
        | connect attempt =>
            rw [howner] at hsh
            rcases hsh with hcon | ⟨g, hstart⟩
            · exact hinert (inert_of_connecting hexec hcon)
            -- The connect task is to start the event loop, which will remove it. If it does so now,
            -- the new thread is to.
            · rcases List.mem_cons.mp (hstart.exists_starts (List.cons_ne_nil st rest)) with
                rfl | hrest
              · cases hexec
                exact hnew r (.inr ⟨_, List.mem_singleton_self _, _, List.mem_cons_self,
                  .inr (.inl rfl)⟩)
              · exact hnew r (.inl ⟨_, List.mem_append_right _ hrest, .inl rfl⟩)
        | eventLoop g =>
            have hloop : th = ⟨.eventLoop g, st :: rest⟩ := by rw [hth', howner]
            have hsplit := attended_of_eventLoop hexec (hloop ▸ hshaped th hmem)
              (hloop ▸ hworks th hmem) (hloop ▸ hstashed th hmem)
              (by
                rintro sess ended taskId total rfl
                simpa [endsCleanly, sequential] using hcond)
              (r := r) (by
                rintro sess way rfl rfl
                cases hexec
                exact hr (by simpa [endsCleanly, sequential] using hcond))
            rcases hsplit with h | h
            · exact hinert h
            · exact hnew r (.inl h)
    -- A call of the app starts a thread and touches nothing of a session.
    | env event =>
        obtain ⟨s, spawn, henv, hshared, hkept⟩ := Pool.held_env Removes hnext
        rw [hshared] at hr
        refine hkept r (.inl (hatt r ?_))
        rcases happening_cases henv with ⟨c, _, rfl, _⟩ | ⟨_, _, rfl, _⟩ | ⟨_, _, _, rfl, _⟩
        · unfold Shared.noteRequest at hr
          split at hr
          · cases r <;> exact hr
          · exact hr
        · cases r <;> exact hr
        · cases r <;> exact hr

/-! ### The `Disconnected` events -/

/-- A write with a `Disconnected` event, or a thread that is still to get to one. -/
def announces : Stmt → Nat
  | .write (.push e _) => if isDisconnected e then 1 else 0
  | .write (.endSession _) => 1
  | st => if starts st || iterating st then 1 else 0

theorem not_isDisconnected (e : TsEvent) (h : isNotice e = true) : isDisconnected e = false := by
  cases e <;> first | rfl | cases h

/-- The `Disconnected` events that were pushed and those that are still to be pushed. -/
def announced (P : Machine) : Nat :=
  Pool.weight (eventCount isDisconnected) (Pool.pendingWeight announces) P

/-- What does not belong to a session announces nothing. -/
theorem announces_of_not_inSession {st : Stmt} (h : inSession st = false) : announces st = 0 := by
  cases st with
  | write w =>
      cases w with
      | push e origin => cases e <;> first | rfl | cases h
      | _ => first | rfl | cases h
  | eventLoop l => cases h
  | task t => cases t <;> first | rfl | cases h
  | _ => rfl

/-- Nor does a statement of a body. -/
theorem announces_of_body {g : Nat} {st : Stmt} (h : Body g st) : announces st = 0 := by
  cases st with
  | write w =>
      cases w with
      | push e origin => cases e <;> first | rfl | exact h.elim
      | _ => first | rfl | exact h.elim
  | eventLoop l => cases l <;> first | rfl | exact h.elim
  | _ => first | rfl | exact h.elim

theorem announces_of_iterates {g : Nat} {st : Stmt} (h : Iterates g st) : announces st = 1 := by
  cases st with
  | eventLoop l => cases l <;> first | rfl | exact h.elim
  | _ => exact h.elim

/-- A thread that is not working on a session announces nothing. -/
theorem announces_of_idle {t : NativeThread} (hshaped : Shaped t) (hidle : working t = false) :
    Pool.pendingWeight announces t = 0 := by
  refine List.sum_eq_zero ?_
  intro n hn
  obtain ⟨st, hst, rfl⟩ := List.mem_map.mp hn
  refine announces_of_not_inSession ?_
  by_contra hin
  rw [working_of_inSession hshaped hst (by simpa using hin)] at hidle
  cases hidle

/-- An iteration announces one `Disconnected` event. -/
theorem announces_of_iteration {g : Nat} {prog : List Stmt} (h : Iteration g prog) :
    Pool.progWeight announces prog = 1 := by
  induction h with
  | last hst => rw [Pool.progWeight_cons, announces_of_iterates hst, Pool.progWeight_nil]
  | body hst _ ih => rw [Pool.progWeight_cons, announces_of_body hst, ih]

/-- So does what is left of a connect task after the advance. -/
theorem announces_of_starting {g : Nat} {prog : List Stmt} (h : Starting g prog) :
    Pool.progWeight announces prog = if prog = [] then 0 else 1 := by
  obtain ⟨attempt, serverName, book, hsuffix⟩ := h
  simp only [startProgram, List.suffix_cons_iff, List.suffix_nil] at hsuffix
  rcases hsuffix with rfl | rfl | rfl | rfl | rfl <;> rfl

/-- An exit of the current session announces one. -/
theorem announces_of_exit {s : Shared} {sess : Session} {way : ExitWay}
    (hgen : s.connectionGeneration = sess.generation) :
    Pool.progWeight announces (exitProgram s sess way) = 1 := by
  rw [exitProgram, if_pos hgen]
  cases way <;> rfl

/-- The threads that a statement starts announce nothing, unless it starts an event loop. -/
theorem announces_of_spawn {choice : Choice} {s : Shared} {owner : Owner} {st : Stmt}
    {rest : List Stmt} {out : NativeOutcome} (hexec : st.exec choice s = some out)
    (hshaped : Shaped ⟨owner, st :: rest⟩) (hst : starts st = false) :
    Pool.threadsWeight (Pool.pendingWeight announces) out.spawn = 0 := by
  refine List.sum_eq_zero ?_
  intro n hn
  obtain ⟨t, ht, rfl⟩ := List.mem_map.mp hn
  exact announces_of_idle ((shaped_step hexec hshaped).2 t ht)
    (not_working_of_spawn hexec hst t ht)

/-- A write announces what it pushes. -/
theorem pushes_write (w : Write) : pushes isDisconnected (.write w) = announces (.write w) := by
  cases w <;> rfl

/-- A statement that announces nothing pushes nothing. -/
theorem pushes_of_zero {st : Stmt} (h : announces st = 0) : pushes isDisconnected st = 0 := by
  cases st with
  | write w => rw [pushes_write, h]
  | _ => rfl

/-- What a step of an event loop announces, it has announced before. -/
theorem announced_of_eventLoop {g : Nat} {choice : Choice} {s : Shared} {st : Stmt}
    {rest : List Stmt} {out : NativeOutcome} (hexec : st.exec choice s = some out)
    (hshaped : Shaped ⟨.eventLoop g, st :: rest⟩)
    (hworks : WorksOn s.connectionGeneration ⟨.eventLoop g, st :: rest⟩)
    (hstash : TakesStash ⟨.eventLoop g, st :: rest⟩ → s.connectionStash ≠ none)
    (hdownload : ∀ sess ended taskId total,
      st = .eventLoop (.startDownload sess ended taskId total) → taskId ∈ s.ftTasks) :
    pushes isDisconnected st + Pool.progWeight announces (out.front ++ rest) =
      Pool.progWeight announces (st :: rest) := by
  -- The loop begins, iterates or leaves. It announces one event as long as it has not left.
  rcases hshaped with hbegin | hiter | hleave
  · obtain ⟨rfl, rfl⟩ := List.cons.inj hbegin
    obtain ⟨_, ⟨hnone, _, _⟩ | ⟨con, _, _, hfront⟩⟩ := takeStash_step choice hexec
    -- The stash holds the connection, so the loop comes to iterate.
    · exact absurd hnone (hstash ⟨g, .inl rfl⟩)
    · rw [hfront]
      rfl
  · rw [announces_of_iteration hiter]
    rcases hiter.cons with ⟨hst, rfl⟩ | ⟨hst, hrest⟩
    · rw [List.append_nil]
      have hit : ∃ l, st = .eventLoop l := by
        cases st with
        | eventLoop l => exact ⟨l, rfl⟩
        | _ => exact hst.elim
      obtain ⟨l, rfl⟩ := hit
      rw [show pushes isDisconnected (.eventLoop l) = 0 from rfl, Nat.zero_add]
      -- The statement goes on with the iteration, or leaves the session.
      rcases (iterates_step hexec hst).1 with hfront | ⟨hfront, _⟩
      · exact announces_of_iteration hfront
      · rcases hfront with ⟨sess, ended, taskId, total, rfl, hgone, _⟩ | ⟨sess, way, rfl, hfront⟩
        · exact absurd (hdownload _ _ _ _ rfl) hgone
        · obtain rfl : sess.generation = g := hst
          -- The session that leaves is the current one, so it announces its own end.
          have hgen : s.connectionGeneration = sess.generation := by
            rcases hworks rfl with h | ⟨⟨_, h⟩, _⟩
            · injection h with h
              exact h.symm
            · cases h
          rw [hfront]
          exact announces_of_exit hgen
    · rw [pushes_of_zero (announces_of_body hst), Nat.zero_add]
      exact announces_of_iteration (.append (body_step hexec hst).1 hrest)
  · obtain ⟨w, rfl, rfl⟩ := leaves_step hexec (hleave st List.mem_cons_self)
    rw [List.nil_append, Pool.progWeight_cons, pushes_write]

/-- What a step of a connect task announces, it has announced before, or it has opened a new
session. -/
theorem announced_of_connect {attempt : Nat} {choice : Choice} {s : Shared} {st : Stmt}
    {rest : List Stmt} {out : NativeOutcome} (hexec : st.exec choice s = some out)
    (hshaped : Shaped ⟨.connect attempt, st :: rest⟩) :
    pushes isDisconnected st + Pool.progWeight announces (out.front ++ rest) +
        Pool.threadsWeight (Pool.pendingWeight announces) out.spawn + s.connectionGeneration =
      Pool.progWeight announces (st :: rest) + out.shared.connectionGeneration := by
  -- A new session opens with the generation. The task then announces its event until the loop does.
  rcases hshaped with hcon | ⟨g, hstart⟩
  · obtain ⟨hspawn, hself⟩ := connecting_step hexec hcon
    have hidle := announces_of_idle (t := ⟨.connect attempt, st :: rest⟩) (.inl hcon)
      (not_working_of_connecting hcon)
    have hzero : announces st = 0 :=
      announces_of_not_inSession (not_inSession_of_connecting hcon st List.mem_cons_self)
    simp only [Pool.pendingWeight] at hidle
    rw [hspawn, Pool.threadsWeight_nil, pushes_of_zero hzero, hidle]
    rcases hself with hself | ⟨a, serverName, rfl, hself⟩
    · have hafter := announces_of_idle (t := ⟨.connect attempt, out.front ++ rest⟩) (.inl hself)
        (not_working_of_connecting hself)
      simp only [Pool.pendingWeight] at hafter
      rw [hafter]
      -- The generation goes up with `advanceGeneration` only, which this task has not come to.
      rcases generation_of_exec hexec with hgen | ⟨a, serverName, rfl, _⟩
      · rw [hgen]
      · cases hcon
        cases hexec
        cases hself
    · cases hexec
      rw [hself]
      simp [startProgram, announces, starts, iterating, Shared.setQueue]
      omega
  -- The start of the session: the statements that are left announce the event, or the new thread
  -- does.
  · obtain ⟨hfront, hrest, hspawn⟩ := starting_step hexec hstart
    have hgen : out.shared.connectionGeneration = s.connectionGeneration := by
      rcases generation_of_exec hexec with h | ⟨a, serverName, rfl, _⟩
      · exact h
      · obtain ⟨_, _, _, hsuffix⟩ := hstart
        simp [startProgram, List.suffix_cons_iff] at hsuffix
    have hnow : pushes isDisconnected st = 0 := by
      obtain ⟨_, _, _, hsuffix⟩ := hstart
      simp only [startProgram, List.suffix_cons_iff, List.cons.injEq, List.suffix_nil] at hsuffix
      rcases hsuffix with ⟨rfl, _⟩ | ⟨rfl, _⟩ | ⟨rfl, _⟩ | ⟨rfl, _⟩ | h
      all_goals first
        | rfl
        | cases h
    rw [hfront, List.nil_append, hgen, hnow, announces_of_starting hrest,
      announces_of_starting hstart, if_neg (List.cons_ne_nil st rest)]
    rcases hspawn with hspawn | ⟨_, rfl, hspawn⟩
    · have hne : rest ≠ [] := by
        rintro rfl
        rcases List.mem_cons.mp (hstart.exists_starts (List.cons_ne_nil st [])) with rfl | h
        · cases hexec
          simp at hspawn
        · simp at h
      rw [hspawn, if_neg hne]
      simp
    · rw [hspawn]
      rfl

/-- Every session that was opened has its `Disconnected` event, or some thread is still to push
it. -/
theorem announced_of_run {P : Machine} (hrun : RunUnder (fun P _ => endsCleanly P) P) :
    announced P = P.shared.connectionGeneration := by
  refine hrun.invariant_of (P := fun P => announced P = P.shared.connectionGeneration)
    (fun P h => And.intro (shaped_of_run h) (And.intro
      (worksOn_of_run (fun _ _ _ h => sequential_of_endsCleanly h) h) (stashed_of_run h))) ?_ ?_
  · rintro P ⟨hshared, hthreads⟩
    rw [announced, Pool.weight, hthreads, hshared]
    rfl
  · rintro P P' label ⟨hshaped, hworks, hstashed⟩ _ hann hok hnext
    cases label with
    | run i choice =>
        obtain ⟨th, st, rest, out, hth, hprog, hexec, hshared, hw⟩ :=
          Pool.weight_run (eventCount isDisconnected) (Pool.pendingWeight announces) hnext
        have hmem := List.mem_of_getElem? hth
        have hth' : th = ⟨th.owner, st :: rest⟩ := by rw [← hprog]
        have hsh : Shaped ⟨th.owner, st :: rest⟩ := hth' ▸ hshaped th hmem
        have hcond : endsCleanly P st = true := Pool.cond_of_checks hok hth hprog
        change announced P' + _ = announced P + _ at hw
        rw [eventCount_of_exec not_isDisconnected hexec, hann, hth'] at hw
        rw [hshared]
        suffices h : pushes isDisconnected st + Pool.progWeight announces (out.front ++ rest) +
            Pool.threadsWeight (Pool.pendingWeight announces) out.spawn +
              P.shared.connectionGeneration =
            Pool.progWeight announces (st :: rest) + out.shared.connectionGeneration by
          simp only [Pool.pendingWeight] at hw h
          omega
        -- Outside the sessions nothing is announced.
        have hidle : (∀ attempt, th.owner ≠ .connect attempt) →
            (∀ p, working ⟨th.owner, p⟩ = false) →
            pushes isDisconnected st + Pool.progWeight announces (out.front ++ rest) +
              Pool.threadsWeight (Pool.pendingWeight announces) out.spawn +
                P.shared.connectionGeneration =
              Pool.progWeight announces (st :: rest) + out.shared.connectionGeneration := by
          intro hne hnw
          obtain ⟨hstarts, hgen⟩ := of_not_connect hexec hsh hne
          have hbefore := announces_of_idle hsh (hnw _)
          have hafter := announces_of_idle (shaped_step hexec hsh).1 (hnw _)
          simp only [Pool.pendingWeight] at hbefore hafter
          have hst : announces st = 0 := by
            rw [Pool.progWeight_cons] at hbefore
            omega
          rw [hbefore, hafter, hgen, announces_of_spawn hexec hsh hstarts,
            pushes_of_zero hst]
        -- By the owner of the thread. Calls, timers and workers are outside the sessions.
        cases howner : th.owner with
        | call => exact hidle (by simp [howner]) (fun p => by rw [howner]; rfl)
        | listTimer => exact hidle (by simp [howner]) (fun p => by rw [howner]; rfl)
        | worker taskId => exact hidle (by simp [howner]) (fun p => by rw [howner]; rfl)
        | connect attempt =>
            rw [howner] at hsh
            exact announced_of_connect hexec hsh
        | eventLoop g =>
            have hloop : th = ⟨.eventLoop g, st :: rest⟩ := by rw [hth', howner]
            have hbalance := announced_of_eventLoop hexec (hloop ▸ hshaped th hmem)
              (hloop ▸ hworks th hmem) (hloop ▸ hstashed th hmem)
              (by
                rintro sess ended taskId total rfl
                simpa [endsCleanly, sequential] using hcond)
            obtain ⟨hstarts, hgen⟩ := of_not_connect hexec hsh (by simp [howner])
            rw [hgen, announces_of_spawn hexec hsh hstarts, hbalance, Nat.add_zero]
    | env event =>
        obtain ⟨s, spawn, henv, hshared, hw⟩ :=
          Pool.weight_env (eventCount isDisconnected) (Pool.pendingWeight announces) hnext
        change announced P' + _ = announced P + _ at hw
        rw [hann] at hw
        rw [hshared]
        rcases happening_cases henv with ⟨c, _, rfl, rfl⟩ | ⟨_, _, rfl, rfl⟩ | ⟨_, _, _, rfl, rfl⟩
        · have hspawn := announces_of_idle
            (show Shaped ⟨.call, c.program⟩ from calls_of_program c) rfl
          rw [Pool.threadsWeight_cons, hspawn, Pool.threadsWeight_nil] at hw
          unfold Shared.noteRequest at hw ⊢
          split at hw <;> rename_i hc
          · rw [if_pos hc]
            show announced P' = P.shared.connectionGeneration
            simp only [eventCount] at hw
            omega
          · rw [if_neg hc]
            omega
        · rw [Pool.threadsWeight_nil] at hw
          simp only [eventCount] at hw ⊢
          omega
        · rw [Pool.threadsWeight_nil] at hw
          simp only [eventCount, Shared.setConn] at hw ⊢
          omega

/-! ### Clean ends -/

/-- In every run under the condition, every state in which no thread is working on a session is a
clean one. -/
theorem endedCleanly_of_run {P : Machine} (hrun : RunUnder (fun P _ => endsCleanly P) P)
    (hidle : ∀ t ∈ P.threads, working t = false) : EndedCleanly P.shared := by
  have hshaped := shaped_of_run hrun
  have hgone : ∀ r : Remainder, ¬ r.In P.shared := by
    intro r hr
    obtain ⟨t, ht, st, hst, hremoves⟩ := attended_of_run hrun r hr
    have hw := working_of_inSession (hshaped t ht) hst (inSession_of_removes hremoves)
    rw [hidle t ht] at hw
    cases hw
  have hconnected : P.shared.connected = false := by simpa [Remainder.In] using hgone .connected
  refine ⟨hconnected, ?_, ?_, ?_, ?_, ?_, ?_, ?_⟩
  · simpa [Remainder.In] using hgone .commandTx
  · simpa [Remainder.In] using hgone .ftLists
  · simpa [Remainder.In] using hgone .ftOps
  · simpa [Remainder.In] using hgone .permOps
  · simpa [Remainder.In] using hgone .ftTaskByRc
  · have hann := announced_of_run hrun
    have hzero : Pool.threadsWeight (Pool.pendingWeight announces) P.threads = 0 := by
      refine List.sum_eq_zero ?_
      intro n hn
      obtain ⟨t, ht, rfl⟩ := List.mem_map.mp hn
      exact announces_of_idle (hshaped t ht) (hidle t ht)
    rw [announced, Pool.weight, hzero] at hann
    exact hann
  · intro hconnecting
    simp [CallStmt.exec, hconnecting, hconnected]

/-- Session 1 ends because the server closes the stream. -/
def serverCloses : List NativeLabel :=
  publishSteps 0 ++ startSteps 0 ++ iterateSteps 2 ++ [.run 2 (.incoming .ended)] ++
    List.replicate 9 (.run 2 .go)

/-- The server closes the connection of the only session, and everything is cleaned up. -/
theorem endedCleanly_serverCloses : ∃ P : Machine,
    P.shared.connectionGeneration = 1 ∧ EndedCleanly P.shared := by
  obtain ⟨P, hrun, hobs⟩ := exists_run (fun P _ => endsCleanly P) serverCloses
    (fun P => (P.threads.all fun t => !working t, P.shared.connectionGeneration))
    (a := (true, 1)) rfl
  obtain ⟨hidle, hgen⟩ := Prod.mk.inj hobs
  exact ⟨P, hgen, endedCleanly_of_run hrun (by simpa using hidle)⟩

/-- A disconnect takes the connection out of the stash before the event loop does. -/
def stashDisconnected : List NativeLabel :=
  publishSteps 0 ++ [.run 1 .go, .run 1 .go, .env (.call .tsDisconnect)] ++
    List.replicate 4 (.run 3 .go) ++ [.run 2 .go]

/-- That session leaves its sender in `COMMAND_TX`. -/
theorem not_endedCleanly :
    ¬ ∀ P : Machine, native.Reachable P → (∀ t ∈ P.threads, working t = false) →
      EndedCleanly P.shared := by
  intro hall
  obtain ⟨P, hrun, hobs⟩ := exists_run (fun _ _ _ => true) stashDisconnected
    (fun P => (P.threads.all fun t => !working t, P.shared.commandTx)) (a := (true, some 1)) rfl
  obtain ⟨hidle, htx⟩ := Prod.mk.inj hobs
  have h := (hall P hrun.reachable (by simpa using hidle)).commandTx
  rw [htx] at h
  cases h

end Nek0.Proofs.Native
