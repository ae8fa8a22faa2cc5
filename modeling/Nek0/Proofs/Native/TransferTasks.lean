import Nek0.Proofs.Native.Queues

/-!
# `Nek0.Proofs.Native.TransferTasks`: what can touch a transfer task

A task is known by its id: to the statements of its call, to the queued command, to the return code
that `FT_TASK_BY_RC` keeps, to the statements that handle its items, and to its worker. `taskOf` is
the task that a statement is about, and `Known t` says that the shared state or a statement knows
the task. A task becomes known when its call queues the command, or when an item finds it by its
client id (`taskOf_of_exec`, `knownTo_of_exec`).

`doneOf t` is the count of transferred bytes of a task that is in `FT_TASKS`. Only the worker of
the task changes it (`counts_of_exec`).
-/

set_option autoImplicit false

namespace Nek0.Proofs.Native

open Nek0.Lib
open Nek0.Native

/-- The task of a transfer command. -/
def taskOfCommand : Command → Option TaskId
  | .ftDownload _ _ _ taskId => some taskId
  | .ftUpload _ _ _ taskId => some taskId
  | _ => none

/-- The task of a transfer event. -/
def taskOfEvent : TsEvent → Option TaskId
  | .ftStarted taskId _ _ _ => some taskId
  | .ftProgress taskId _ => some taskId
  | .ftDone taskId _ _ _ => some taskId
  | _ => none

/-- The task that a statement is about. The statements of the call that registers it are not
counted here. -/
def taskOf : Stmt → Option TaskId
  | .write (.push e _) => taskOfEvent e
  | .write (.insertFtTaskByRc _ taskId _) => some taskId
  | .write (.storeDone taskId _) => some taskId
  | .write (.downloadProgress taskId _) => some taskId
  | .write (.uploadProgress taskId _) => some taskId
  | .handler (.finishFtTask taskId _ _ _) => some taskId
  | .handler (.startUpload taskId) => some taskId
  | .handler (.decideStatus taskId _) => some taskId
  | .handler (.failStatus taskId _) => some taskId
  | .eventLoop (.sendWithResult _ (.ftTask taskId _)) => some taskId
  | .eventLoop (.nextClientFt _ taskId) => some taskId
  | .eventLoop (.startDownload _ _ taskId _) => some taskId
  | .call (.trySendCmd c) => taskOfCommand c
  | .call (.ftReady (.command c)) => taskOfCommand c
  | .call (.ftReadyAlive (.command c)) => taskOfCommand c
  | .call (.sendCommand c) => taskOfCommand c
  | .task (.downloadStart taskId _) => some taskId
  | .task (.downloadCheck taskId _ _) => some taskId
  | .task (.downloadRead taskId _ _) => some taskId
  | .task (.uploadStart taskId) => some taskId
  | .task (.uploadCheck taskId) => some taskId
  | .task (.uploadWrite taskId) => some taskId
  | .task (.uploadWait taskId _) => some taskId
  | .task (.uploadWaitCancel taskId _) => some taskId
  | _ => none

/-- The client id of an item that is looked up. -/
def looksUp : Stmt → Option UInt16
  | .eventLoop (.acceptDownload _ _ clientFt _) => some clientFt
  | .handler (.acceptUpload clientFt) => some clientFt
  | .handler (.failTransfer clientFt _) => some clientFt
  | .handler (.transferStatus clientFt _) => some clientFt
  | _ => none

/-- A queued command or a return code is about the task. -/
def knownTo (s : Shared) (t : TaskId) : Prop :=
  (∃ g, ∃ c ∈ (s.queues g).commands, taskOfCommand c = some t) ∨
    ∃ code op, s.ftTaskByRc.lookup code = some op ∧ op.value = t

/-- The shared state or a statement knows the task. -/
def Known (t : TaskId) (P : Machine) : Prop :=
  Pool.Holds knownTo (fun st t => taskOf st = some t) P t

/-- How a task becomes known. -/
inductive Introduces (t : TaskId) (s : Shared) (st : Stmt) : Prop
  | queued {transfer : Transfer} : st = .call (.sendTransfer t transfer) → Introduces t s st
  | found {clientFt : UInt16} : looksUp st = some clientFt →
      s.ftTaskIdByClientId clientFt = some t → Introduces t s st

/-- The count of transferred bytes of a task in `FT_TASKS`. -/
def doneOf (t : TaskId) (s : Shared) : Option UInt64 := (s.ftTasks.lookup t).map (·.done)

/-! ### How a task becomes known -/

/-- The handler of a stream item names no task by itself: a task is looked up when a statement runs.
-/
theorem taskOf_of_item (con : Nat) (it : StreamItem) :
    ∀ k ∈ itemProgram con it, taskOf k = none := by
  intro k hk
  cases it with
  | bookEvents events =>
      obtain ⟨e, _, rfl⟩ := List.mem_map.mp hk
      cases e with
      | message target _ _ _ => cases target <;> rfl
      | other => rfl
  | commandError flags =>
      obtain ⟨_, _, rfl⟩ := List.mem_map.mp hk
      rfl
  | fileDownload clientFt stream => cases stream <;> simp_all [itemProgram, taskOf]
  | fileUpload clientFt stream => cases stream <;> simp_all [itemProgram, taskOf]
  | messageResult code res sid =>
      simp only [itemProgram, List.mem_cons, List.not_mem_nil, or_false] at hk
      rcases hk with rfl | rfl | rfl | rfl <;> rfl
  | disconnectedTemporarily reason =>
      simp only [itemProgram, List.mem_cons, List.not_mem_nil, or_false] at hk
      rcases hk with rfl | rfl | rfl <;> rfl
  | _ => simp_all [itemProgram, taskOf, taskOfEvent]

theorem taskOf_of_command (sess : Session) (c : Command) :
    ∀ k ∈ commandProgram sess c, taskOf k = none ∨ taskOf k = taskOfCommand c := by
  cases c <;> simp [commandProgram, taskOf, taskOfCommand]

/-- A command that looks up the own id names no task. -/
theorem taskOf_of_ownClient (sess : Session) (own : UInt32) (c : Command) :
    ∀ k ∈ ownClientProgram sess own c, taskOf k = none := by
  have hrefuse : ∀ token message, ∀ k ∈ refuse token message, taskOf k = none := by
    intro token message
    cases token <;> simp [refuse, taskOf, taskOfEvent]
  cases c <;> dsimp only [ownClientProgram]
  case moveChannel clientId channelId password token =>
    cases token <;> split <;> simp [taskOf]
  all_goals
    repeat' split
    all_goals first
      | exact hrefuse _ _
      | simp [taskOf]

/-- Sending a command names the task of its answer, or none. -/
theorem taskOf_of_sendWithResult (s : Shared) (con : Nat) (sess : Session) (reply : Reply)
    (failure : Option String) : ∀ k ∈ (s.sendWithResult con reply failure).front,
      taskOf k = none ∨ taskOf k = taskOf (.eventLoop (.sendWithResult sess reply)) := by
  dsimp only [Shared.sendWithResult]
  repeat' split
  all_goals
    cases reply with
    | permOp token => cases token <;> simp [Reply.onSent, Reply.onFailed, taskOf, taskOfEvent]
    | _ => simp [Reply.onSent, Reply.onFailed, taskOf, taskOfEvent]

/-- The exit of a session names no task. -/
theorem taskOf_of_exit (s : Shared) (sess : Session) (way : ExitWay) :
    ∀ k ∈ exitProgram s sess way, taskOf k = none := by
  rw [exitProgram, List.forall_mem_append]
  constructor
  · split
    · cases way <;> simp [ExitWay.writes, taskOf, taskOfEvent]
    · simp
  · simp [leaveProgram, taskOf]

/-- What a loop statement puts in its place. -/
theorem taskOf_of_loop {choice : Choice} {s : Shared} {l : LoopStmt} {out : NativeOutcome}
    (hexec : l.exec choice s = some out) {t : TaskId} :
    ∀ k ∈ out.front, taskOf k = some t →
      -- Only `receive` and `acceptDownload` come to know a task. The rest goes on with its own, or
      -- with none.
      taskOf (.eventLoop l) = some t ∨ knownTo s t ∨ Introduces t s (.eventLoop l) := by
  intro k hk ht
  cases l with
  | receive sess =>
      rcases receive_step hexec with ⟨_, rfl⟩ | ⟨c, rest, hcons, _, _, _, _, hfront⟩
      · obtain rfl := List.mem_singleton.mp hk
        cases ht
      · rcases hfront with ⟨_, hfront⟩ | ⟨_, hfront⟩
        · rw [hfront] at hk
          obtain rfl := List.mem_singleton.mp hk
          cases ht
        · rw [hfront] at hk
          rcases List.mem_append.mp hk with hk | hk
          · rcases taskOf_of_command sess c k hk with hnone | hsome
            -- The command was in the queue, which is one of the places where tasks are known.
            · rw [hnone] at ht
              cases ht
            · rw [hsome] at ht
              exact .inr (.inl (.inl ⟨_, c, by rw [hcons]; exact List.mem_cons_self, ht⟩))
          · obtain rfl := List.mem_singleton.mp hk
            cases ht
  | ownClient sess c =>
      cases hexec
      rw [taskOf_of_ownClient sess _ c k hk] at ht
      cases ht
  | sendWithResult sess reply =>
      have hsend : ∀ failure, k ∈ (s.sendWithResult sess.con reply failure).front →
          taskOf (.eventLoop (.sendWithResult sess reply)) = some t := by
        intro failure hk
        rcases taskOf_of_sendWithResult s sess.con sess reply failure k hk with hnone | hsome
        · rw [hnone] at ht
          cases ht
        · rwa [hsome] at ht
      dsimp only [LoopStmt.exec] at hexec
      split at hexec
      all_goals
        cases hexec
        exact .inl (hsend _ hk)
  | nextClientFt sess taskId =>
      cases hexec
      simp only [List.mem_cons, List.not_mem_nil, or_false] at hk
      rcases hk with rfl | rfl
      · cases ht
      · exact .inl ht
  | handle sess ended =>
      dsimp only [LoopStmt.exec] at hexec
      split at hexec
      · cases hexec
        dsimp only at hk
        split at hk
        all_goals
          obtain rfl := List.mem_singleton.mp hk
          cases ht
      · cases hexec
        dsimp only at hk
        split at hk
        · obtain rfl := List.mem_singleton.mp hk
          cases ht
        · rcases List.mem_append.mp hk with hk | hk
          · rw [taskOf_of_item _ _ k hk] at ht
            cases ht
          · obtain rfl := List.mem_singleton.mp hk
            cases ht
  | acceptDownload sess ended clientFt total =>
      cases hexec
      dsimp only at hk
      split at hk
      · obtain rfl := List.mem_singleton.mp hk
        cases ht
      · rename_i taskId hfound
        simp only [List.mem_cons, List.not_mem_nil, or_false] at hk
        rcases hk with rfl | rfl
        -- The bound transfer names the task.
        · cases ht
        · obtain rfl := Option.some.inj ht
          exact .inr (.inr (.found rfl hfound))
  | guardExit sess way =>
      cases hexec
      rw [taskOf_of_exit s sess way k hk] at ht
      cases ht
  | _ =>
      exfalso
      dsimp only [LoopStmt.exec, leaveProgram] at hexec
      repeat' split at hexec
      all_goals cases hexec
      all_goals simp only [List.mem_cons, List.not_mem_nil, or_false] at hk
      all_goals
        repeat' rcases hk with rfl | hk
        all_goals cases ht

/-- What a handler statement puts in its place. -/
theorem taskOf_of_handler (s : Shared) (h : HandlerStmt) {t : TaskId} :
    ∀ k ∈ (h.exec s).front, taskOf k = some t →
      taskOf (.handler h) = some t ∨ knownTo s t ∨ Introduces t s (.handler h) := by
  -- A handler finds its task by return code, or by the transfer that the server tells of.
  intro k hk ht
  cases h with
  | takeFtTask code res sid =>
      dsimp only [HandlerStmt.exec] at hk
      split at hk
      · cases hk
      · rename_i op hlookup
        cases res with
        | ok _ => cases hk
        | error e =>
            obtain rfl := List.mem_singleton.mp hk
            exact .inr (.inl (.inr ⟨code, op, hlookup, Option.some.inj ht⟩))
  | failTransfer clientFt message =>
      dsimp only [HandlerStmt.exec] at hk
      split at hk
      · cases hk
      · rename_i taskId hfound
        obtain rfl := List.mem_singleton.mp hk
        obtain rfl := Option.some.inj ht
        exact .inr (.inr (.found rfl hfound))
  | acceptUpload clientFt =>
      dsimp only [HandlerStmt.exec] at hk
      split at hk
      · cases hk
      · rename_i taskId hfound
        obtain rfl := List.mem_singleton.mp hk
        obtain rfl := Option.some.inj ht
        exact .inr (.inr (.found rfl hfound))
  | transferStatus clientFt status =>
      dsimp only [HandlerStmt.exec] at hk
      split at hk
      · cases hk
      · rename_i taskId hfound
        obtain rfl := List.mem_singleton.mp hk
        obtain rfl := Option.some.inj ht
        exact .inr (.inr (.found rfl hfound))
  | drainPermOps =>
      obtain ⟨_, _, rfl⟩ := List.mem_map.mp hk
      cases ht
  | markListFinished cid path sid =>
      obtain ⟨_, _, rfl⟩ := List.mem_map.mp hk
      cases ht
  | _ =>
      left
      dsimp only [HandlerStmt.exec] at hk
      repeat' split at hk
      all_goals first
        | exact absurd hk List.not_mem_nil
        | obtain rfl := List.mem_singleton.mp hk
          exact ht

/-- What a call statement puts in its place. -/
theorem taskOf_of_call (s : Shared) (c : CallStmt) {t : TaskId} :
    ∀ k ∈ (c.exec s).front, taskOf k = some t →
      taskOf (.call c) = some t ∨ Introduces t s (.call c) := by
  -- `sendTransfer` queues the command for a new task. The other calls keep to theirs.
  intro k hk ht
  cases c with
  | sendTransfer taskId transfer =>
      dsimp only [CallStmt.exec] at hk
      split at hk
      · cases hk
      · obtain rfl := List.mem_singleton.mp hk
        obtain rfl := Option.some.inj ht
        exact .inr (.queued rfl)
  | ftReadyAlive r =>
      dsimp only [CallStmt.exec] at hk
      split at hk
      · cases r with
        | command c =>
            obtain rfl := List.mem_singleton.mp hk
            exact .inl ht
        | transfer t =>
            obtain rfl := List.mem_singleton.mp hk
            cases ht
      · cases hk
  | ftReady r =>
      dsimp only [CallStmt.exec] at hk
      split at hk
      · obtain rfl := List.mem_singleton.mp hk
        cases r with
        | command c => exact .inl ht
        | transfer t => cases ht
      · cases hk
  | _ =>
      left
      dsimp only [CallStmt.exec] at hk
      repeat' split at hk
      all_goals simp only [List.mem_cons, List.not_mem_nil, or_false] at hk
      all_goals
        repeat' rcases hk with rfl | hk
        all_goals first
          | cases ht
          | exact ht

theorem taskOfCommand_command (transfer : Transfer) (taskId : TaskId) :
    taskOfCommand (transfer.command taskId) = some taskId := by
  unfold Transfer.command
  split <;> rfl

/-- What a task statement puts in its place is about the same task. -/
theorem taskOf_of_task {choice : Choice} {s : Shared} {task : TaskStmt} {out : NativeOutcome}
    (hexec : task.exec choice s = some out) {t : TaskId} :
    ∀ k ∈ out.front, taskOf k = some t → taskOf (.task task) = some t := by
  intro k hk ht
  cases task <;> dsimp only [TaskStmt.exec, finishProgram] at hexec
  all_goals repeat' split at hexec
  all_goals cases hexec
  all_goals simp only [List.mem_cons, List.not_mem_nil, or_false] at hk
  all_goals
    repeat' rcases hk with rfl | hk
    all_goals exact ht

/-- What a statement puts in its place, or starts. -/
theorem taskOf_of_exec {choice : Choice} {s : Shared} {st : Stmt} {out : NativeOutcome}
    (hexec : st.exec choice s = some out) {t : TaskId} :
    (∀ k ∈ out.front, taskOf k = some t →
      taskOf st = some t ∨ knownTo s t ∨ Introduces t s st) ∧
    ∀ th ∈ out.spawn, ∀ k ∈ th.prog, taskOf k = some t → taskOf st = some t := by
  constructor
  · cases st with
    | write w =>
        cases hexec
        intro k hk
        cases hk
    | handler h =>
        cases hexec
        exact taskOf_of_handler s h
    | eventLoop l => exact taskOf_of_loop hexec
    | call c =>
        cases hexec
        intro k hk ht
        exact (taskOf_of_call s c k hk ht).imp_right .inr
    | task task =>
        intro k hk ht
        exact .inl (taskOf_of_task hexec k hk ht)
  · intro th hth k hk ht
    rcases spawn_cases hexec with h | ⟨_, _, h⟩ | ⟨_, _, h⟩ | ⟨_, _, h⟩ |
      ⟨_, _, _, _, rfl, h⟩ | ⟨_, rfl, h⟩
    · rw [h] at hth
      cases hth
    all_goals
      rw [h] at hth
      obtain rfl := List.mem_singleton.mp hth
      obtain rfl := List.mem_singleton.mp hk
      first
        | exact ht
        | cases ht

/-- What the shared state knows after a statement. -/
theorem knownTo_of_exec {choice : Choice} {s : Shared} {st : Stmt} {out : NativeOutcome}
    (hexec : st.exec choice s = some out) {t : TaskId} (h : knownTo out.shared t) :
    taskOf st = some t ∨ knownTo s t ∨ Introduces t s st := by
  -- If neither the queues nor the return codes change, nothing becomes known.
  have hsame : out.shared.queues = s.queues → out.shared.ftTaskByRc = s.ftTaskByRc →
      taskOf st = some t ∨ knownTo s t ∨ Introduces t s st := by
    intro hqueues htable
    unfold knownTo at h
    rw [hqueues, htable] at h
    exact .inr (.inl h)
  cases st with
  | write w =>
      cases hexec
      -- The code now stands for this task. Other codes stand for theirs.
      cases w with
      | insertFtTaskByRc code taskId sid =>
          rcases h with hqueue | ⟨code', op, hlookup, hop⟩
          · exact .inr (.inl (.inl hqueue))
          · by_cases hcode : code' = code
            · subst hcode
              rw [show ((Write.insertFtTaskByRc code' taskId sid).apply s).ftTaskByRc =
                s.ftTaskByRc.insert code' ⟨taskId, sid⟩ from rfl, AList.lookup_insert] at hlookup
              obtain rfl := Option.some.inj hlookup
              exact .inl (congrArg some hop)
            · rw [show ((Write.insertFtTaskByRc code taskId sid).apply s).ftTaskByRc =
                s.ftTaskByRc.insert code ⟨taskId, sid⟩ from rfl,
                AList.lookup_insert_ne hcode] at hlookup
              exact .inr (.inl (.inr ⟨code', op, hlookup, hop⟩))
      -- A dropped receiver loses its commands, the other queues stay.
      | dropReceiver g =>
          rcases h with ⟨g', c, hc, ht⟩ | htable
          · have hqueue : ((Write.dropReceiver g).apply s).queues g' =
                if g' = g then { s.queues g with commands := [], receiving := false }
                else s.queues g' := queues_setQueue s g g' _
            rw [hqueue] at hc
            split at hc
            · cases hc
            · exact .inr (.inl (.inl ⟨g', c, hc, ht⟩))
          · exact .inr (.inl (.inr htable))
      | downloadProgress taskId done =>
          obtain ⟨_, _, heq, _⟩ := downloadProgress_frame s taskId done
          exact hsame (by rw [heq]) (by rw [heq])
      | uploadProgress taskId n =>
          obtain ⟨_, _, heq, _⟩ := uploadProgress_frame s taskId n
          exact hsame (by rw [heq]) (by rw [heq])
      | _ =>
          dsimp only [Write.apply] at h hsame
          repeat' split at h
          all_goals exact .inr (.inl h)
  | handler hs =>
      cases hexec
      -- A code that is taken is no longer known.
      cases hs with
      | takeFtTask code res sid =>
          dsimp only [HandlerStmt.exec] at h
          split at h
          · exact .inr (.inl h)
          · rcases h with hqueue | ⟨code', op, hlookup, hop⟩
            · exact .inr (.inl (.inl hqueue))
            · by_cases hcode : code' = code
              · subst hcode
                rw [AList.lookup_erase] at hlookup
                cases hlookup
              · rw [AList.lookup_erase_ne hcode] at hlookup
                exact .inr (.inl (.inr ⟨code', op, hlookup, hop⟩))
      | _ =>
          dsimp only [HandlerStmt.exec] at h
          repeat' split at h
          all_goals exact .inr (.inl h)
  | eventLoop l =>
      have htable : out.shared.ftTaskByRc = s.ftTaskByRc := by
        obtain ⟨_, _, _, _, _, _, _, _, _, _, _, _, heq, _⟩ := loop_frame hexec
        rw [heq]
      by_cases hl : ∃ sess, l = .receive sess
      · obtain ⟨sess, rfl⟩ := hl
        -- The loop touches the queues with `receive` only.
        have hstep : (LoopStmt.receive sess).exec choice s = some out := hexec
        rcases receive_step hstep with ⟨_, rfl⟩ | ⟨c, rest, hcons, hqueues, _⟩
        · exact .inr (.inl h)
        · rcases h with ⟨g, c', hc', ht⟩ | htable'
          · -- What is left in the queue was there before.
            have hold : c' ∈ (s.queues g).commands := by
              rw [hqueues] at hc'
              by_cases hg : g = sess.generation
              · subst hg
                rw [Function.update_self] at hc'
                rw [hcons]
                exact .tail _ hc'
              · rwa [Function.update_of_ne hg] at hc'
            exact .inr (.inl (.inl ⟨g, c', hold, ht⟩))
          · rw [htable] at htable'
            exact .inr (.inl (.inr htable'))
      · exact hsame (queues_of_loop hexec fun sess h => hl ⟨sess, h⟩) htable
  | call c =>
      cases hexec
      have htable : (c.exec s).shared.ftTaskByRc = s.ftTaskByRc := by
        obtain ⟨_, _, _, _, _, _, _, _, heq, _⟩ := call_frame s c
        rw [heq]
      -- A call may append its command to the queue of the running session.
      rcases queues_of_call s c with hqueues | ⟨g, cmd, hcmd, _, hqueues⟩
      · exact hsame hqueues htable
      · rcases h with ⟨g', c', hc', ht⟩ | htable'
        · rw [hqueues] at hc'
          by_cases hg : g' = g
          · subst hg
            rw [Function.update_self] at hc'
            rcases List.mem_append.mp hc' with hold | hnew
            · exact .inr (.inl (.inl ⟨g', c', hold, ht⟩))
            · obtain rfl := List.mem_singleton.mp hnew
              cases c with
              | sendTransfer taskId transfer =>
                  obtain rfl : transfer.command taskId = c' := Option.some.inj hcmd
                  rw [taskOfCommand_command] at ht
                  obtain rfl := Option.some.inj ht
                  exact .inr (.inr (.queued rfl))
              | sendDisconnect =>
                  obtain rfl := Option.some.inj hcmd
                  cases ht
              | sendCommand cmd =>
                  obtain rfl := Option.some.inj hcmd
                  exact .inl ht
              | _ => cases hcmd
          · rw [Function.update_of_ne hg] at hc'
            exact .inr (.inl (.inl ⟨g', c', hc', ht⟩))
        · rw [htable] at htable'
          exact .inr (.inl (.inr htable'))
  -- A new generation starts with an empty queue.
  | task task =>
      cases task with
      | advanceGeneration attempt serverName =>
          cases hexec
          rcases h with ⟨g, c, hc, ht⟩ | htable
          · rw [queues_setQueue] at hc
            split at hc
            · cases hc
            · exact .inr (.inl (.inl ⟨g, c, hc, ht⟩))
          · exact .inr (.inl (.inr htable))
      | _ =>
          dsimp only [Stmt.exec, TaskStmt.exec] at hexec
          repeat' split at hexec
          all_goals cases hexec
          all_goals exact .inr (.inl h)

/-! ### The count of transferred bytes -/

/-- The count of a task when one task is modified. -/
theorem doneOf_modify (s : Shared) (t taskId : TaskId) (f : FtTask → FtTask) :
    doneOf t { s with ftTasks := Table.modify taskId f s.ftTasks } =
      if t = taskId then (s.ftTasks.lookup t).map (fun task => (f task).done) else doneOf t s := by
  simp only [doneOf, Table.lookup_modify]
  by_cases ht : t = taskId
  · subst ht
    rw [if_pos rfl, if_pos rfl, Option.map_map]
    rfl
  · rw [if_neg ht, if_neg ht]

/-- A progress event tells the count, and leaves it. -/
theorem maybePublishFtProgress_step (s : Shared) (taskId : TaskId) (force : Bool) :
    (∀ t, doneOf t (s.maybePublishFtProgress taskId force) = doneOf t s) ∧
      ∃ events, (s.maybePublishFtProgress taskId force).pendingEvents = s.pendingEvents ++ events ∧
        (events = [] ∨ ∃ d, doneOf taskId s = some d ∧ events = [.ftProgress taskId d]) := by
  unfold Shared.maybePublishFtProgress
  split
  · exact ⟨fun _ => rfl, [], (List.append_nil _).symm, .inl rfl⟩
  · rename_i task hlookup
    have hdone : doneOf taskId s = some task.done := by rw [doneOf, hlookup, Option.map_some]
    split
    · refine ⟨fun t => ?_, _, rfl, .inr ⟨task.done, hdone, rfl⟩⟩
      by_cases ht : t = taskId
      · subst ht
        rw [hdone]
        simp [doneOf, Shared.pushEvent]
      · simp [doneOf, Shared.pushEvent, AList.lookup_insert_ne ht]
    · exact ⟨fun _ => rfl, [], (List.append_nil _).symm, .inl rfl⟩

/-- How a statement changes the count of a task. -/
inductive Counts (t : TaskId) (s : Shared) (st : Stmt) (s' : Shared) : Prop
  | same : doneOf t s' = doneOf t s → Counts t s st s'
  | register {kind : TransferKind} {name localPath : String} {total : UInt64} :
      st = .write (.insertTask t kind name localPath total) → doneOf t s' = some 0 →
      Counts t s st s'
  | store {d : UInt64} :
      (st = .write (.storeDone t d) ∨ st = .write (.downloadProgress t d)) →
      doneOf t s' = (doneOf t s).map (fun _ => d) → Counts t s st s'
  | add {n : UInt64} : st = .write (.uploadProgress t n) →
      doneOf t s' = (doneOf t s).map (· + n) → Counts t s st s'
  | finish {ok : Bool} {error : Option String} {origin : Option Origin} :
      st = .handler (.finishFtTask t ok error origin) → doneOf t s' = none → Counts t s st s'

/-- How a write changes the count of a task: it stores one, adds to it, registers the task, or
leaves it. -/
theorem counts_of_write (t : TaskId) (s : Shared) (w : Write) :
    Counts t s (.write w) (w.apply s) := by
  -- Three writes touch the count. Each is compared with the task that the lemma is about.
  cases w with
  | bindClientFt taskId clientFt =>
      refine .same ?_
      show doneOf t { s with ftTasks := Table.modify taskId _ s.ftTasks } = _
      rw [doneOf_modify]
      split <;> rfl
  | storeTotal taskId total =>
      refine .same ?_
      show doneOf t { s with ftTasks := Table.modify taskId _ s.ftTasks } = _
      rw [doneOf_modify]
      split <;> rfl
  | storeDone taskId d =>
      have hdone : doneOf t ((Write.storeDone taskId d).apply s) =
          if t = taskId then (s.ftTasks.lookup t).map (fun _ => d) else doneOf t s :=
        doneOf_modify s t taskId _
      by_cases ht : t = taskId
      · subst ht
        rw [if_pos rfl] at hdone
        refine .store (.inl rfl) ?_
        rw [hdone, doneOf, Option.map_map]
        rfl
      · rw [if_neg ht] at hdone
        exact .same hdone
  | downloadProgress taskId d =>
      have hdone : doneOf t ((Write.downloadProgress taskId d).apply s) =
          if t = taskId then (s.ftTasks.lookup t).map (fun _ => d) else doneOf t s :=
        ((maybePublishFtProgress_step _ taskId false).1 t).trans (doneOf_modify s t taskId _)
      by_cases ht : t = taskId
      · subst ht
        rw [if_pos rfl] at hdone
        refine .store (.inr rfl) ?_
        rw [hdone, doneOf, Option.map_map]
        rfl
      · rw [if_neg ht] at hdone
        exact .same hdone
  | uploadProgress taskId n =>
      have hdone : doneOf t ((Write.uploadProgress taskId n).apply s) =
          if t = taskId then (s.ftTasks.lookup t).map (fun task => task.done + n)
          else doneOf t s :=
        ((maybePublishFtProgress_step _ taskId false).1 t).trans (doneOf_modify s t taskId _)
      by_cases ht : t = taskId
      · subst ht
        rw [if_pos rfl] at hdone
        refine .add rfl ?_
        rw [hdone, doneOf, Option.map_map]
        rfl
      · rw [if_neg ht] at hdone
        exact .same hdone
  | insertTask taskId kind name localPath total =>
      by_cases ht : t = taskId
      · subst ht
        refine .register rfl ?_
        simp [doneOf, Write.apply]
      · refine .same ?_
        simp [doneOf, Write.apply, AList.lookup_insert_ne ht]
  | _ =>
      refine .same ?_
      dsimp only [Write.apply]
      repeat' split
      all_goals rfl

/-- How a statement changes the count of a task. Only writes and `finish_ft_task` do. -/
theorem counts_of_exec (t : TaskId) {choice : Choice} {s : Shared} {st : Stmt}
    {out : NativeOutcome} (hexec : st.exec choice s = some out) : Counts t s st out.shared := by
  cases st with
  | write w =>
      cases hexec
      exact counts_of_write t s w
  | handler h =>
      -- `finish_ft_task` takes the task out of `FT_TASKS`, and its count with it.
      cases hexec
      cases h with
      | finishFtTask taskId ok error origin =>
          dsimp only [HandlerStmt.exec]
          split
          · exact .same rfl
          · by_cases ht : t = taskId
            · subst ht
              refine .finish rfl ?_
              rw [doneOf, AList.lookup_erase]
              rfl
            · refine .same ?_
              rw [doneOf, AList.lookup_erase_ne ht, doneOf]
      | _ =>
          refine .same ?_
          dsimp only [HandlerStmt.exec]
          repeat' split
          all_goals rfl
  | eventLoop l =>
      refine .same ?_
      cases l with
      | ownClient sess c =>
          cases hexec
          simp only [Shared.ownClientIdOrCache]
          repeat' split
          all_goals rfl
      | sendWithResult sess reply =>
          dsimp only [Stmt.exec, LoopStmt.exec, Shared.sendWithResult] at hexec
          repeat' split at hexec
          all_goals cases hexec
          all_goals rfl
      | startDownload sess ended taskId total =>
          dsimp only [Stmt.exec, LoopStmt.exec] at hexec
          split at hexec <;> cases hexec
          · exact (maybePublishFtProgress_step s taskId true).1 t
          · rfl
      | _ =>
          dsimp only [Stmt.exec, LoopStmt.exec] at hexec
          repeat' split at hexec
          all_goals cases hexec
          all_goals rfl
  | call c =>
      cases hexec
      obtain ⟨_, _, _, _, _, _, _, _, heq, _⟩ := call_frame s c
      refine .same ?_
      rw [heq]
      rfl
  | task task =>
      obtain ⟨_, _, _, _, heq⟩ := task_frame hexec
      refine .same ?_
      rw [heq]
      rfl

/-! ### The events that a statement pushes -/

/-- Is it an event about the task? -/
def isFor (t : TaskId) (e : TsEvent) : Bool := taskOfEvent e == some t

/-- The events that a step adds to the queue. A step that empties the queue adds none. -/
def added (s s' : Shared) : List TsEvent := s'.pendingEvents.drop s.pendingEvents.length

/-- The events about a task that a statement pushes. -/
inductive Pushes (t : TaskId) (s : Shared) (st : Stmt) (s' : Shared) : List TsEvent → Prop
  | nothing : Pushes t s st s' []
  | started {task : FtTask} : st = .write (.pushStarted t) → s.ftTasks.lookup t = some task →
      Pushes t s st s' [.ftStarted t task.kind task.name task.total]
  | progress {d : UInt64} : taskOf st = some t → doneOf t s' = some d →
      Pushes t s st s' [.ftProgress t d]
  | event {e : TsEvent} {origin : Option Origin} : st = .write (.push e origin) →
      taskOfEvent e = some t → Pushes t s st s' [e]

theorem added_of_append {s s' : Shared} {events : List TsEvent}
    (h : s'.pendingEvents = s.pendingEvents ++ events) : added s s' = events := by
  rw [added, h, List.drop_left]

/-- Without new events nothing is pushed. -/
theorem pushes_of_eq {t : TaskId} {s s' : Shared} {st : Stmt}
    (h : s'.pendingEvents = s.pendingEvents) :
    Pushes t s st s' ((added s s').filter (isFor t)) := by
  rw [added_of_append (h.trans (List.append_nil _).symm)]
  exact .nothing

/-- An event that is about another task, or about none. -/
theorem pushes_of_other {t : TaskId} {s s' : Shared} {st : Stmt} {e : TsEvent}
    (h : s'.pendingEvents = s.pendingEvents ++ [e]) (he : taskOfEvent e ≠ some t) :
    Pushes t s st s' ((added s s').filter (isFor t)) := by
  rw [added_of_append h, List.filter_cons_of_neg (by simp [isFor, he])]
  exact .nothing

/-- Progress is about the task of the statement that reports it. -/
theorem pushes_of_progress {t taskId : TaskId} {s s' : Shared} {st : Stmt}
    {events : List TsEvent} (hst : taskOf st = some taskId)
    (h : s'.pendingEvents = s.pendingEvents ++ events)
    (hevents : events = [] ∨ ∃ d, doneOf taskId s' = some d ∧ events = [.ftProgress taskId d]) :
    Pushes t s st s' ((added s s').filter (isFor t)) := by
  rcases hevents with rfl | ⟨d, hd, rfl⟩
  · rw [added_of_append h]
    exact .nothing
  · by_cases ht : taskId = t
    · subst ht
      rw [added_of_append h, List.filter_cons_of_pos (by simp [isFor, taskOfEvent])]
      exact .progress hst hd
    · exact pushes_of_other h (by simpa [taskOfEvent] using ht)

/-- What a write pushes for a task: the event that it names, a start, a progress, or nothing. -/
theorem pushes_of_write (t : TaskId) (s : Shared) (w : Write) :
    Pushes t s (.write w) (w.apply s) ((added s (w.apply s)).filter (isFor t)) := by
  -- Each write pushes one event at most. The question is whether it is about the task.
  cases w with
  | push e origin =>
      have happend : ((Write.push e origin).apply s).pendingEvents = s.pendingEvents ++ [e] := by
        cases origin <;> rfl
      by_cases he : taskOfEvent e = some t
      · rw [added_of_append happend, List.filter_cons_of_pos (by simp [isFor, he])]
        exact .event rfl he
      · exact pushes_of_other happend he
  | endSession reason =>
      exact pushes_of_other (e := .disconnected reason) rfl (by simp [taskOfEvent])
  | failConnect message => exact pushes_of_other (e := .error message) rfl (by simp [taskOfEvent])
  | publish serverName book =>
      exact pushes_of_other (e := .connected serverName book.ownClient.toUInt32) rfl
        (by simp [taskOfEvent])
  | refreshFromBook con =>
      dsimp only [Write.apply]
      split
      · exact pushes_of_other (e := .channelsUpdated) rfl (by simp [taskOfEvent])
      · exact pushes_of_eq rfl
  | pushStarted taskId =>
      dsimp only [Write.apply]
      split
      · exact pushes_of_eq rfl
      · rename_i task hlookup
        have happend : (s.pushEvent
          (.ftStarted taskId task.kind task.name task.total)).pendingEvents =
            s.pendingEvents ++ [.ftStarted taskId task.kind task.name task.total] := rfl
        by_cases ht : taskId = t
        · subst ht
          rw [added_of_append happend, List.filter_cons_of_pos (by simp [isFor, taskOfEvent])]
          exact .started rfl hlookup
        · exact pushes_of_other happend (by simpa [taskOfEvent] using ht)
  -- Progress is published with the count that is stored, if it is published.
  | downloadProgress taskId d =>
      obtain ⟨hdone, events, happend, hevents⟩ := maybePublishFtProgress_step { s with
        ftTasks := Table.modify taskId (fun t => { t with done := d }) s.ftTasks } taskId false
      refine pushes_of_progress rfl happend (hevents.imp_right ?_)
      rintro ⟨d', hd', rfl⟩
      exact ⟨d', (hdone taskId).trans hd', rfl⟩
  | uploadProgress taskId n =>
      obtain ⟨hdone, events, happend, hevents⟩ := maybePublishFtProgress_step { s with
        ftTasks := Table.modify taskId (fun t => { t with done := t.done + n }) s.ftTasks } taskId
          false
      refine pushes_of_progress rfl happend (hevents.imp_right ?_)
      rintro ⟨d', hd', rfl⟩
      exact ⟨d', (hdone taskId).trans hd', rfl⟩
  | pollEvents =>
      have hnone : added s (Write.pollEvents.apply s) = [] := List.drop_nil
      rw [hnone]
      exact .nothing
  | cancelTask taskId =>
      dsimp only [Write.apply]
      split
      all_goals exact pushes_of_eq rfl
  | _ =>
      exact pushes_of_eq rfl

/-- What a statement pushes for a task. -/
theorem pushes_of_exec (t : TaskId) {choice : Choice} {s : Shared} {st : Stmt}
    {out : NativeOutcome} (hexec : st.exec choice s = some out) :
    Pushes t s st out.shared ((added s out.shared).filter (isFor t)) := by
  cases st with
  | write w =>
      cases hexec
      exact pushes_of_write t s w
  | handler h =>
      cases hexec
      obtain ⟨_, _, _, _, _, _, heq⟩ := handler_frame s h
      exact pushes_of_eq (by rw [heq])
  | eventLoop l =>
      -- The loop pushes with `startDownload` only: the progress at the start of a download.
      cases l with
      | startDownload sess ended taskId total =>
          dsimp only [Stmt.exec, LoopStmt.exec] at hexec
          split at hexec <;> cases hexec
          · obtain ⟨hdone, events, happend, hevents⟩ := maybePublishFtProgress_step s taskId true
            refine pushes_of_progress rfl happend (hevents.imp_right ?_)
            rintro ⟨d, hd, rfl⟩
            exact ⟨d, (hdone taskId).trans hd, rfl⟩
          · exact pushes_of_eq rfl
      | ownClient sess c =>
          cases hexec
          have hsame : (s.ownClientIdOrCache sess.con).1.pendingEvents = s.pendingEvents := by
            simp only [Shared.ownClientIdOrCache]
            repeat' split
            all_goals rfl
          exact pushes_of_eq hsame
      | sendWithResult sess reply =>
          dsimp only [Stmt.exec, LoopStmt.exec, Shared.sendWithResult] at hexec
          repeat' split at hexec
          all_goals cases hexec
          all_goals exact pushes_of_eq rfl
      | _ =>
          dsimp only [Stmt.exec, LoopStmt.exec] at hexec
          repeat' split at hexec
          all_goals cases hexec
          all_goals exact pushes_of_eq rfl
  | call c =>
      cases hexec
      obtain ⟨_, _, _, _, _, _, _, _, _, hdiscards, _⟩ := call_frame s c
      rcases hdiscards with ⟨hpending, _⟩ | ⟨hpending, _⟩
      · exact pushes_of_eq hpending
      · rw [added, hpending, List.drop_nil]
        exact .nothing
  | task task =>
      obtain ⟨_, _, _, _, heq⟩ := task_frame hexec
      exact pushes_of_eq (by rw [heq])

/-- The event loop puts no event of a task in its place. -/
theorem taskOfEvent_of_loop {choice : Choice} {s : Shared} {l : LoopStmt} {out : NativeOutcome}
    (hexec : l.exec choice s = some out) {e : TsEvent} {origin : Option Origin}
    (hk : .write (.push e origin) ∈ out.front) : taskOfEvent e = none := by
  -- No command, answer or stream item puts such an event in front of the thread. Only writes push.
  cases l with
  | receive sess =>
      rcases receive_step hexec with ⟨_, rfl⟩ | ⟨c, rest, _, _, _, _, _, hfront⟩
      · simp at hk
      · rcases hfront with ⟨_, hfront⟩ | ⟨_, hfront⟩
        · simp [hfront] at hk
        · rw [hfront] at hk
          cases c <;> simp [commandProgram] at hk
  | ownClient sess c =>
      cases hexec
      exact taskOf_of_ownClient sess _ c _ hk
  | sendWithResult sess reply =>
      have hsend : ∀ failure, .write (.push e origin) ∈
          (s.sendWithResult sess.con reply failure).front → taskOfEvent e = none := by
        intro failure hk
        dsimp only [Shared.sendWithResult] at hk
        repeat' split at hk
        all_goals
          cases reply with
          | permOp token =>
              cases token <;> simp_all [Reply.onSent, Reply.onFailed, taskOfEvent]
          | _ => simp_all [Reply.onSent, Reply.onFailed, taskOfEvent]
      dsimp only [LoopStmt.exec] at hexec
      split at hexec
      all_goals
        cases hexec
        exact hsend _ hk
  | handle sess ended =>
      dsimp only [LoopStmt.exec] at hexec
      split at hexec
      · cases hexec
        dsimp only at hk
        split at hk <;> simp at hk
      · cases hexec
        dsimp only at hk
        split at hk
        · simp at hk
        · rcases List.mem_append.mp hk with hk | hk
          · exact taskOf_of_item _ _ _ hk
          · simp at hk
  | acceptDownload sess ended clientFt total =>
      cases hexec
      dsimp only at hk
      split at hk <;> simp at hk
  | guardExit sess way =>
      cases hexec
      exact taskOf_of_exit s sess way _ hk
  | _ =>
      exfalso
      dsimp only [LoopStmt.exec, leaveProgram] at hexec
      repeat' split at hexec
      all_goals cases hexec
      all_goals simp at hk

/-- Only `finish_ft_task` leads to the push of an event of a task: it takes the task out of
`FT_TASKS`, and the event tells its count. -/
theorem finish_of_push {choice : Choice} {s : Shared} {st : Stmt} {out : NativeOutcome}
    (hexec : st.exec choice s = some out) {e : TsEvent} {origin : Option Origin} {t : TaskId}
    (hk : .write (.push e origin) ∈ out.front) (he : taskOfEvent e = some t) :
    ∃ ok error d, st = .handler (.finishFtTask t ok error origin) ∧ doneOf t s = some d ∧
      e = .ftDone t ok d error := by
  -- An event that is put in place names a task only behind `finish_ft_task`.
  cases st with
  | write w =>
      cases hexec
      cases hk
  | handler h =>
      cases hexec
      cases h with
      | finishFtTask taskId ok error origin' =>
          dsimp only [HandlerStmt.exec] at hk
          split at hk
          · cases hk
          · rename_i task hlookup
            obtain ⟨rfl, rfl⟩ : e = .ftDone taskId ok task.done error ∧ origin = origin' := by
              simpa using hk
            obtain rfl : taskId = t := Option.some.inj he
            exact ⟨ok, error, task.done, rfl, by rw [doneOf, hlookup]; rfl, rfl⟩
      | drainPermOps =>
          obtain ⟨_, _, heq⟩ := List.mem_map.mp hk
          cases heq
          cases he
      | markListFinished cid path sid =>
          obtain ⟨_, _, heq⟩ := List.mem_map.mp hk
          cases heq
      | takeFtTask code res sid =>
          exfalso
          dsimp only [HandlerStmt.exec] at hk
          split at hk
          · cases hk
          · cases res <;> simp at hk
      | _ =>
          exfalso
          dsimp only [HandlerStmt.exec] at hk
          repeat' split at hk
          all_goals simp at hk
          all_goals
            obtain ⟨rfl, _⟩ := hk
            cases he
  | eventLoop l =>
      rw [taskOfEvent_of_loop hexec hk] at he
      cases he
  | call c =>
      exfalso
      cases hexec
      cases c <;> dsimp only [CallStmt.exec] at hk
      all_goals repeat' split at hk
      all_goals simp at hk
  | task task =>
      exfalso
      cases task <;> dsimp only [Stmt.exec, TaskStmt.exec, finishProgram] at hexec
      all_goals repeat' split at hexec
      all_goals cases hexec
      all_goals simp at hk
      all_goals
        obtain ⟨rfl, _⟩ := hk
        cases he

end Nek0.Proofs.Native
