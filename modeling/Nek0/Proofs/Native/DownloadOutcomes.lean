import Nek0.Proofs.Native.TransferOrder

/-!
# `Nek0.Proofs.Native.DownloadOutcomes`: who decides how a download ends

The worker of a download reads the stream and gives its verdict: `verdict`. The event loop also
fails a download when a transfer status other than Ok, a failed stream or an error answer finds the
task, and a call fails it when its command is not sent: `fails`. The first of them takes the task
out of `FT_TASKS`, and its `FtDone` tells what it decided.

`outcome_of_run` is the main result. Take a run in which no status Ok is handled for the task
(`handlesOk`), and a task that was accepted once, as a download. If its `FtDone` is a success, the
worker's verdict is that the download is complete. If the worker's verdict is so, the `FtDone` is a
success, or something other than the worker has failed the task. The second case is real:
`not_outcome` is a run in which a failure status is handled while the worker still reads.

The handler of a status Ok is left out. Its comment says that Ok is ignored for a download.
-/

set_option autoImplicit false

namespace Nek0.Proofs.Native

open Nek0.Lib
open Nek0.Native

/-- What is noted of a run. -/
structure OutcomeRecord where
  /-- The events that were pushed. -/
  pushed : List TsEvent
  /-- The accept items: the task, and what its worker does. -/
  accepted : List (TaskId × TransferKind)
  /-- How the workers of the downloads ended: the task, and whether the download is complete. -/
  verdicts : List (TaskId × Bool)
  /-- The tasks that something other than a worker has failed. -/
  failures : List TaskId

/-- The accept item that the statement handles. -/
def acceptsAs : Stmt → Option (TaskId × TransferKind)
  | .eventLoop (.startDownload _ _ taskId _) => some (taskId, .download)
  | .handler (.startUpload taskId) => some (taskId, .upload)
  | _ => none

/-- The verdict of a download worker. The download is complete if the worker has read the end of the
stream and no less than the announced size. It is not if the worker was canceled, or has failed. -/
def verdict (choice : Choice) (s : Shared) : Stmt → Option (TaskId × Bool)
  | .task (.downloadCheck taskId _ _) =>
      if s.cancelFlags taskId then some (taskId, false) else none
  | .task (.downloadRead taskId total received) =>
      match choice with
      | .chunk .eof => some (taskId, decide (total ≤ received))
      | .chunk (.failed _) => some (taskId, false)
      | _ => none
  | _ => none

/-- The task that the statement fails, if it is not a worker's: by a status other than Ok, a failed
stream, an error answer, or a command that is not sent. -/
def fails (choice : Choice) (s : Shared) : Stmt → Option TaskId
  | .handler (.failStatus taskId status) => if status.isOk then none else some taskId
  | .handler (.failTransfer clientFt _) => s.ftTaskIdByClientId clientFt
  | .handler (.takeFtTask code (.error _) _) => (s.ftTaskByRc.lookup code).map (·.value)
  | .eventLoop (.sendWithResult sess (.ftTask taskId _)) =>
      match choice with
      | .sendFails _ => some taskId
      | _ => if (s.conns sess.con).link = .connected then none else some taskId
  | .call (.sendTransfer taskId t) =>
      if (s.trySend (t.command taskId)).2 then none else some taskId
  | _ => none

/-- The statement handles a status Ok for the task. -/
def handlesOk (t : TaskId) : Stmt → Bool
  | .handler (.decideStatus taskId status) => decide (taskId = t) && status.isOk
  | .handler (.failStatus taskId status) => decide (taskId = t) && status.isOk
  | _ => false

/-- What a step adds to a list of the record. -/
def noted {α : Type} (f : Choice → Shared → Stmt → Option α) (P : Machine) : NativeLabel → List α
  | .run i choice => ((Pool.head P i).bind (f choice P.shared)).toList
  | .env _ => []

/-- Notes the events, the accept items, the verdicts and the failures. -/
def outcomeObserver : Observer Machine NativeLabel OutcomeRecord where
  start := { pushed := [], accepted := [], verdicts := [], failures := [] }
  see := fun label P m =>
    { pushed := m.pushed ++ ((native.next label P).map fun P' => added P.shared P'.shared).getD []
      accepted := m.accepted ++ noted (fun _ _ => acceptsAs) P label
      verdicts := m.verdicts ++ noted verdict P label
      failures := m.failures ++ noted fails P label }

/-- The runs in which no status Ok is handled for the task. -/
abbrev OutcomeRun (t : TaskId) : Machine × OutcomeRecord → Prop :=
  (native.observed outcomeObserver).Run fun p label =>
    Pool.checks (fun _ _ st => !handlesOk t st) p.1 label = true

/-! ### What ends a task -/

/-- The statement of an upload worker. -/
def uploads (t : TaskId) : Stmt → Bool
  | .task (.uploadStart taskId) => decide (taskId = t)
  | .task (.uploadCheck taskId) => decide (taskId = t)
  | .task (.uploadWrite taskId) => decide (taskId = t)
  | .task (.uploadWait taskId _) => decide (taskId = t)
  | .task (.uploadWaitCancel taskId _) => decide (taskId = t)
  | _ => false

/-- The statement of a download worker. -/
def judges (t : TaskId) : Stmt → Nat
  | .task (.downloadStart taskId _) => if taskId = t then 1 else 0
  | .task (.downloadCheck taskId _ _) => if taskId = t then 1 else 0
  | .task (.downloadRead taskId _ _) => if taskId = t then 1 else 0
  | _ => 0

/-- Why a statement ends a task, and with which result. -/
inductive Ends (t : TaskId) (choice : Choice) (s : Shared) (st : Stmt) : Bool → Prop
  | judged {ok : Bool} : verdict choice s st = some (t, ok) → Ends t choice s st ok
  | uploaded {ok : Bool} : uploads t st = true → Ends t choice s st ok
  | failed : fails choice s st = some t → Ends t choice s st false
  | status {ok : Bool} : handlesOk t st = true → Ends t choice s st ok

/-- The statements of the workers, and the end of a task. -/
def isWork : Stmt → Bool
  | .task _ => true
  | .handler (.finishFtTask _ _ _ _) => true
  | _ => false

/-- The handler of a stream item neither works on a task nor ends one by itself. -/
theorem isWork_of_item (con : Nat) (it : StreamItem) :
    ∀ k ∈ itemProgram con it, isWork k = false := by
  intro k hk
  cases it with
  | bookEvents events =>
      obtain ⟨_, _, rfl⟩ := List.mem_map.mp hk
      rfl
  | commandError flags =>
      obtain ⟨_, _, rfl⟩ := List.mem_map.mp hk
      rfl
  | fileDownload clientFt stream => cases stream <;> simp_all [itemProgram, isWork]
  | fileUpload clientFt stream => cases stream <;> simp_all [itemProgram, isWork]
  | messageResult code res sid =>
      simp only [itemProgram, List.mem_cons, List.not_mem_nil, or_false] at hk
      rcases hk with rfl | rfl | rfl | rfl <;> rfl
  | disconnectedTemporarily reason =>
      simp only [itemProgram, List.mem_cons, List.not_mem_nil, or_false] at hk
      rcases hk with rfl | rfl | rfl <;> rfl
  | _ => simp_all [itemProgram, isWork]

/-- Nor does a command that looks up the own id. -/
theorem isWork_of_ownClient (sess : Session) (own : UInt32) (c : Command) :
    ∀ k ∈ ownClientProgram sess own c, isWork k = false := by
  have hrefuse : ∀ token message, ∀ k ∈ refuse token message, isWork k = false := by
    intro token message
    cases token <;> simp [refuse, isWork]
  cases c <;> dsimp only [ownClientProgram]
  case moveChannel clientId channelId password token =>
    cases token <;> split <;> simp [isWork]
  all_goals
    repeat' split
    all_goals first
      | exact hrefuse _ _
      | simp [isWork]

/-- After a send that fails its task is to be ended. -/
theorem ends_of_onFailed {reply : Reply} {e : String} {k : Stmt} (hk : k ∈ reply.onFailed e)
    (hwork : isWork k = true) : ∃ t clientFt, reply = .ftTask t clientFt ∧
      k = .handler (.finishFtTask t false (some e) none) := by
  cases reply with
  | ftTask t clientFt => exact ⟨t, clientFt, rfl, List.mem_singleton.mp hk⟩
  | permOp token =>
      cases token with
      | none => cases hk
      | some token =>
          obtain rfl := List.mem_singleton.mp hk
          cases hwork
  | ownMove channelId => cases hk
  | _ =>
      obtain rfl := List.mem_singleton.mp hk
      cases hwork

/-- After a send that succeeds no task is to be ended. -/
theorem isWork_of_onSent (code : ReturnCode) (sid : SendId) (reply : Reply) :
    ∀ k ∈ reply.onSent code sid, isWork k = false := by
  cases reply with
  | permOp token => cases token <;> simp [Reply.onSent, isWork]
  | _ => simp [Reply.onSent, isWork]

/-- A statement of the event loop that ends a task has failed to send its command. -/
theorem ends_of_loop {choice : Choice} {s : Shared} {l : LoopStmt} {out : NativeOutcome}
    (hexec : l.exec choice s = some out) {k : Stmt} (hk : k ∈ out.front) (hwork : isWork k = true) :
    ∃ t error origin, k = .handler (.finishFtTask t false error origin) ∧
      fails choice s (.eventLoop l) = some t := by
  -- Of the statements of the loop only `sendWithResult` can fail a task: its command could not be
  -- sent.
  cases l with
  | receive sess =>
      exfalso
      rcases receive_step hexec with ⟨_, rfl⟩ | ⟨c, rest, _, _, _, _, _, hfront⟩
      · obtain rfl := List.mem_singleton.mp hk
        cases hwork
      · rcases hfront with ⟨_, hfront⟩ | ⟨_, hfront⟩
        · rw [hfront] at hk
          obtain rfl := List.mem_singleton.mp hk
          cases hwork
        · rw [hfront] at hk
          cases c <;> simp [commandProgram] at hk
          all_goals
            repeat' rcases hk with rfl | hk
            all_goals cases hwork
  | ownClient sess c =>
      cases hexec
      rw [isWork_of_ownClient sess _ c k hk] at hwork
      cases hwork
  | sendWithResult sess reply =>
      dsimp only [LoopStmt.exec, Shared.sendWithResult] at hexec
      -- The connection is up and refuses the command, or it is not up.
      by_cases hlink : (s.conns sess.con).link = .connected
      · simp only [if_pos hlink] at hexec
        split at hexec
        · cases hexec
          obtain ⟨t, clientFt, rfl, rfl⟩ := ends_of_onFailed hk hwork
          exact ⟨t, _, _, rfl, rfl⟩
        · cases hexec
          rw [isWork_of_onSent _ _ reply k hk] at hwork
          cases hwork
      · simp only [if_neg hlink] at hexec
        have hout : out = { shared := s, front := reply.onFailed Conn.notConnected } := by
          split at hexec
          all_goals
            cases hexec
            rfl
        subst hout
        obtain ⟨t, clientFt, rfl, rfl⟩ := ends_of_onFailed hk hwork
        refine ⟨t, _, _, rfl, ?_⟩
        dsimp only [fails]
        rw [if_neg hlink]
        split <;> rfl
  | handle sess ended =>
      exfalso
      dsimp only [LoopStmt.exec] at hexec
      split at hexec
      · cases hexec
        dsimp only at hk
        split at hk
        all_goals
          obtain rfl := List.mem_singleton.mp hk
          cases hwork
      · cases hexec
        dsimp only at hk
        split at hk
        · obtain rfl := List.mem_singleton.mp hk
          cases hwork
        · rcases List.mem_append.mp hk with hk | hk
          · rw [isWork_of_item _ _ k hk] at hwork
            cases hwork
          · obtain rfl := List.mem_singleton.mp hk
            cases hwork
  | guardExit sess way =>
      exfalso
      cases hexec
      rw [exitProgram] at hk
      rcases List.mem_append.mp hk with hk | hk
      · split at hk
        · obtain ⟨_, _, rfl⟩ := List.mem_map.mp hk
          cases hwork
        · cases hk
      · simp only [leaveProgram, List.mem_cons, List.not_mem_nil, or_false] at hk
        rcases hk with rfl | rfl | rfl
        all_goals cases hwork
  | _ =>
      exfalso
      dsimp only [LoopStmt.exec, leaveProgram] at hexec
      repeat' split at hexec
      all_goals cases hexec
      all_goals simp only [List.mem_cons, List.not_mem_nil, or_false] at hk
      all_goals
        repeat' rcases hk with rfl | hk
        all_goals cases hwork

/-- How a statement that is not a worker's ends a task. -/
theorem ends_of_front {choice : Choice} {s : Shared} {st : Stmt} {out : NativeOutcome}
    (hexec : st.exec choice s = some out) {k : Stmt} (hk : k ∈ out.front)
    (hwork : isWork k = true) :
    (∃ task, st = .task task) ∨ ∃ t ok error origin,
      k = .handler (.finishFtTask t ok error origin) ∧ Ends t choice s st ok := by
  cases st with
  | write w =>
      cases hexec
      cases hk
  | handler h =>
      right
      cases hexec
      -- The handlers in turn: a rejected command, a failed transfer, a status.
      cases h with
      | takeFtTask code res sid =>
          dsimp only [HandlerStmt.exec] at hk
          split at hk
          · cases hk
          · rename_i op hlookup
            cases res with
            | ok _ => cases hk
            | error e =>
                obtain rfl := List.mem_singleton.mp hk
                refine ⟨_, _, _, _, rfl, .failed ?_⟩
                rw [fails, hlookup]
                rfl
      | failTransfer clientFt message =>
          dsimp only [HandlerStmt.exec] at hk
          split at hk
          · cases hk
          · rename_i taskId hfound
            obtain rfl := List.mem_singleton.mp hk
            exact ⟨_, _, _, _, rfl, .failed hfound⟩
      -- Status Ok decides an upload. A download goes on to the branch below.
      | decideStatus taskId status =>
          dsimp only [HandlerStmt.exec] at hk
          split at hk
          · rename_i hupload
            obtain rfl := List.mem_singleton.mp hk
            exact ⟨_, _, _, _, rfl, .status (by simp [handlesOk, hupload.2])⟩
          · obtain rfl := List.mem_singleton.mp hk
            cases hwork
      | failStatus taskId status =>
          obtain rfl := List.mem_singleton.mp hk
          refine ⟨_, _, _, _, rfl, ?_⟩
          -- This branch fails the task for every status, Ok for a download included.
          by_cases hok : status.isOk = true
          · exact .status (by simp [handlesOk, hok])
          · exact .failed (by rw [fails, if_neg hok])
      | drainPermOps =>
          obtain ⟨_, _, rfl⟩ := List.mem_map.mp hk
          cases hwork
      | markListFinished cid path sid =>
          obtain ⟨_, _, rfl⟩ := List.mem_map.mp hk
          cases hwork
      | _ =>
          exfalso
          dsimp only [HandlerStmt.exec] at hk
          repeat' split at hk
          all_goals first
            | exact absurd hk List.not_mem_nil
            | obtain rfl := List.mem_singleton.mp hk
              cases hwork
  | eventLoop l =>
      obtain ⟨t, error, origin, rfl, hfails⟩ := ends_of_loop hexec hk hwork
      exact .inr ⟨t, false, error, origin, rfl, .failed hfails⟩
  | call c =>
      right
      cases hexec
      -- A transfer that could not be queued fails at once.
      cases c with
      | sendTransfer taskId transfer =>
          dsimp only [CallStmt.exec] at hk
          split at hk
          · cases hk
          · rename_i hunsent
            obtain rfl := List.mem_singleton.mp hk
            exact ⟨_, _, _, _, rfl, .failed (by rw [fails, if_neg hunsent])⟩
      | _ =>
          exfalso
          dsimp only [CallStmt.exec] at hk
          repeat' split at hk
          all_goals simp only [List.mem_cons, List.not_mem_nil, or_false] at hk
          all_goals
            repeat' rcases hk with rfl | hk
            all_goals cases hwork
  | task task => exact .inl ⟨task, rfl⟩

/-- How a worker ends its task. -/
theorem ends_of_task {choice : Choice} {s : Shared} {task : TaskStmt} {out : NativeOutcome}
    (hexec : task.exec choice s = some out) {t : TaskId} {ok : Bool} {error : Option String}
    {origin : Option Origin} (hk : .handler (.finishFtTask t ok error origin) ∈ out.front) :
    Ends t choice s (.task task) ok := by
  -- The worker ends its download when it was cancelled, when the stream ends, or on an error.
  cases task with
  | downloadCheck taskId total received =>
      cases hexec
      dsimp only at hk
      split at hk
      · rename_i hcancel
        cases List.mem_singleton.mp hk
        exact .judged (if_pos hcancel)
      · cases List.mem_singleton.mp hk
  | downloadRead taskId total received =>
      dsimp only [TaskStmt.exec] at hexec
      split at hexec
      · cases hexec
        simp at hk
      · cases hexec
        dsimp only at hk
        -- The stream has ended: the download is complete, or too short.
        split at hk
        · rename_i hshort
          cases List.mem_singleton.mp hk
          have hnot : ¬ total ≤ received := UInt64.not_le.mpr hshort.2
          exact .judged (by simp [verdict, hnot])
        · rename_i hlong
          simp only [finishProgram, List.mem_cons, List.not_mem_nil, or_false, reduceCtorEq,
            false_or] at hk
          cases hk
          have hle : total ≤ received := by
            by_contra hlt
            rw [UInt64.not_le] at hlt
            exact hlong ⟨UInt64.lt_of_le_of_lt UInt64.zero_le hlt, hlt⟩
          exact .judged (by simp [verdict, hle])
      · cases hexec
        cases List.mem_singleton.mp hk
        exact .judged rfl
      · cases hexec
  -- The other statements that end a task are an uploader's.
  | _ =>
      dsimp only [TaskStmt.exec, finishProgram] at hexec
      repeat' split at hexec
      all_goals cases hexec
      all_goals simp only [List.mem_cons, List.not_mem_nil, or_false, reduceCtorEq] at hk
      all_goals
        cases hk
        exact .uploaded (by simp [uploads])

/-- How a statement ends a task. -/
theorem ends_of_exec {choice : Choice} {s : Shared} {st : Stmt} {out : NativeOutcome}
    (hexec : st.exec choice s = some out) {t : TaskId} {ok : Bool} {error : Option String}
    {origin : Option Origin} (hk : .handler (.finishFtTask t ok error origin) ∈ out.front) :
    Ends t choice s st ok := by
  rcases ends_of_front hexec hk rfl with ⟨task, rfl⟩ | ⟨_, _, _, _, heq, hends⟩
  · exact ends_of_task hexec hk
  · cases heq
    exact hends

/-- Only a statement of an upload worker leads to another one of the same worker. -/
theorem uploads_of_front {choice : Choice} {s : Shared} {st : Stmt} {out : NativeOutcome}
    (hexec : st.exec choice s = some out) {t : TaskId} {k : Stmt} (hk : k ∈ out.front)
    (hup : uploads t k = true) : uploads t st = true := by
  have hwork : isWork k = true := by
    cases k <;> first | rfl | cases hup
  rcases ends_of_front hexec hk hwork with ⟨task, rfl⟩ | ⟨_, _, _, _, rfl, _⟩
  · cases task <;> dsimp only [Stmt.exec, TaskStmt.exec, finishProgram] at hexec
    all_goals repeat' split at hexec
    all_goals cases hexec
    all_goals simp only [List.mem_cons, List.not_mem_nil, or_false] at hk
    all_goals
      repeat' rcases hk with rfl | hk
      all_goals first
        | exact hup
        | cases hup
  · cases hup

/-- A download worker goes on, or it gives its verdict and ends. -/
theorem judges_of_front {choice : Choice} {s : Shared} {st : Stmt} {out : NativeOutcome}
    (hexec : st.exec choice s = some out) (t : TaskId) :
    Pool.progWeight (judges t) out.front +
      (verdict choice s st).toList.countP (fun v => v.1 = t) ≤ judges t st := by
  -- Outside of the workers nothing is judged.
  have haside : (∀ task, st ≠ .task task) → Pool.progWeight (judges t) out.front +
      (verdict choice s st).toList.countP (fun v => v.1 = t) ≤ judges t st := by
    intro hst
    have hverdict : verdict choice s st = none := by
      cases st with
      | task task => exact absurd rfl (hst task)
      | _ => rfl
    rw [hverdict, Pool.progWeight_eq_zero]
    · exact Nat.zero_le _
    · intro k hk
      cases k with
      | task task =>
          rcases ends_of_front hexec hk rfl with ⟨task', rfl⟩ | ⟨_, _, _, _, heq, _⟩
          · exact absurd rfl (hst task')
          · cases heq
      | _ => rfl
  cases st with
  | task task =>
      -- A download is started, checked and read in turn. Each of these statements stands for one
      -- verdict.
      cases task with
      | downloadStart taskId total =>
          cases hexec
          dsimp only
          split
          · exact Nat.le_refl _
          · exact Nat.zero_le _
      | downloadCheck taskId total received =>
          cases hexec
          dsimp only [verdict]
          by_cases hcancel : s.cancelFlags taskId = true
          · simp [hcancel, finishProgram, judges]
          · simp [hcancel, judges]
      | downloadRead taskId total received =>
          dsimp only [Stmt.exec, TaskStmt.exec] at hexec
          split at hexec
          · cases hexec
            simp [verdict, judges]
          · cases hexec
            dsimp only
            split
            · simp [verdict, finishProgram, judges]
            · simp [verdict, finishProgram, judges]
          · cases hexec
            simp [verdict, finishProgram, judges]
          · cases hexec
      | _ =>
          dsimp only [Stmt.exec, TaskStmt.exec, finishProgram] at hexec
          repeat' split at hexec
          all_goals cases hexec
          all_goals exact Nat.le_refl 0
  | _ => exact haside (by simp)

/-- The workers that a statement starts were accepted by it. -/
theorem judges_of_spawn {choice : Choice} {s : Shared} {st : Stmt} {out : NativeOutcome}
    (hexec : st.exec choice s = some out) (t : TaskId) :
    Pool.threadsWeight (Pool.pendingWeight (judges t)) out.spawn ≤
      (acceptsAs st).toList.count (t, .download) := by
  rcases spawn_cases hexec with h | ⟨_, _, h⟩ | ⟨_, _, h⟩ | ⟨_, _, h⟩ | ⟨_, _, taskId, _, rfl, h⟩ |
    ⟨_, rfl, h⟩
  case inr.inr.inr.inr.inl =>
    rw [h, acceptsAs, Option.toList_some, List.count_singleton]
    simp [Pool.pendingWeight, judges]
  all_goals
    rw [h]
    exact Nat.zero_le _

/-! ### The invariant -/

/-- Who can have decided on this result of a download. -/
def Founded (t : TaskId) (m : OutcomeRecord) (ok : Bool) : Prop :=
  (t, ok) ∈ m.verdicts ∨ (t, .upload) ∈ m.accepted ∨ (ok = false ∧ t ∈ m.failures)

/-- What the record says of a statement that ends the task. -/
structure Backed (t : TaskId) (m : OutcomeRecord) (st : Stmt) : Prop where
  finish : ∀ ok error origin, st = .handler (.finishFtTask t ok error origin) → Founded t m ok
  done : ∀ ok d error origin, st = .write (.push (.ftDone t ok d error) origin) → Founded t m ok
  upload : uploads t st = true → (t, .upload) ∈ m.accepted

/-- The worker gives one verdict for each accept item, and every result has been decided. -/
structure Decided (t : TaskId) (P : Machine) (m : OutcomeRecord) : Prop where
  verdicts : Pool.weight (fun _ => 0) (Pool.pendingWeight (judges t)) P +
    m.verdicts.countP (fun v => v.1 = t) ≤ m.accepted.count (t, .download)
  pending : ∀ th ∈ P.threads, ∀ st ∈ th.prog, Backed t m st
  pushed : ∀ ok d error, .ftDone t ok d error ∈ m.pushed → Founded t m ok

/-- The record after a statement. -/
def OutcomeRecord.after (m : OutcomeRecord) (choice : Choice) (s : Shared) (st : Stmt)
    (s' : Shared) : OutcomeRecord where
  pushed := m.pushed ++ added s s'
  accepted := m.accepted ++ (acceptsAs st).toList
  verdicts := m.verdicts ++ (verdict choice s st).toList
  failures := m.failures ++ (fails choice s st).toList

section

variable {t : TaskId} {m : OutcomeRecord} {choice : Choice} {s s' : Shared} {st : Stmt}
  {out : NativeOutcome} {ok : Bool}

theorem Founded.after (h : Founded t m ok) : Founded t (m.after choice s st s') ok :=
  h.imp (List.mem_append_left _) (.imp (List.mem_append_left _)
    (.imp_right (List.mem_append_left _)))

theorem Backed.after {k : Stmt} (h : Backed t m k) : Backed t (m.after choice s st s') k where
  finish := fun ok error origin hk => (h.finish ok error origin hk).after
  done := fun ok d error origin hk => (h.done ok d error origin hk).after
  upload := fun hk => List.mem_append_left _ (h.upload hk)

/-- What a statement leads to has been decided, if no status Ok is handled. -/
theorem backed_of_front (hexec : st.exec choice s = some out) (hok : handlesOk t st = false)
    (hst : Backed t m st) : ∀ k ∈ out.front, Backed t (m.after choice s st s') k := by
  intro k hk
  refine ⟨?_, ?_, ?_⟩
  · rintro ok error origin rfl
    cases ends_of_exec hexec hk with
    | judged hverdict =>
        refine .inl (List.mem_append_right _ ?_)
        rw [hverdict]
        exact List.mem_singleton_self _
    | uploaded hup => exact .inr (.inl (List.mem_append_left _ (hst.upload hup)))
    | failed hfails =>
        refine .inr (.inr ⟨rfl, List.mem_append_right _ ?_⟩)
        rw [hfails]
        exact List.mem_singleton_self _
    | status hstatus =>
        rw [hok] at hstatus
        cases hstatus
  · rintro ok d error origin rfl
    obtain ⟨ok', error', d', rfl, _, heq⟩ := finish_of_push hexec hk rfl
    cases heq
    exact (hst.finish ok error origin rfl).after
  · intro hup
    exact List.mem_append_left _ (hst.upload (uploads_of_front hexec hk hup))

/-- A worker that is started was accepted. -/
theorem backed_of_spawn (hexec : st.exec choice s = some out) :
    ∀ th ∈ out.spawn, ∀ k ∈ th.prog, Backed t (m.after choice s st s') k := by
  intro th hth k hk
  have haside : (∀ ok error origin, k ≠ .handler (.finishFtTask t ok error origin)) →
      (∀ ok d error origin, k ≠ .write (.push (.ftDone t ok d error) origin)) →
      uploads t k = false → Backed t (m.after choice s st s') k := by
    intro hfinish hpush hup
    refine ⟨fun ok error origin h => absurd h (hfinish ok error origin),
      fun ok d error origin h => absurd h (hpush ok d error origin), fun h => ?_⟩
    rw [hup] at h
    cases h
  rcases spawn_cases hexec with h | ⟨_, _, h⟩ | ⟨_, _, h⟩ | ⟨_, _, h⟩ | ⟨_, _, _, _, _, h⟩ |
    ⟨taskId, rfl, h⟩
  · rw [h] at hth
    cases hth
  case inr.inr.inr.inr.inr =>
    rw [h] at hth
    obtain rfl := List.mem_singleton.mp hth
    obtain rfl := List.mem_singleton.mp hk
    refine ⟨?_, ?_, ?_⟩
    · intro ok error origin h
      cases h
    · intro ok d error origin h
      cases h
    · intro hup
      obtain rfl : taskId = t := of_decide_eq_true hup
      exact List.mem_append_right _ (List.mem_singleton_self _)
  all_goals
    rw [h] at hth
    obtain rfl := List.mem_singleton.mp hth
    obtain rfl := List.mem_singleton.mp hk
    exact haside (by simp) (by simp) rfl

/-- An `FtDone` that is pushed has been decided. -/
theorem founded_of_added (hexec : st.exec choice s = some out) (hst : Backed t m st) {d : UInt64}
    {error : Option String} (h : .ftDone t ok d error ∈ added s out.shared) : Founded t m ok := by
  have hpushes := pushes_of_exec t hexec
  have hmem : TsEvent.ftDone t ok d error ∈ (added s out.shared).filter (isFor t) :=
    List.mem_filter.mpr ⟨h, by simp [isFor, taskOfEvent]⟩
  generalize (added s out.shared).filter (isFor t) = events at hpushes hmem
  cases hpushes with
  | nothing => cases hmem
  | started _ _ => cases List.mem_singleton.mp hmem
  | progress _ _ => cases List.mem_singleton.mp hmem
  | event hpush _ =>
      obtain rfl := List.mem_singleton.mp hmem
      exact hst.done _ _ _ _ hpush

/-- A step of a thread: the statement, and what is noted of it. -/
theorem outcome_run {p p' : Machine × OutcomeRecord} {i : Nat}
    (hnext : (native.observed outcomeObserver).next (.run i choice) p = some p') :
    ∃ th st rest out, p.1.threads[i]? = some th ∧ th.prog = st :: rest ∧
      st.exec choice p.1.shared = some out ∧
      p'.1 = { shared := out.shared
               threads := p.1.threads.set i ⟨th.owner, out.front ++ rest⟩ ++ out.spawn } ∧
      p'.2 = p.2.after choice p.1.shared st out.shared := by
  obtain ⟨hstep, hsee⟩ := System.next_observed hnext
  obtain ⟨th, st, rest, out, hth, hprog, hexec, hP'⟩ := Pool.next_run hstep
  have hhead : Pool.head p.1 i = some st := by
    rw [Pool.head, hth]
    simp [hprog]
  have hshared : p'.1.shared = out.shared := by rw [hP']
  refine ⟨th, st, rest, out, hth, hprog, hexec, hP', ?_⟩
  rw [hsee]
  simp [outcomeObserver, OutcomeRecord.after, noted, hstep, hhead, hshared]

/-- What the outside does: nothing is noted of it. -/
theorem outcome_env {p p' : Machine × OutcomeRecord} {event : Happening}
    (hnext : (native.observed outcomeObserver).next (.env event) p = some p') :
    ∃ s spawn, event.exec p.1.shared = some (s, spawn) ∧
      p'.1 = { shared := s, threads := p.1.threads ++ spawn } ∧ p'.2 = p.2 := by
  obtain ⟨hstep, hsee⟩ := System.next_observed hnext
  obtain ⟨s, spawn, henv, hP'⟩ := Pool.next_env hstep
  refine ⟨s, spawn, henv, hP', ?_⟩
  have hshared : p'.1.shared = s := by rw [hP']
  have hpending : s.pendingEvents = p.1.shared.pendingEvents := by
    rcases happening_cases henv with ⟨c, _, rfl, _⟩ | ⟨_, _, rfl, _⟩ | ⟨_, _, _, rfl, _⟩
    · cases c <;> rfl
    · rfl
    · rfl
  rw [hsee]
  simp [outcomeObserver, noted, hstep, hshared, added, hpending]

/-- The statements of a call end no task, and are no worker's. -/
theorem backed_of_program (c : Call) : ∀ k ∈ c.program, judges t k = 0 ∧ Backed t m k := by
  intro k hk
  have haside : isWork k = false ∧ ∀ e origin, k ≠ .write (.push e origin) := by
    cases c <;> dsimp only [Call.program] at hk
    case queueCommand c => split at hk <;> simp_all [isWork]
    case queueFtCommand c => split at hk <;> simp_all [isWork]
    all_goals
      simp only [List.mem_cons, List.not_mem_nil, or_false] at hk
      repeat' rcases hk with rfl | hk
      all_goals simp_all [isWork]
  obtain ⟨hwork, hpush⟩ := haside
  refine ⟨?_, ?_, ?_, ?_⟩
  · cases k with
    | task task => cases hwork
    | _ => rfl
  · rintro ok error origin rfl
    cases hwork
  · intro ok d error origin heq
    exact absurd heq (hpush _ _)
  · intro hup
    cases k with
    | task task => cases hwork
    | _ => cases hup

/-- In a run in which no status Ok is handled for the task, every result has been decided. -/
theorem decided_of_run {p : Machine × OutcomeRecord} (hrun : OutcomeRun t p) :
    Decided t p.1 p.2 := by
  refine System.Run.invariant (P := fun p => Decided t p.1 p.2) ?_ ?_ hrun
  · rintro ⟨P, m⟩ ⟨⟨hshared, hthreads⟩, rfl⟩
    obtain rfl : P = ⟨Shared.initial, []⟩ := by
      cases P
      simp_all
    refine ⟨Nat.le_refl 0, ?_, ?_⟩
    · intro th hth
      cases hth
    · intro ok d error h
      cases h
  · intro p p' label h hok hnext
    cases label with
    | run i choice =>
        obtain ⟨th, st, rest, out, hth, hprog, hexec, hP', hm'⟩ := outcome_run hnext
        have hmem := List.mem_of_getElem? hth
        -- The statement that runs has what it needs for its result, and it handles no status Ok.
        have hst : Backed t p.2 st := h.pending th hmem st (by rw [hprog]; exact .head _)
        have hno : handlesOk t st = false := by
          simpa using Pool.cond_of_checks hok hth hprog
        rw [hm']
        -- The verdicts that were given and those that are still to come.
        refine ⟨?_, ?_, ?_⟩
        · have hw := Pool.weight_exec (fun _ => 0) (judges t) hth hprog out
          rw [← hP'] at hw
          have hfront := judges_of_front hexec t
          have hspawn := judges_of_spawn hexec t
          have hverdicts := h.verdicts
          dsimp only [OutcomeRecord.after]
          rw [List.countP_append, List.count_append]
          omega
        · rw [hP']
          intro u hu k hk
          rcases Pool.mem_set_append hu with hold | rfl | hnew
          · exact (h.pending u hold k hk).after
          · rcases List.mem_append.mp hk with hfront | hrest
            · exact backed_of_front hexec hno hst k hfront
            · exact (h.pending th hmem k (by rw [hprog]; exact .tail _ hrest)).after
          · exact backed_of_spawn hexec u hnew k hk
        -- A result was pushed before, or by this step.
        · intro ok d error hdone
          rcases List.mem_append.mp hdone with hold | hnew
          · exact (h.pushed ok d error hold).after
          · exact (founded_of_added hexec hst hnew).after
    | env event =>
        obtain ⟨s, spawn, henv, hP', hm'⟩ := outcome_env hnext
        have hcalls : ∀ u ∈ spawn, ∀ k ∈ u.prog, judges t k = 0 ∧ Backed t p.2 k := by
          intro u hu
          rcases happening_cases henv with ⟨c, _, _, rfl⟩ | ⟨_, _, _, rfl⟩ | ⟨_, _, _, _, rfl⟩
          · rw [List.mem_singleton.mp hu]
            exact backed_of_program c
          · cases hu
          · cases hu
        rw [hm', hP']
        refine ⟨?_, ?_, h.pushed⟩
        · have hzero : Pool.threadsWeight (Pool.pendingWeight (judges t)) spawn = 0 :=
            Pool.threadsWeight_eq_zero _ fun u hu =>
              Pool.progWeight_eq_zero _ fun k hk => (hcalls u hu k hk).1
          rw [Pool.weight, Pool.threadsWeight_append, hzero]
          exact h.verdicts
        · intro u hu k hk
          rcases List.mem_append.mp hu with hold | hnew
          · exact h.pending u hold k hk
          · exact (hcalls u hnew k hk).2

/-- A download that was accepted once: a success is its worker's. What its worker has completed is a
success, unless something else has failed the task. -/
theorem outcome_of_run {p : Machine × OutcomeRecord} (hrun : OutcomeRun t p)
    (haccepted : p.2.accepted.filter (fun a => a.1 = t) = [(t, .download)]) {d : UInt64}
    {error : Option String} (hdone : .ftDone t ok d error ∈ p.2.pushed) :
    (ok = true → (t, true) ∈ p.2.verdicts) ∧
      ((t, true) ∈ p.2.verdicts → ok = true ∨ t ∈ p.2.failures) := by
  have hdecided := decided_of_run hrun
  have hfounded := hdecided.pushed ok d error hdone
  have hno : (t, TransferKind.upload) ∉ p.2.accepted := by
    intro hmem
    have hfilter : (t, TransferKind.upload) ∈ p.2.accepted.filter (fun a => a.1 = t) :=
      List.mem_filter.mpr ⟨hmem, by simp⟩
    rw [haccepted] at hfilter
    cases List.mem_singleton.mp hfilter
  -- One acceptance starts one worker, so there is one verdict at most.
  have hone : p.2.verdicts.countP (fun v => v.1 = t) ≤ 1 := by
    have hcount : p.2.accepted.count (t, .download) ≤ 1 := by
      rw [← List.count_filter (p := fun a => decide (a.1 = t)) (by simp), haccepted,
        List.count_singleton_self]
    have hverdicts := hdecided.verdicts
    omega
  constructor
  · rintro rfl
    rcases hfounded with hverdict | hupload | ⟨hfalse, _⟩
    · exact hverdict
    · exact absurd hupload hno
    · cases hfalse
  · intro hcomplete
    cases ok with
    | true => exact .inl rfl
    | false =>
        right
        -- A failure comes from the worker, from an upload, or from elsewhere.
        rcases hfounded with hverdict | hupload | ⟨_, hfailed⟩
        · -- The worker would have given two verdicts.
          exfalso
          have hmem : ∀ v ∈ p.2.verdicts, v.1 = t →
              v ∈ p.2.verdicts.filter (fun v => v.1 = t) :=
            fun v hv ht => List.mem_filter.mpr ⟨hv, decide_eq_true ht⟩
          rw [List.countP_eq_length_filter] at hone
          obtain ⟨i, hi, heq⟩ := List.mem_iff_getElem.mp (hmem _ hcomplete rfl)
          obtain ⟨j, hj, heq'⟩ := List.mem_iff_getElem.mp (hmem _ hverdict rfl)
          obtain rfl : i = j := by omega
          rw [heq] at heq'
          cases heq'
        · exact absurd hupload hno
        · exact hfailed

end

/-- The five bytes are read to their end, and the download is done. -/
theorem outcome_downloaded : ∃ p : Machine × OutcomeRecord,
    (true = true → (1, true) ∈ p.2.verdicts) ∧
      ((1, true) ∈ p.2.verdicts → true = true ∨ 1 ∈ p.2.failures) := by
  obtain ⟨p, hrun, hobs⟩ := System.Run.exists_of_exec (native.observed outcomeObserver)
    (fun p label => Pool.checks (fun _ _ st => !handlesOk 1 st) p.1 label = true)
    (fun p label => Pool.checks (fun _ _ st => !handlesOk 1 st) p.1 label) downloaded
    (fun p => (p.2.accepted, p.2.pushed.filter isDone))
    (s := (⟨Shared.initial, []⟩, outcomeObserver.start))
    (a := ([(1, .download)], [.ftDone 1 true 5 none]))
    (fun _ _ h => h) (.start ⟨⟨rfl, rfl⟩, rfl⟩) rfl
  obtain ⟨haccepted, hpushed⟩ := Prod.mk.inj hobs
  have hdone : TsEvent.ftDone 1 true 5 none ∈ p.2.pushed.filter isDone := by
    rw [hpushed]
    exact List.mem_singleton_self _
  have hmem : TsEvent.ftDone 1 true 5 none ∈ p.2.pushed := (List.mem_filter.mp hdone).1
  refine ⟨p, outcome_of_run hrun ?_ hmem⟩
  rw [haccepted]
  rfl

/-- A transfer status of the server: `file_transfer_reset`. -/
def transferReset : TsError where
  name := "FileTransferReset"
  code := 0x0816

/-- The server reports that the transfer was reset while the worker still reads. The worker then
reads the five bytes to their end. -/
def failedMidway : List NativeLabel :=
  publishSteps 0 ++ startSteps 0 ++ asksFor 3 6 ++ iterateSteps 2 ++
    List.replicate 5 (.run 2 .go) ++
    [.run 2 (.incoming (.accepted 0x4000 (some 5) none)), .run 2 (.incoming .timeout)] ++
    List.replicate 4 (.run 2 .go) ++
    [.run 4 .go, .run 4 .go, .run 4 (.chunk (.data 5)), .run 4 .go, .run 4 .go] ++
    .run 2 .go :: iterateSteps 2 ++
    [.run 2 (.incoming (.transferFailed 0x4000 (.status transferReset false))),
      .run 2 (.incoming .timeout)] ++
    List.replicate 6 (.run 2 .go) ++ [.run 4 (.chunk .eof), .run 4 .go, .run 4 .go]

/-- The worker has completed the download, and its `FtDone` is a failure. -/
theorem not_outcome : ¬ ∀ (t : TaskId) (p : Machine × OutcomeRecord), OutcomeRun t p →
    p.2.accepted.filter (fun a => a.1 = t) = [(t, .download)] → ∀ ok d error,
      TsEvent.ftDone t ok d error ∈ p.2.pushed → (ok = true ↔ (t, true) ∈ p.2.verdicts) := by
  intro hall
  obtain ⟨p, hrun, hobs⟩ := System.Run.exists_of_exec (native.observed outcomeObserver)
    (fun p label => Pool.checks (fun _ _ st => !handlesOk 1 st) p.1 label = true)
    (fun p label => Pool.checks (fun _ _ st => !handlesOk 1 st) p.1 label) failedMidway
    (fun p => (p.2.accepted, p.2.pushed.filter isDone, p.2.verdicts))
    (s := (⟨Shared.initial, []⟩, outcomeObserver.start))
    (a := ([(1, .download)], [.ftDone 1 false 5 (some transferReset.text)], [(1, true)]))
    (fun _ _ h => h) (.start ⟨⟨rfl, rfl⟩, rfl⟩) rfl
  obtain ⟨haccepted, hrest⟩ := Prod.mk.inj hobs
  obtain ⟨hpushed, hverdicts⟩ := Prod.mk.inj hrest
  have hdone : TsEvent.ftDone 1 false 5 (some transferReset.text) ∈ p.2.pushed.filter isDone := by
    rw [hpushed]
    exact List.mem_singleton_self _
  have hiff := hall 1 p hrun (by rw [haccepted]; rfl) false 5 (some transferReset.text)
    (List.mem_filter.mp hdone).1
  have hcomplete : (1, true) ∈ p.2.verdicts := by
    rw [hverdicts]
    exact List.mem_singleton_self _
  cases hiff.mpr hcomplete

end Nek0.Proofs.Native
