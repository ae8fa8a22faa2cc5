import Nek0.Lib.Observer
import Nek0.Proofs.Native.Sessions
import Nek0.Proofs.Native.TransferCalls

/-!
# `Nek0.Proofs.Native.TransferLife`: the life of a transfer task

A call inserts a task into `FT_TASKS` and announces it. An accept item starts its worker. The task
is taken out before its `FtDone` is queued.

A task that is not bound to a client id yet has the placeholder 0xFFFF, and an item for the client
id 0xFFFF finds it. `keepsOrder` is the condition that no item finds a task before it is announced,
that no task id is handed out twice, and that no transfer moves 2^64 bytes. Under this condition:

* `numbered_of_run`: a task is still to be inserted, is in `FT_TASKS`, or is done, and is only one
  of these at a time.
* `announcedFirst_of_run`: before a task is announced, nothing but its call knows it.
-/

set_option autoImplicit false

namespace Nek0.Proofs.Native

open Nek0.Lib
open Nek0.Native

/-- What is noted of a run. -/
structure TransferRecord where
  /-- The events that were pushed. -/
  pushed : List TsEvent
  /-- The tasks of the accept items. -/
  accepted : List TaskId

/-- The task whose accept item the statement handles. -/
def accepts : Stmt → Option TaskId
  | .eventLoop (.startDownload _ _ taskId _) => some taskId
  | .handler (.startUpload taskId) => some taskId
  | _ => none

/-- The task whose accept item the step handles. -/
def acceptedBy (P : Machine) : NativeLabel → List TaskId
  | .run i _ => ((Pool.head P i).bind accepts).toList
  | .env _ => []

/-- Notes the events and the accept items. -/
def transferObserver : Observer Machine NativeLabel TransferRecord where
  start := { pushed := [], accepted := [] }
  see := fun label P m =>
    { pushed := m.pushed ++ ((native.next label P).map fun P' => added P.shared P'.shared).getD []
      accepted := m.accepted ++ acceptedBy P label }

/-- There is one accept item for each task. -/
def oneAccept (p : Machine × TransferRecord) (label : NativeLabel) : Bool :=
  (acceptedBy p.1 label).all fun t => decide (t ∉ p.2.accepted)

/-- The call has pushed the `FtStarted` event of the task. -/
def isAnnounced (t : TaskId) (P : Machine) : Bool :=
  P.threads.all fun th => decide (Stmt.write (.pushStarted t) ∉ th.prog)

/-- The condition under which the events of a task are in order. -/
def keepsOrder (P : Machine) (choice : Choice) : Stmt → Bool
  | .call (.ftNewTask _) => decide (P.shared.ftTaskSeq ∉ P.shared.history.taskIds)
  | .task (.downloadRead _ _ received) =>
    match choice with
    | .chunk (.data n) => decide (received.toNat + (UInt64.ofNat n).toNat < 2 ^ 64)
    | _ => true
  | .write (.uploadProgress taskId n) =>
    (doneOf taskId P.shared).all fun d => decide (d.toNat + n.toNat < 2 ^ 64)
  | st => ((looksUp st).bind P.shared.ftTaskIdByClientId).all fun t => isAnnounced t P

/-- The runs of the claim: one accept item for each task, and the condition. -/
abbrev TransferRun : Machine × TransferRecord → Prop :=
  (native.observed transferObserver).Run fun p label =>
    oneAccept p label = true ∧ Pool.checks keepsOrder p.1 label = true

/-- The events of the task. -/
def TransferRecord.events (m : TransferRecord) (t : TaskId) : List TsEvent :=
  m.pushed.filter (isFor t)

/-- Is it an `FtDone`? -/
def isDone : TsEvent → Bool
  | .ftDone _ _ _ _ => true
  | _ => false

/-! ### One step -/

/-- A step of a thread: the statement, and what is noted of it. -/
theorem transfer_run {p p' : Machine × TransferRecord} {i : Nat} {choice : Choice}
    (hnext : (native.observed transferObserver).next (.run i choice) p = some p') :
    ∃ th st rest out, p.1.threads[i]? = some th ∧ th.prog = st :: rest ∧
      st.exec choice p.1.shared = some out ∧
      p'.1 = { shared := out.shared
               threads := p.1.threads.set i ⟨th.owner, out.front ++ rest⟩ ++ out.spawn } ∧
      Pool.next nativeLanguage (.run i choice) p.1 = some p'.1 ∧
      (∀ t, p'.2.events t = p.2.events t ++ (added p.1.shared out.shared).filter (isFor t)) ∧
      p'.2.accepted = p.2.accepted ++ (accepts st).toList := by
  obtain ⟨hstep, hsee⟩ := System.next_observed hnext
  obtain ⟨th, st, rest, out, hth, hprog, hexec, hP'⟩ := Pool.next_run hstep
  have hhead : Pool.head p.1 i = some st := by
    rw [Pool.head, hth]
    simp [hprog]
  refine ⟨th, st, rest, out, hth, hprog, hexec, hP', hstep, ?_, ?_⟩
  · intro t
    have hshared : p'.1.shared = out.shared := by rw [hP']
    rw [TransferRecord.events, hsee]
    simp only [transferObserver, hstep, Option.map_some, Option.getD_some, List.filter_append,
      TransferRecord.events, hshared]
  · rw [hsee]
    simp [transferObserver, acceptedBy, hhead]

/-- What the outside does: nothing is noted of it. -/
theorem transfer_env {p p' : Machine × TransferRecord} {event : Happening}
    (hnext : (native.observed transferObserver).next (.env event) p = some p') :
    ∃ s spawn, event.exec p.1.shared = some (s, spawn) ∧
      p'.1 = { shared := s, threads := p.1.threads ++ spawn } ∧
      Pool.next nativeLanguage (.env event) p.1 = some p'.1 ∧
      (∀ t, p'.2.events t = p.2.events t) ∧ p'.2.accepted = p.2.accepted := by
  obtain ⟨hstep, hsee⟩ := System.next_observed hnext
  obtain ⟨s, spawn, henv, hP'⟩ := Pool.next_env hstep
  refine ⟨s, spawn, henv, hP', hstep, ?_, ?_⟩
  · intro t
    have hshared : p'.1.shared = s := by rw [hP']
    have hpending : s.pendingEvents = p.1.shared.pendingEvents := by
      rcases happening_cases henv with ⟨c, _, rfl, _⟩ | ⟨_, _, rfl, _⟩ | ⟨_, _, _, rfl, _⟩
      · cases c <;> rfl
      · rfl
      · rfl
    rw [TransferRecord.events, hsee]
    simp [transferObserver, hstep, TransferRecord.events, hshared, added, hpending]
  · rw [hsee]
    simp [transferObserver, acceptedBy]

/-! ### A task has one life -/

/-- The task is in `FT_TASKS`. -/
def alive (t : TaskId) (s : Shared) : Nat := if (doneOf t s).isSome then 1 else 0

/-- The statement has the task's insertion, or its end. -/
def lives (t : TaskId) : Stmt → Nat
  | .write (.insertTask taskId _ _ _ _) => if taskId = t then 1 else 0
  | .write (.push e _) => if isFor t e then 1 else 0
  | _ => 0

/-- The statement is the last one of the task's call. -/
def sends (t : TaskId) : Stmt → Nat
  | .call (.sendTransfer taskId _) => if taskId = t then 1 else 0
  | _ => 0

/-- No task id was handed out twice, one call has the task, and it has one life. -/
structure Numbered (t : TaskId) (P : Machine) (m : TransferRecord) : Prop where
  distinct : P.shared.history.taskIds.Nodup
  calls : Pool.weight (fun _ => 0) (Pool.pendingWeight (sends t)) P ≤
    P.shared.history.taskIds.count t
  life : Pool.weight (alive t) (Pool.pendingWeight (lives t)) P + (m.events t).countP isDone ≤
    P.shared.history.taskIds.count t

/-- The task ids handed out after a statement. -/
theorem taskIds_of_exec {choice : Choice} {s : Shared} {st : Stmt} {out : NativeOutcome}
    (hexec : st.exec choice s = some out) :
    out.shared.history.taskIds = s.history.taskIds ∨
      ∃ tr, st = .call (.ftNewTask tr) ∧
        -- Only `ft_new_task` hands out an id.
        out.shared.history.taskIds = s.history.taskIds ++ [s.ftTaskSeq] := by
  cases st with
  | write w =>
      cases hexec
      left
      cases w with
      | downloadProgress taskId d =>
          obtain ⟨_, _, heq, _⟩ := downloadProgress_frame s taskId d
          rw [heq]
      | uploadProgress taskId n =>
          obtain ⟨_, _, heq, _⟩ := uploadProgress_frame s taskId n
          rw [heq]
      | push e origin => cases origin <;> rfl
      | _ =>
          dsimp only [Write.apply]
          repeat' split
          all_goals rfl
  | handler h =>
      cases hexec
      obtain ⟨_, _, _, _, _, _, heq⟩ := handler_frame s h
      exact .inl (by rw [heq])
  | eventLoop l =>
      obtain ⟨_, _, _, _, _, _, _, _, _, _, _, _, heq, _⟩ := loop_frame hexec
      exact .inl (by rw [heq])
  | call c =>
      cases hexec
      cases c with
      | ftNewTask tr => exact .inr ⟨tr, rfl, rfl⟩
      | sendTransfer taskId tr =>
          left
          dsimp only [CallStmt.exec, Shared.trySend]
          repeat' split
          all_goals rfl
      | sendCommand c =>
          left
          dsimp only [CallStmt.exec, Shared.trySend]
          repeat' split
          all_goals rfl
      | sendDisconnect =>
          left
          dsimp only [CallStmt.exec, Shared.trySend]
          repeat' split
          all_goals rfl
      | _ =>
          left
          dsimp only [CallStmt.exec]
          repeat' split
          all_goals rfl
  | task task =>
      obtain ⟨_, _, _, _, heq⟩ := task_frame hexec
      exact .inl (by rw [heq])

/-- A statement that starts no transfer is not the last one of a call. -/
theorem sends_of_registers {t : TaskId} {st : Stmt} (h : registers st = false) :
    sends t st = 0 := by
  cases st with
  | call c => cases c <;> first | rfl | cases h
  | _ => rfl

/-- What is to be sent for a task was handed out with its id. -/
theorem sends_of_exec {choice : Choice} {s : Shared} {owner : Owner} {st : Stmt}
    {rest : List Stmt} {out : NativeOutcome} (hexec : st.exec choice s = some out)
    (hshaped : Shaped ⟨owner, st :: rest⟩) (t : TaskId) :
    Pool.progWeight (sends t) out.front + s.history.taskIds.count t ≤
      sends t st + out.shared.history.taskIds.count t := by
  have hle : s.history.taskIds.count t ≤ out.shared.history.taskIds.count t := by
    rcases taskIds_of_exec hexec with heq | ⟨_, _, heq⟩
    · rw [heq]
    · rw [heq, List.count_append]
      exact Nat.le_add_right _ _
  rcases front_of_registers hexec hshaped with hfront | ⟨tr, rfl, hfront⟩ | ⟨tr, rfl, hfront⟩ |
    ⟨tr, rfl, hfront⟩
  · rw [Pool.progWeight_eq_zero _ fun k hk => sends_of_registers (hfront k hk)]
    omega
  · rw [hfront]
    show 0 + _ ≤ 0 + _
    omega
  · rw [hfront]
    show 0 + _ ≤ 0 + _
    omega
  · cases hexec
    have hcount : (CallStmt.exec s (.ftNewTask tr)).shared.history.taskIds.count t =
        s.history.taskIds.count t + if s.ftTaskSeq = t then 1 else 0 := by
      show (s.history.taskIds ++ [s.ftTaskSeq]).count t = _
      rw [List.count_append, List.count_singleton]
      simp only [beq_iff_eq]
    rw [hcount]
    show (0 + (0 + ((if s.ftTaskSeq = t then 1 else 0) + 0))) + _ ≤ 0 + _
    omega

/-- `finish_ft_task` takes the task out. -/
theorem doneOf_finishFtTask (s : Shared) (t : TaskId) (ok : Bool) (error : Option String)
    (origin : Option Origin) :
    doneOf t ((HandlerStmt.finishFtTask t ok error origin).exec s).shared = none := by
  dsimp only [HandlerStmt.exec]
  split
  · rename_i hlookup
    rw [doneOf, hlookup]
    rfl
  · rw [doneOf, AList.lookup_erase]
    rfl

/-- Where a statement puts an end or an insertion of the task in its place. -/
theorem lives_of_front {choice : Choice} {s : Shared} {owner : Owner} {st : Stmt}
    {rest : List Stmt} {out : NativeOutcome} (hexec : st.exec choice s = some out)
    (hshaped : Shaped ⟨owner, st :: rest⟩) (t : TaskId) :
    Pool.progWeight (lives t) out.front = 0 ∨
    (∃ ok error origin, st = .handler (.finishFtTask t ok error origin) ∧
      (doneOf t s).isSome ∧ Pool.progWeight (lives t) out.front = 1) ∨
    (∃ tr, st = .call (.ftNewTask tr) ∧ s.ftTaskSeq = t ∧
      Pool.progWeight (lives t) out.front = 1) := by
  by_cases hzero : ∀ k ∈ out.front, lives t k = 0
  · exact .inl (Pool.progWeight_eq_zero _ hzero)
  · right
    simp only [not_forall] at hzero
    obtain ⟨k, hk, hlives⟩ := hzero
    -- The statement is a push of the end, or an insertion. Everything else counts nothing.
    cases k with
    | write w =>
        cases w with
        | push e origin =>
            left
            have he : taskOfEvent e = some t := by
              by_contra he
              exact hlives (by simp [lives, isFor, he])
            -- The end is pushed behind `finish_ft_task`, which found the task.
            obtain ⟨ok, error, d, rfl, hd, rfl⟩ := finish_of_push hexec hk he
            obtain ⟨task, htask, _⟩ := Option.map_eq_some_iff.mp hd
            cases hexec
            refine ⟨ok, error, origin, rfl, by rw [hd]; rfl, ?_⟩
            simp [HandlerStmt.exec, htask, lives, isFor, taskOfEvent]
        | insertTask taskId kind name localPath total =>
            right
            have ht : taskId = t := by
              by_contra ht
              exact hlives (if_neg ht)
            -- The insertion stands in the program of a call that has got its id.
            rcases front_of_registers hexec hshaped with hfront | ⟨_, _, hfront⟩ |
              ⟨_, _, hfront⟩ | ⟨tr, rfl, hfront⟩
            · cases hfront _ hk
            · rw [hfront] at hk
              cases List.mem_singleton.mp hk
            · rw [hfront] at hk
              cases List.mem_singleton.mp hk
            · rw [hfront] at hk ⊢
              obtain rfl : taskId = s.ftTaskSeq := by
                simp only [List.mem_cons, List.not_mem_nil, or_false, reduceCtorEq] at hk
                simp_all
              exact ⟨tr, rfl, ht, by simp [lives, ht]⟩
        | _ => exact absurd rfl hlives
    | _ => exact absurd rfl hlives

/-- A task's life goes on, or it ends with its `FtDone`. -/
theorem lives_of_exec {choice : Choice} {s : Shared} {owner : Owner} {st : Stmt}
    {rest : List Stmt} {out : NativeOutcome} (hexec : st.exec choice s = some out)
    (hshaped : Shaped ⟨owner, st :: rest⟩) (t : TaskId) :
    alive t out.shared + Pool.progWeight (lives t) out.front +
        ((added s out.shared).filter (isFor t)).countP isDone + s.history.taskIds.count t ≤
      alive t s + lives t st + out.shared.history.taskIds.count t := by
  have hle : s.history.taskIds.count t ≤ out.shared.history.taskIds.count t := by
    rcases taskIds_of_exec hexec with heq | ⟨_, _, heq⟩
    · rw [heq]
    · rw [heq, List.count_append]
      exact Nat.le_add_right _ _
  -- By what the step puts in its place: nothing of the task, its end, or its insertion.
  rcases lives_of_front hexec hshaped t with hfront | ⟨ok, error, origin, rfl, halive, hfront⟩ |
    ⟨tr, rfl, rfl, hfront⟩
  · have hcounts := counts_of_exec t hexec
    have hpushes := pushes_of_exec t hexec
    generalize (added s out.shared).filter (isFor t) = events at hpushes ⊢
    have hstep : alive t out.shared + events.countP isDone ≤ alive t s + lives t st := by
      -- An end is pushed at most once, by the statement that was to push it.
      have hdone : events.countP isDone = 0 ∨
          (∃ e origin, st = .write (.push e origin) ∧ lives t st = 1 ∧
            events.countP isDone ≤ 1) := by
        cases hpushes with
        | nothing => exact .inl rfl
        | started _ _ => exact .inl rfl
        | progress _ _ => exact .inl rfl
        | event hst he =>
            refine .inr ⟨_, _, hst, ?_, List.countP_le_length⟩
            rw [hst, lives, if_pos (by simp [isFor, he])]
      unfold alive
      -- The task is in the table before and after, or it comes in, or it goes out.
      cases hcounts with
      | same heq =>
          rw [heq]
          rcases hdone with hzero | ⟨_, _, _, hone, hle⟩
          · omega
          · omega
      | register hst heq =>
          subst hst
          rcases hdone with hzero | ⟨_, _, hst, _, _⟩
          · rw [hzero, heq, lives, if_pos rfl]
            simp
          · cases hst
      | store hst heq =>
          rw [heq, Option.isSome_map]
          rcases hdone with hzero | ⟨_, _, rfl, _, _⟩
          · omega
          · rcases hst with hst | hst <;> cases hst
      | add hst heq =>
          rw [heq, Option.isSome_map]
          rcases hdone with hzero | ⟨_, _, rfl, _, _⟩
          · omega
          · cases hst
      | finish hst heq =>
          rw [heq]
          rcases hdone with hzero | ⟨_, _, rfl, _, _⟩
          · simp [hzero]
          · cases hst
    omega
  · -- The task is taken out, and its `FtDone` is to be pushed.
    cases hexec
    have hadded : added s ((HandlerStmt.finishFtTask t ok error origin).exec s).shared = [] := by
      obtain ⟨_, _, _, _, _, _, heq⟩ := handler_frame s (.finishFtTask t ok error origin)
      exact added_of_append (by rw [heq, List.append_nil])
    have hbefore : alive t s = 1 := if_pos halive
    have hafter : alive t ((HandlerStmt.finishFtTask t ok error origin).exec s).shared = 0 := by
      rw [alive, doneOf_finishFtTask]
      rfl
    rw [hadded, hbefore, hafter, hfront]
    show 0 + 1 + 0 + _ ≤ 1 + 0 + _
    omega
  · -- A task id is handed out.
    cases hexec
    have hcount : (CallStmt.exec s (.ftNewTask tr)).shared.history.taskIds.count s.ftTaskSeq =
        s.history.taskIds.count s.ftTaskSeq + 1 := by
      show (s.history.taskIds ++ [s.ftTaskSeq]).count _ = _
      rw [List.count_append, List.count_singleton_self]
    have hadded : added s (CallStmt.exec s (.ftNewTask tr)).shared = [] :=
      added_of_append (List.append_nil _).symm
    have halive : alive s.ftTaskSeq (CallStmt.exec s (.ftNewTask tr)).shared =
        alive s.ftTaskSeq s := rfl
    rw [hadded, halive, hfront, hcount]
    show _ + 1 + 0 + _ ≤ _ + 0 + _
    omega

/-- What a statement starts has no part in it. -/
theorem spawn_weighs_nothing {choice : Choice} {s : Shared} {st : Stmt} {out : NativeOutcome}
    (hexec : st.exec choice s = some out) (t : TaskId) :
    Pool.threadsWeight (Pool.pendingWeight (sends t)) out.spawn = 0 ∧
      Pool.threadsWeight (Pool.pendingWeight (lives t)) out.spawn = 0 := by
  rcases spawn_cases hexec with h | ⟨_, _, h⟩ | ⟨_, _, h⟩ | ⟨_, _, h⟩ | ⟨_, _, _, _, _, h⟩ |
    ⟨_, _, h⟩
  all_goals
    rw [h]
    exact ⟨rfl, rfl⟩

/-- The programs of the calls have no part in it. -/
theorem program_weighs_nothing (c : Call) (t : TaskId) :
    Pool.progWeight (sends t) c.program = 0 ∧ Pool.progWeight (lives t) c.program = 0 := by
  cases c <;> dsimp only [Call.program]
  case queueCommand c => split <;> exact ⟨rfl, rfl⟩
  case queueFtCommand c => split <;> exact ⟨rfl, rfl⟩
  all_goals exact ⟨rfl, rfl⟩

/-- What the outside does has no part in it. -/
theorem happening_weighs_nothing {s s' : Shared} {event : Happening} {spawn : List NativeThread}
    (henv : event.exec s = some (s', spawn)) (t : TaskId) :
    s'.history.taskIds = s.history.taskIds ∧ doneOf t s' = doneOf t s ∧
      Pool.threadsWeight (Pool.pendingWeight (sends t)) spawn = 0 ∧
      Pool.threadsWeight (Pool.pendingWeight (lives t)) spawn = 0 := by
  rcases happening_cases henv with ⟨c, _, rfl, rfl⟩ | ⟨_, _, rfl, rfl⟩ | ⟨_, _, _, rfl, rfl⟩
  · obtain ⟨hsends, hlives⟩ := program_weighs_nothing c t
    refine ⟨?_, ?_, ?_, ?_⟩
    · cases c <;> rfl
    · cases c <;> rfl
    · rw [Pool.threadsWeight_cons, Pool.threadsWeight_nil, Pool.pendingWeight, hsends]
    · rw [Pool.threadsWeight_cons, Pool.threadsWeight_nil, Pool.pendingWeight, hlives]
  · exact ⟨rfl, rfl, rfl, rfl⟩
  · exact ⟨rfl, rfl, rfl, rfl⟩

/-- A run with a record is a run. -/
theorem run_of_transferRun {p : Machine × TransferRecord} (hrun : TransferRun p) :
    native.Reachable p.1 :=
  System.Run.of_observed (fun _ _ _ => trivial) hrun

/-- A statement of a thread in a run satisfies the condition. -/
theorem keepsOrder_of_checks {p : Machine × TransferRecord} {i : Nat} {choice : Choice}
    {th : NativeThread} {st : Stmt} {rest : List Stmt}
    (hok : oneAccept p (.run i choice) = true ∧
      Pool.checks keepsOrder p.1 (.run i choice : NativeLabel) = true)
    (hth : p.1.threads[i]? = some th) (hprog : th.prog = st :: rest) :
    keepsOrder p.1 choice st = true ∧ ∀ t, accepts st = some t → t ∉ p.2.accepted := by
  refine ⟨Pool.cond_of_checks hok.2 hth hprog, ?_⟩
  intro t haccepts
  have hhead : Pool.head p.1 i = some st := by
    rw [Pool.head, hth]
    simp [hprog]
  have hone := hok.1
  simp only [oneAccept, acceptedBy, hhead, Option.bind_some, haccepts] at hone
  simpa using hone

/-- In a run under the condition a task has one call and one life. -/
theorem numbered_of_run {p : Machine × TransferRecord} (hrun : TransferRun p) (t : TaskId) :
    Numbered t p.1 p.2 := by
  refine System.Run.invariant_of (P := fun p => Numbered t p.1 p.2)
    (fun _ hp => shaped_of_run (run_of_transferRun hp)) ?_ ?_ hrun
  · rintro ⟨P, m⟩ ⟨⟨hshared, hthreads⟩, rfl⟩
    have hP : P = ⟨Shared.initial, []⟩ := by
      cases P
      simp_all
    subst hP
    exact ⟨List.nodup_nil, Nat.le_refl 0, Nat.le_refl 0⟩
  · intro p p' label hshaped _ hnum hok hnext
    cases label with
    | run i choice =>
        obtain ⟨th, st, rest, out, hth, hprog, hexec, hP', hstep, hevents, _⟩ :=
          transfer_run hnext
        have hsh : Shaped ⟨th.owner, st :: rest⟩ :=
          hprog ▸ hshaped th (List.mem_of_getElem? hth)
        have hshared : p'.1.shared = out.shared := by rw [hP']
        obtain ⟨hspawn, hspawn'⟩ := spawn_weighs_nothing hexec t
        -- The three fields: distinct ids, one call for each, one life for each.
        refine ⟨?_, ?_, ?_⟩
        · rw [hshared]
          rcases taskIds_of_exec hexec with heq | ⟨tr, rfl, heq⟩
          · rw [heq]
            exact hnum.distinct
          -- The new id is not one of those before: the condition compares them.
          · have hnew := (keepsOrder_of_checks hok hth hprog).1
            rw [heq, List.nodup_append]
            refine ⟨hnum.distinct, List.nodup_singleton _, ?_⟩
            intro a ha b hb hab
            rw [hab, List.mem_singleton.mp hb] at ha
            exact (of_decide_eq_true hnew) ha
        · have hw := Pool.weight_exec (fun _ => 0) (sends t) hth hprog out
          rw [← hP', hspawn] at hw
          have hle := sends_of_exec hexec hsh t
          have hcalls := hnum.calls
          rw [hshared]
          omega
        · have hw := Pool.weight_exec (alive t) (lives t) hth hprog out
          rw [← hP', hspawn'] at hw
          have hle := lives_of_exec hexec hsh t
          have hlife := hnum.life
          rw [hshared, hevents, List.countP_append]
          omega
    | env event =>
        -- A call of the app, a tick or a lost link brings nothing of a task.
        obtain ⟨s, spawn, henv, hP', hstep, hevents, _⟩ := transfer_env hnext
        obtain ⟨hids, hdone, hsends, hlives⟩ := happening_weighs_nothing henv t
        have hshared : p'.1.shared = s := by rw [hP']
        refine ⟨?_, ?_, ?_⟩
        · rw [hshared, hids]
          exact hnum.distinct
        · rw [hshared, hids, hP', Pool.weight, Pool.threadsWeight_append, hsends]
          exact hnum.calls
        · have halive : alive t s = alive t p.1.shared := by rw [alive, hdone, alive]
          rw [hshared, hids, hevents, hP', Pool.weight, Pool.threadsWeight_append, hlives, halive]
          exact hnum.life

/-! ### Before a task is announced -/

/-- The task is not announced yet. -/
def Hidden (t : TaskId) (P : Machine) : Prop :=
  t ∉ P.shared.history.taskIds ∨ ∃ th ∈ P.threads, .write (.pushStarted t) ∈ th.prog

/-- Before a task is announced, nothing but its call knows it, and it is not taken out of
`FT_TASKS`. When it is announced, its `FtStarted` is pushed. -/
structure AnnouncedFirst (t : TaskId) (P : Machine) (m : TransferRecord) : Prop where
  unknown : Hidden t P → ¬Known t P ∧ m.events t = [] ∧ t ∉ m.accepted
  present : ∀ th ∈ P.threads, ∀ tail, th.prog = .write (.pushStarted t) :: tail →
    (doneOf t P.shared).isSome
  begun : ¬Hidden t P → m.events t ≠ []

/-- The forms in which a thread has a statement of a task's registration. -/
theorem Registration.sends_of_announce {t : TaskId} {prog : List Stmt} (h : Registration prog)
    (hst : .write (.pushStarted t) ∈ prog) : ∃ tr, .call (.sendTransfer t tr) ∈ prog := by
  cases h with
  | aside h => cases h _ hst
  | @insert taskId _ _ _ _ tr =>
      obtain rfl : t = taskId := by simpa using hst
      exact ⟨tr, by simp⟩
  | @announce taskId tr =>
      obtain rfl : t = taskId := by simpa using hst
      exact ⟨tr, by simp⟩
  | _ => simp at hst

/-- The last statement of a call is the last one of its program. -/
theorem Registration.last {t : TaskId} {tr : Transfer} {rest : List Stmt}
    (h : Registration (.call (.sendTransfer t tr) :: rest)) : rest = [] := by
  cases h with
  | aside h => cases h _ List.mem_cons_self
  | send => rfl

/-- A call that announces its task has only the command left. -/
theorem Registration.announcing {t : TaskId} {rest : List Stmt}
    (h : Registration (.write (.pushStarted t) :: rest)) :
    ∃ tr, rest = [.call (.sendTransfer t tr)] := by
  cases h with
  | aside h => cases h _ List.mem_cons_self
  | announce => exact ⟨_, rfl⟩

/-- A thread comes to announce its task by inserting it. -/
theorem Registration.inserted {choice : Choice} {s : Shared} {owner : Owner} {st : Stmt}
    {rest : List Stmt} {out : NativeOutcome} (hexec : st.exec choice s = some out)
    (hshaped : Shaped ⟨owner, st :: rest⟩) (h : Registration (st :: rest)) {t : TaskId}
    {tail : List Stmt} (heq : out.front ++ rest = .write (.pushStarted t) :: tail) :
    ∃ kind name localPath total, st = .write (.insertTask t kind name localPath total) := by
  cases h with
  | insert =>
      cases hexec
      obtain ⟨rfl, _⟩ : _ = t ∧ _ := by simpa using heq
      exact ⟨_, _, _, _, rfl⟩
  | announce =>
      cases hexec
      simp at heq
  | aside h =>
      exfalso
      have hmem : .write (.pushStarted t) ∈ out.front ++ rest := by
        rw [heq]
        exact List.mem_cons_self
      rcases List.mem_append.mp hmem with hfront | hrest
      · rcases front_of_registers hexec hshaped with hnone | ⟨_, rfl, _⟩ | ⟨_, rfl, _⟩ | ⟨_, rfl, _⟩
        · cases hnone _ hfront
        all_goals cases h _ List.mem_cons_self
      · cases h _ (.tail _ hrest)
  | _ =>
      exfalso
      rcases front_of_registers hexec hshaped with hnone | ⟨_, _, hfront⟩ | ⟨_, _, hfront⟩ |
        ⟨_, _, hfront⟩
      · have hmem : .write (.pushStarted t) ∈ out.front := by
          rw [List.append_nil] at heq
          rw [heq]
          exact List.mem_cons_self
        cases hnone _ hmem
      all_goals
        rw [hfront] at heq
        simp at heq

/-- A call with the command of a task was handed out its id, and no other thread is to announce
it. -/
theorem Numbered.sole {t : TaskId} {P : Machine} {m : TransferRecord} (hnum : Numbered t P m)
    {i : Nat} {th : NativeThread} {tr : Transfer} (hth : P.threads[i]? = some th)
    (hsend : .call (.sendTransfer t tr) ∈ th.prog) :
    t ∈ P.shared.history.taskIds ∧ ∀ j u tr', j ≠ i → P.threads[j]? = some u →
      .call (.sendTransfer t tr') ∉ u.prog := by
  have hone : ∀ {u : NativeThread} {tr' : Transfer}, .call (.sendTransfer t tr') ∈ u.prog →
      1 ≤ Pool.pendingWeight (sends t) u := by
    intro u tr' hmem
    have hst : sends t (.call (.sendTransfer t tr')) = 1 := if_pos rfl
    rw [← hst]
    exact List.le_sum_of_mem (List.mem_map_of_mem hmem)
  have hcalls := hnum.calls
  simp only [Pool.weight, Nat.zero_add] at hcalls
  constructor
  · have hle := Pool.le_threadsWeight (Pool.pendingWeight (sends t)) (List.mem_of_getElem? hth)
    have hth' := hone hsend
    exact List.count_pos_iff.mp (by omega)
  · intro j u tr' hij hu hmem
    have hle := Pool.add_le_threadsWeight (Pool.pendingWeight (sends t)) hij hth hu
    have hth' := hone hsend
    have hu' := hone hmem
    have hcount := List.nodup_iff_count_le_one.mp hnum.distinct t
    omega

variable {p p' : Machine × TransferRecord} {i : Nat} {choice : Choice} {th : NativeThread}
  {st : Stmt} {rest : List Stmt} {out : NativeOutcome} {t : TaskId}

/-- A task that is hidden after a step was hidden before it. -/
theorem hidden_of_step {P P' : Machine} (hth : P.threads[i]? = some th)
    (hprog : th.prog = st :: rest) (hexec : st.exec choice P.shared = some out)
    (hP' : P' = { shared := out.shared
                  threads := P.threads.set i ⟨th.owner, out.front ++ rest⟩ ++ out.spawn })
    (hshaped : Shaped ⟨th.owner, st :: rest⟩) (hok : keepsOrder P choice st = true)
    (h : Hidden t P') : Hidden t P := by
  have hmem := List.mem_of_getElem? hth
  subst hP'
  rcases h with hids | ⟨u, hu, hst⟩
  · left
    intro hmem'
    refine hids ?_
    rcases taskIds_of_exec hexec with heq | ⟨_, _, heq⟩
    · rwa [heq]
    · rw [heq]
      exact List.mem_append_left _ hmem'
  · rcases Pool.mem_set_append hu with hold | rfl | hspawn
    · exact .inr ⟨u, hold, hst⟩
    · rcases List.mem_append.mp hst with hfront | hrest
      · rcases front_of_registers hexec hshaped with hnone | ⟨_, _, hfront'⟩ | ⟨_, _, hfront'⟩ |
          ⟨tr, rfl, hfront'⟩
        · cases hnone _ hfront
        · rw [hfront'] at hfront
          cases List.mem_singleton.mp hfront
        · rw [hfront'] at hfront
          cases List.mem_singleton.mp hfront
        · rw [hfront'] at hfront
          obtain rfl : t = P.shared.ftTaskSeq := by simpa using hfront
          exact .inl (of_decide_eq_true hok)
      · exact .inr ⟨th, hmem, by rw [hprog]; exact .tail _ hrest⟩
    · cases spawn_of_registers hexec u hspawn _ hst

/-- The command of a task is queued when the task is announced. -/
theorem not_hidden_of_send {P : Machine} {m : TransferRecord} {tr : Transfer}
    (hnum : Numbered t P m) (hforms : ∀ u ∈ P.threads, Registration u.prog)
    (hth : P.threads[i]? = some th) (hprog : th.prog = [.call (.sendTransfer t tr)]) :
    ¬Hidden t P := by
  obtain ⟨hids, hsole⟩ := hnum.sole hth (by rw [hprog]; exact List.mem_singleton_self _)
  rintro (hnew | ⟨u, hu, hst⟩)
  · exact hnew hids
  · obtain ⟨j, hj⟩ := List.mem_iff_getElem?.mp hu
    by_cases hij : j = i
    · subst hij
      obtain rfl : u = th := by
        rw [hj] at hth
        exact Option.some.inj hth
      rw [hprog] at hst
      cases List.mem_singleton.mp hst
    · obtain ⟨tr', hsend⟩ := (hforms u hu).sends_of_announce hst
      exact hsole j u tr' hij hj hsend

/-- A task that is found is announced. -/
theorem not_hidden_of_found {P : Machine} {m : TransferRecord} {clientFt : UInt16}
    (hnum : Numbered t P m) (hok : keepsOrder P choice st = true)
    (hlooks : looksUp st = some clientFt)
    (hfound : P.shared.ftTaskIdByClientId clientFt = some t) : ¬Hidden t P := by
  have hann : isAnnounced t P = true := by
    unfold keepsOrder at hok
    split at hok
    · cases hlooks
    · cases hlooks
    · cases hlooks
    · simpa [hlooks, hfound] using hok
  have halive : 1 ≤ alive t P.shared := by
    obtain ⟨task, hlookup, _⟩ :=
      (Table.mem_keysWhere_iff _ _ _).mp (List.mem_of_head? hfound)
    refine Nat.le_of_eq (if_pos ?_).symm
    rw [doneOf, hlookup]
    rfl
  rintro (hnew | ⟨u, hu, hst⟩)
  · have hlife := hnum.life
    rw [List.count_eq_zero_of_not_mem hnew, Pool.weight] at hlife
    omega
  · exact of_decide_eq_true (List.all_eq_true.mp hann u hu) hst

/-- A statement that is about a hidden task is one of its call. -/
theorem unknown_step {P P' : Machine} {m : TransferRecord} (hth : P.threads[i]? = some th)
    (hprog : th.prog = st :: rest) (hexec : st.exec choice P.shared = some out)
    (hP' : P' = { shared := out.shared
                  threads := P.threads.set i ⟨th.owner, out.front ++ rest⟩ ++ out.spawn })
    (hnum : Numbered t P m) (hforms : ∀ u ∈ P.threads, Registration u.prog)
    (hok : keepsOrder P choice st = true) (hhidden : Hidden t P) (hunknown : ¬Known t P) :
    taskOf st ≠ some t ∧ ¬Known t P' := by
  have hmem := List.mem_of_getElem? hth
  have hst : taskOf st ≠ some t := by
    intro hst
    exact hunknown (.inr ⟨th, hmem, st, by rw [hprog]; exact List.mem_cons_self, hst⟩)
  have hintro : ¬Introduces t P.shared st := by
    intro hintro
    cases hintro with
    | queued hst =>
        subst hst
        have hform : Registration (.call (.sendTransfer t _) :: rest) := hprog ▸ hforms th hmem
        obtain rfl := hform.last
        exact not_hidden_of_send hnum hforms hth hprog hhidden
    | found hlooks hfound => exact not_hidden_of_found hnum hok hlooks hfound hhidden
  have hnone : ∀ {a : Prop}, (taskOf st = some t ∨ knownTo P.shared t ∨ Introduces t P.shared st) →
      a := by
    rintro a (h | h | h)
    · exact absurd h hst
    · exact absurd (.inl h) hunknown
    · exact absurd h hintro
  refine ⟨hst, ?_⟩
  subst hP'
  rintro (hshared | ⟨u, hu, k, hk, htask⟩)
  · exact hnone (knownTo_of_exec hexec hshared)
  · rcases Pool.mem_set_append hu with hold | rfl | hspawn
    · exact hunknown (.inr ⟨u, hold, k, hk, htask⟩)
    · rcases List.mem_append.mp hk with hfront | hrest
      · exact hnone ((taskOf_of_exec hexec).1 k hfront htask)
      · exact hunknown (.inr ⟨th, hmem, k, by rw [hprog]; exact .tail _ hrest, htask⟩)
    · exact hst ((taskOf_of_exec hexec).2 u hspawn k hk htask)

/-- When a task is announced, it is not hidden any more. -/
theorem not_hidden_of_announce {P P' : Machine} {m : TransferRecord}
    (hth : P.threads[i]? = some th) (hprog : th.prog = .write (.pushStarted t) :: rest)
    (hexec : Stmt.exec choice (.write (.pushStarted t)) P.shared = some out)
    (hP' : P' = { shared := out.shared
                  threads := P.threads.set i ⟨th.owner, out.front ++ rest⟩ ++ out.spawn })
    (hnum : Numbered t P' m) (hform : Registration (.write (.pushStarted t) :: rest))
    (hforms : ∀ u ∈ P'.threads, Registration u.prog) : ¬Hidden t P' := by
  obtain ⟨tr, rfl⟩ := hform.announcing
  have hfront : out.front = [] := by
    cases hexec
    rfl
  have hself : P'.threads[i]? = some ⟨th.owner, [.call (.sendTransfer t tr)]⟩ := by
    rw [hP', hfront]
    exact Pool.getElem?_self hth
  exact not_hidden_of_send hnum hforms hself rfl

/-- The task of an accept item is what its statement is about. -/
theorem taskOf_of_accepts (h : accepts st = some t) : taskOf st = some t := by
  cases st with
  | eventLoop l => cases l <;> first | exact h | cases h
  | handler l => cases l <;> first | exact h | cases h
  | _ => cases h

/-- A step of a thread keeps a task unknown before it is announced. -/
theorem announcedFirst_run (hshaped : ∀ u ∈ p.1.threads, Shaped u)
    (hforms : ∀ u ∈ p.1.threads, Registration u.prog)
    (hforms' : ∀ u ∈ p'.1.threads, Registration u.prog) (hnum : Numbered t p.1 p.2)
    (hnum' : Numbered t p'.1 p'.2)
    (hok : oneAccept p (.run i choice) = true ∧
      Pool.checks keepsOrder p.1 (.run i choice : NativeLabel) = true)
    (hnext : (native.observed transferObserver).next (.run i choice) p = some p')
    (h : AnnouncedFirst t p.1 p.2) : AnnouncedFirst t p'.1 p'.2 := by
  obtain ⟨th, st, rest, out, hth, hprog, hexec, hP', _, hevents, haccepted⟩ := transfer_run hnext
  have hmem := List.mem_of_getElem? hth
  have hsh : Shaped ⟨th.owner, st :: rest⟩ := hprog ▸ hshaped th hmem
  have hform : Registration (st :: rest) := hprog ▸ hforms th hmem
  have hcond := (keepsOrder_of_checks hok hth hprog).1
  have hback : Hidden t p'.1 → Hidden t p.1 := hidden_of_step hth hprog hexec hP' hsh hcond
  refine ⟨?_, ?_, ?_⟩
  -- The task is still hidden, and was before the step.
  · intro hhidden
    obtain ⟨hunknown, hnone, hnew⟩ := h.unknown (hback hhidden)
    obtain ⟨hst, hunknown'⟩ :=
      unknown_step hth hprog hexec hP' hnum hforms hcond (hback hhidden) hunknown
    refine ⟨hunknown', ?_, ?_⟩
    · rw [hevents, hnone, List.nil_append]
      have hpushes := pushes_of_exec t hexec
      generalize (added p.1.shared out.shared).filter (isFor t) = events at hpushes ⊢
      -- The only event that it could have is its start, which would show it.
      cases hpushes with
      | nothing => rfl
      | progress htask _ => exact absurd htask hst
      | event heq htask =>
          subst heq
          exact absurd htask hst
      | started heq _ =>
          subst heq
          exact absurd hhidden (not_hidden_of_announce hth hprog hexec hP' hnum' hform hforms')
    · rw [haccepted, List.mem_append, not_or]
      refine ⟨hnew, ?_⟩
      intro hmem'
      exact hst (taskOf_of_accepts (by simpa using hmem'))
  · intro u hu tail heq
    rw [hP'] at hu
    rw [show p'.1.shared = out.shared by rw [hP']]
    rcases Pool.mem_set_append hu with hold | rfl | hspawn
    · -- The task of another call that is to announce it stays in `FT_TASKS`.
      have hst : taskOf st ≠ some t := by
        intro hst
        have hhidden : Hidden t p.1 := .inr ⟨u, hold, by rw [heq]; exact List.mem_cons_self⟩
        exact (h.unknown hhidden).1
          (.inr ⟨th, hmem, st, by rw [hprog]; exact List.mem_cons_self, hst⟩)
      have hbefore := h.present u hold tail heq
      cases counts_of_exec t hexec with
      | same hsame => rwa [hsame]
      | register _ hnew =>
          rw [hnew]
          rfl
      | store _ hnew => rwa [hnew, Option.isSome_map]
      | add _ hnew => rwa [hnew, Option.isSome_map]
      | finish hfinish _ =>
          subst hfinish
          exact absurd rfl hst
    · obtain ⟨kind, name, localPath, total, rfl⟩ := hform.inserted hexec hsh heq
      cases hexec
      simp [doneOf, Write.apply]
    · cases spawn_of_registers hexec u hspawn _ (by rw [heq]; exact List.mem_cons_self)
  -- The task is shown now.
  · intro hshown
    rw [hevents]
    intro hnil
    obtain ⟨hnone, hadded⟩ := List.append_eq_nil_iff.mp hnil
    have hhidden : Hidden t p.1 := by
      by_contra hshown'
      exact h.begun hshown' hnone
    -- It was hidden until this step.
    rcases hhidden with hnew | ⟨u, hu, hst⟩
    · -- The id was handed out, and its call is to announce it.
      refine hshown ?_
      rcases taskIds_of_exec hexec with heq | ⟨tr, rfl, heq⟩
      · left
        rwa [hP', heq]
      · by_cases ht : t = p.1.shared.ftTaskSeq
        · subst ht
          cases hexec
          right
          rw [hP']
          exact ⟨_, List.mem_append_left _ (List.mem_iff_getElem?.mpr
            ⟨i, List.getElem?_set_self (List.getElem?_eq_some_iff.mp hth).1⟩), by
              simp [CallStmt.exec]⟩
        · left
          rw [hP', heq, List.mem_append, not_or]
          exact ⟨hnew, by simpa using ht⟩
    · -- The thread that was to announce it has done so.
      obtain ⟨j, hj⟩ := List.mem_iff_getElem?.mp hu
      by_cases hij : j = i
      · subst hij
        obtain rfl : u = th := by
          rw [hj] at hth
          exact Option.some.inj hth
        rw [hprog] at hst
        rcases List.mem_cons.mp hst with rfl | hrest
        · obtain ⟨d, hd⟩ := Option.isSome_iff_exists.mp (h.present u hmem rest hprog)
          obtain ⟨task, hlookup, _⟩ := Option.map_eq_some_iff.mp hd
          cases hexec
          have happend : ((Write.pushStarted t).apply p.1.shared).pendingEvents =
              p.1.shared.pendingEvents ++ [.ftStarted t task.kind task.name task.total] := by
            simp [Write.apply, hlookup, Shared.pushEvent]
          rw [added_of_append happend, List.filter_cons_of_pos (by simp [isFor, taskOfEvent])]
            at hadded
          cases hadded
        · refine hshown (.inr ⟨⟨u.owner, out.front ++ rest⟩, ?_, List.mem_append_right _ hrest⟩)
          rw [hP']
          exact List.mem_of_getElem? (Pool.getElem?_self hth)
      · refine hshown (.inr ⟨u, ?_, hst⟩)
        rw [hP']
        exact List.mem_of_getElem? (Pool.getElem?_of_ne hij hj)

/-- The programs of the calls know no task yet. -/
theorem taskOf_of_program (c : Call) (t : TaskId) :
    ∀ k ∈ c.program, taskOf k = none ∧ k ≠ .write (.pushStarted t) := by
  intro k hk
  cases c <;> simp only [Call.program, List.mem_cons, List.not_mem_nil, or_false] at hk
  case queueCommand c =>
    split at hk
    · obtain rfl := List.mem_singleton.mp hk
      cases c <;> simp_all [taskOf, taskOfCommand, Command.isQueueable]
    · cases hk
  case queueFtCommand c =>
    split at hk
    · obtain rfl := List.mem_singleton.mp hk
      cases c <;> simp_all [taskOf, taskOfCommand, Command.isQueueable]
    · cases hk
  case swipeDisconnect =>
    rcases hk with rfl | rfl | rfl | rfl <;> simp [taskOf]
  all_goals
    subst hk
    simp [taskOf]

/-- What the outside does keeps a task unknown before it is announced. -/
theorem announcedFirst_env {event : Happening}
    (hnext : (native.observed transferObserver).next (.env event) p = some p')
    (h : AnnouncedFirst t p.1 p.2) : AnnouncedFirst t p'.1 p'.2 := by
  obtain ⟨s, spawn, henv, hP', _, hevents, haccepted⟩ := transfer_env hnext
  have hspawn : ∀ u ∈ spawn, ∀ k ∈ u.prog, taskOf k = none ∧ k ≠ .write (.pushStarted t) := by
    intro u hu
    rcases happening_cases henv with ⟨c, _, _, rfl⟩ | ⟨_, _, _, rfl⟩ | ⟨_, _, _, _, rfl⟩
    · obtain rfl := List.mem_singleton.mp hu
      exact taskOf_of_program c t
    · cases hu
    · cases hu
  have hids := (happening_weighs_nothing henv t).1
  have hdone := (happening_weighs_nothing henv t).2.1
  have hknows : knownTo s t → knownTo p.1.shared t := by
    intro hknown
    rcases happening_cases henv with ⟨c, _, rfl, _⟩ | ⟨_, _, rfl, _⟩ | ⟨_, _, _, rfl, _⟩
    · cases c <;> exact hknown
    · exact hknown
    · exact hknown
  -- Nothing from outside hands out or announces a task.
  have hiff : Hidden t p'.1 ↔ Hidden t p.1 := by
    rw [hP', Hidden, Hidden, hids]
    refine or_congr Iff.rfl ⟨?_, ?_⟩
    · rintro ⟨u, hu, hst⟩
      rcases List.mem_append.mp hu with hold | hnew
      · exact ⟨u, hold, hst⟩
      · exact absurd rfl (hspawn u hnew _ hst).2
    · rintro ⟨u, hu, hst⟩
      exact ⟨u, List.mem_append_left _ hu, hst⟩
  refine ⟨?_, ?_, ?_⟩
  · intro hhidden
    obtain ⟨hunknown, hnone, hnew⟩ := h.unknown (hiff.mp hhidden)
    refine ⟨?_, by rw [hevents]; exact hnone, by rw [haccepted]; exact hnew⟩
    rw [hP']
    rintro (hshared | ⟨u, hu, k, hk, htask⟩)
    · exact hunknown (.inl (hknows hshared))
    · rcases List.mem_append.mp hu with hold | hstarted
      · exact hunknown (.inr ⟨u, hold, k, hk, htask⟩)
      · rw [(hspawn u hstarted k hk).1] at htask
        cases htask
  · intro u hu tail heq
    rw [hP'] at hu
    rw [show p'.1.shared = s by rw [hP'], hdone]
    rcases List.mem_append.mp hu with hold | hstarted
    · exact h.present u hold tail heq
    · exact absurd rfl (hspawn u hstarted (.write (.pushStarted t))
        (by rw [heq]; exact List.mem_cons_self)).2
  · intro hshown
    rw [hevents]
    exact h.begun fun hhidden => hshown (hiff.mpr hhidden)

/-- In a run under the condition no task is known before it is announced. -/
theorem announcedFirst_of_run (hrun : TransferRun p) (t : TaskId) : AnnouncedFirst t p.1 p.2 := by
  refine System.Run.invariant_of (P := fun p => AnnouncedFirst t p.1 p.2)
    (Q := fun p => native.Reachable p.1 ∧ Numbered t p.1 p.2)
    (fun _ hp => ⟨run_of_transferRun hp, numbered_of_run hp t⟩) ?_ ?_ hrun
  · rintro ⟨P, m⟩ ⟨⟨hshared, hthreads⟩, rfl⟩
    refine ⟨?_, ?_, ?_⟩
    · intro _
      refine ⟨?_, rfl, List.not_mem_nil⟩
      rintro ((⟨g, c, hc, _⟩ | ⟨code, op, hlookup, _⟩) | ⟨u, hu, _⟩)
      · rw [hshared] at hc
        cases hc
      · rw [hshared] at hlookup
        cases hlookup
      · rw [hthreads] at hu
        cases hu
    · intro u hu
      rw [hthreads] at hu
      cases hu
    · intro hshown
      exact absurd (.inl (by rw [hshared]; exact List.not_mem_nil)) hshown
  · rintro p p' label ⟨hreach, hnum⟩ ⟨hreach', hnum'⟩ h hok hnext
    cases label with
    | run i choice =>
        exact announcedFirst_run (shaped_of_run hreach) (registration_of_run hreach)
          (registration_of_run hreach') hnum hnum' hok hnext h
    | env event =>
        exact announcedFirst_env hnext h

end Nek0.Proofs.Native
