import Nek0.Proofs.Native.TransferOrder

/-!
# `Nek0.Proofs.Native.TransferEnds`: how a transfer task ends

A task that was handed out is in `FT_TASKS`, or it has one `FtDone` event, which is queued, was
returned by `ts_poll_events`, or was discarded. `settled_of_run` counts: it is exactly one of these,
unless its call is still to insert it or its `FtDone` is still to be pushed.

An accepted `ts_connect` clears the queue. It discards an `FtDone` that is still queued. And the
counter of the task ids has 32 bits: after 2^32 calls an id is handed out again, for a task that is
registered while the first one's `FtDone` is still queued (`not_settled`).
-/

set_option autoImplicit false

namespace Nek0.Proofs.Native

open Nek0.Lib
open Nek0.Native

/-- It is the `FtDone` event of the task. -/
def doneFor (t : TaskId) : TsEvent → Bool
  | .ftDone taskId _ _ _ => taskId == t
  | _ => false

/-- The statement inserts the task, or pushes its `FtDone`. -/
def ends (t : TaskId) : Stmt → Nat
  | .write (.insertTask taskId _ _ _ _) => if taskId = t then 1 else 0
  | .write (.push e _) => if doneFor t e then 1 else 0
  | _ => 0

/-- The task is registered, and its `FtDone` events: queued, returned and discarded. -/
def settledCount (t : TaskId) (s : Shared) : Nat := alive t s + eventCount (doneFor t) s

/-- A notice is not the end of a task. -/
theorem doneFor_of_isNotice (t : TaskId) (e : TsEvent) (h : isNotice e = true) :
    doneFor t e = false := by
  cases e with
  | ftDone taskId ok transferred error => cases h
  | _ => rfl

/-- A push of the end counts for the life of the task. -/
theorem ends_le_lives (t : TaskId) (st : Stmt) : ends t st ≤ lives t st := by
  cases st with
  | write w =>
      cases w with
      | insertTask taskId kind name localPath total => exact Nat.le_refl _
      | push e origin =>
          cases e with
          | ftDone taskId ok transferred error => simp [ends, lives, doneFor, isFor, taskOfEvent]
          | _ => exact Nat.zero_le _
      | _ => exact Nat.zero_le _
  | _ => exact Nat.zero_le _

/-- So do the pushes of a whole program. -/
theorem progWeight_ends_le (t : TaskId) (prog : List Stmt) :
    Pool.progWeight (ends t) prog ≤ Pool.progWeight (lives t) prog := by
  induction prog with
  | nil => exact Nat.le_refl _
  | cons st prog ih =>
      rw [Pool.progWeight_cons, Pool.progWeight_cons]
      exact Nat.add_le_add (ends_le_lives t st) ih

/-- What a statement pushes of the task's `FtDone`. -/
theorem pushes_doneFor (t : TaskId) (st : Stmt) :
    pushes (doneFor t) st = ends t st ∨ ∃ kind name localPath total,
      st = .write (.insertTask t kind name localPath total) ∧ pushes (doneFor t) st = 0 := by
  cases st with
  | write w =>
      cases w with
      | insertTask taskId kind name localPath total =>
          by_cases ht : taskId = t
          · subst ht
            exact .inr ⟨_, _, _, _, rfl, rfl⟩
          · exact .inl (if_neg ht).symm
      | _ => exact .inl rfl
  | _ => exact .inl rfl

/-- How often a task id was handed out after a statement. -/
theorem count_taskIds_of_exec {choice : Choice} {s : Shared} {st : Stmt} {out : NativeOutcome}
    (hexec : st.exec choice s = some out) (t : TaskId) :
    out.shared.history.taskIds.count t = s.history.taskIds.count t ∨
      ∃ tr, st = .call (.ftNewTask tr) ∧ s.ftTaskSeq = t := by
  rcases taskIds_of_exec hexec with heq | ⟨tr, rfl, heq⟩
  · exact .inl (by rw [heq])
  · by_cases ht : s.ftTaskSeq = t
    · exact .inr ⟨tr, rfl, ht⟩
    · refine .inl ?_
      rw [heq, List.count_append, List.count_singleton, if_neg (by simpa using ht), Nat.add_zero]

/-- `finish_ft_task` takes the task out and has its `FtDone` pushed, or there was no such task. -/
theorem ends_of_finish (s : Shared) (t taskId : TaskId) (ok : Bool) (error : Option String)
    (origin : Option Origin) :
    alive t ((HandlerStmt.finishFtTask taskId ok error origin).exec s).shared +
      Pool.progWeight (ends t) ((HandlerStmt.finishFtTask taskId ok error origin).exec s).front =
    alive t s := by
  dsimp only [HandlerStmt.exec]
  split
  · rfl
  · rename_i task hlookup
    by_cases ht : taskId = t
    · subst ht
      simp [alive, doneOf, hlookup, ends, doneFor]
    · have hne : t ≠ taskId := fun h => ht h.symm
      simp [alive, doneOf, AList.lookup_erase_ne hne, ends, doneFor, ht]

/-- A task id that is handed out is to be inserted. -/
theorem ends_of_newTask (s : Shared) (tr : Transfer) :
    settledCount s.ftTaskSeq (CallStmt.exec s (.ftNewTask tr)).shared +
        Pool.progWeight (ends s.ftTaskSeq) (CallStmt.exec s (.ftNewTask tr)).front +
        s.history.taskIds.count s.ftTaskSeq =
      settledCount s.ftTaskSeq s +
        (CallStmt.exec s (.ftNewTask tr)).shared.history.taskIds.count s.ftTaskSeq := by
  have hgrows : (CallStmt.exec s (.ftNewTask tr)).shared.history.taskIds.count s.ftTaskSeq =
      s.history.taskIds.count s.ftTaskSeq + 1 := by
    show (s.history.taskIds ++ [s.ftTaskSeq]).count _ = _
    rw [List.count_append, List.count_singleton_self]
  have hfront : Pool.progWeight (ends s.ftTaskSeq) (CallStmt.exec s (.ftNewTask tr)).front = 1 := by
    simp [CallStmt.exec, ends]
  have hsettled : settledCount s.ftTaskSeq (CallStmt.exec s (.ftNewTask tr)).shared =
      settledCount s.ftTaskSeq s := rfl
  omega

/-- A task stays what it is, or it becomes the next. -/
theorem ends_step {choice : Choice} {s : Shared} {owner : Owner} {st : Stmt}
    {rest : List Stmt} {out : NativeOutcome} (hexec : st.exec choice s = some out)
    (hshaped : Shaped ⟨owner, st :: rest⟩) (t : TaskId) (hfresh : ends t st = 1 → alive t s = 0) :
    settledCount t out.shared + Pool.progWeight (ends t) out.front + s.history.taskIds.count t =
      settledCount t s + ends t st + out.shared.history.taskIds.count t := by
  have hevents := eventCount_of_exec (doneFor_of_isNotice t) hexec
  unfold settledCount
  -- The front starts no end, it finishes the task, or it begins a new one.
  rcases lives_of_front hexec hshaped t with hfront | ⟨ok, error, origin, rfl, -, -⟩ |
    ⟨tr, rfl, rfl, -⟩
  · have hzero : Pool.progWeight (ends t) out.front = 0 := by
      have := progWeight_ends_le t out.front
      omega
    have hcount : out.shared.history.taskIds.count t = s.history.taskIds.count t := by
      rcases count_taskIds_of_exec hexec t with heq | ⟨tr, rfl, rfl⟩
      · exact heq
      · -- Its front inserts the task.
        cases hexec
        simp [CallStmt.exec, lives] at hfront
    have hpushes := pushes_doneFor t st
    -- The task's record stays, is registered, or is updated or taken out.
    cases counts_of_exec t hexec with
    | same heq =>
        have halive : alive t out.shared = alive t s := by rw [alive, heq, alive]
        rcases hpushes with hpushes | ⟨kind, name, localPath, total, rfl, -⟩
        · omega
        · have hnone := hfresh (if_pos rfl)
          cases hexec
          rw [← halive] at hnone
          simp [alive, doneOf, Write.apply] at hnone
    | register hst heq =>
        have hends : ends t st = 1 := by
          rw [hst]
          exact if_pos rfl
        have hnone : pushes (doneFor t) st = 0 := by
          rw [hst]
          rfl
        have hbefore := hfresh hends
        have hafter : alive t out.shared = 1 := by
          rw [alive, heq]
          rfl
        omega
    | store hst heq =>
        have halive : alive t out.shared = alive t s := by rw [alive, heq, Option.isSome_map, alive]
        have hsame : pushes (doneFor t) st = ends t st := by rcases hst with rfl | rfl <;> rfl
        omega
    | add hst heq =>
        have halive : alive t out.shared = alive t s := by rw [alive, heq, Option.isSome_map, alive]
        have hsame : pushes (doneFor t) st = ends t st := by rw [hst]; rfl
        omega
    | @finish ok error origin hst heq =>
        subst hst
        cases hexec
        have hfinish := ends_of_finish s t t ok error origin
        have hends : ends t (.handler (.finishFtTask t ok error origin)) = 0 := rfl
        have hnone : pushes (doneFor t) (.handler (.finishFtTask t ok error origin)) = 0 := rfl
        omega
  · have hcount : out.shared.history.taskIds.count t = s.history.taskIds.count t := by
      rcases count_taskIds_of_exec hexec t with heq | ⟨tr, hst, -⟩
      · exact heq
      · cases hst
    cases hexec
    have hfinish := ends_of_finish s t t ok error origin
    have hends : ends t (.handler (.finishFtTask t ok error origin)) = 0 := rfl
    have hnone : pushes (doneFor t) (.handler (.finishFtTask t ok error origin)) = 0 := rfl
    omega
  · cases hexec
    have hnew := ends_of_newTask s tr
    have hends : ends s.ftTaskSeq (.call (.ftNewTask tr)) = 0 := rfl
    unfold settledCount at hnew
    omega

/-- What a statement starts neither inserts the task nor ends it. -/
theorem spawn_ends_nothing {choice : Choice} {s : Shared} {st : Stmt} {out : NativeOutcome}
    (hexec : st.exec choice s = some out) (t : TaskId) :
    Pool.threadsWeight (Pool.pendingWeight (ends t)) out.spawn = 0 := by
  rcases spawn_cases hexec with h | ⟨_, _, h⟩ | ⟨_, _, h⟩ | ⟨_, _, h⟩ | ⟨_, _, _, _, _, h⟩ |
    ⟨_, _, h⟩
  all_goals
    rw [h]
    rfl

/-- What the outside does neither inserts the task nor ends it. -/
theorem happening_ends_nothing {s s' : Shared} {event : Happening} {spawn : List NativeThread}
    (henv : event.exec s = some (s', spawn)) (t : TaskId) :
    s'.history.taskIds = s.history.taskIds ∧ settledCount t s' = settledCount t s ∧
      Pool.threadsWeight (Pool.pendingWeight (ends t)) spawn = 0 := by
  rcases happening_cases henv with ⟨c, _, rfl, rfl⟩ | ⟨_, _, rfl, rfl⟩ | ⟨_, _, _, rfl, rfl⟩
  · refine ⟨?_, ?_, ?_⟩
    · cases c <;> rfl
    · cases c <;> rfl
    · rw [Pool.threadsWeight_cons, Pool.threadsWeight_nil, Pool.pendingWeight]
      cases c <;> dsimp only [Call.program]
      case queueCommand c => split <;> rfl
      case queueFtCommand c => split <;> rfl
      all_goals rfl
  · exact ⟨rfl, rfl, rfl⟩
  · exact ⟨rfl, rfl, rfl⟩

/-- The places where the task is, its calls and its end included. -/
def placesOf (t : TaskId) (P : Machine) : Nat :=
  Pool.weight (settledCount t) (Pool.pendingWeight (ends t)) P

/-- A task that was handed out at most once is in as many places as it was handed out. -/
theorem placesOf_of_run {ok : Machine → NativeLabel → Prop} {P : Machine}
    (hrun : native.Run ok P) (t : TaskId) :
    P.shared.history.taskIds.count t ≤ 1 → placesOf t P = P.shared.history.taskIds.count t := by
  refine System.Run.invariant_of
    (P := fun P : Machine => P.shared.history.taskIds.count t ≤ 1 →
      placesOf t P = P.shared.history.taskIds.count t)
    (fun _ hP => shaped_of_run hP) ?_ ?_ hrun
  · rintro P ⟨hshared, hthreads⟩ _
    have hP : P = ⟨Shared.initial, []⟩ := by
      cases P
      simp_all
    subst hP
    rfl
  · intro P P' label hshaped _ hplaces _ hnext honce
    cases label with
    | run i choice =>
        obtain ⟨th, st, rest, out, hth, hprog, hexec, rfl⟩ := Pool.next_run hnext
        have hsh : Shaped ⟨th.owner, st :: rest⟩ :=
          hprog ▸ hshaped th (List.mem_of_getElem? hth)
        -- Ids are only added, so the task had at most one before the step.
        have hle : P.shared.history.taskIds.count t ≤ out.shared.history.taskIds.count t := by
          rcases taskIds_of_exec hexec with heq | ⟨_, _, heq⟩
          · rw [heq]
          · rw [heq, List.count_append]
            exact Nat.le_add_right _ _
        change out.shared.history.taskIds.count t ≤ 1 at honce
        have hbefore := hplaces (hle.trans honce)
        -- A task whose registration is to come is in that place, and in no other.
        have hfresh : ends t st = 1 → alive t P.shared = 0 := by
          intro hends
          have hthread := Pool.le_threadsWeight (Pool.pendingWeight (ends t))
            (List.mem_of_getElem? hth)
          rw [Pool.pendingWeight, hprog, Pool.progWeight_cons, hends] at hthread
          unfold placesOf Pool.weight settledCount at hbefore
          omega
        have hstep := ends_step hexec hsh t hfresh
        have hweight := Pool.weight_exec (settledCount t) (ends t) hth hprog out
        rw [spawn_ends_nothing hexec t] at hweight
        unfold placesOf at hbefore ⊢
        show Pool.weight (settledCount t) (Pool.pendingWeight (ends t)) _ =
          out.shared.history.taskIds.count t
        omega
    | env event =>
        obtain ⟨s, spawn, henv, rfl⟩ := Pool.next_env hnext
        obtain ⟨hids, hsettled, hspawn⟩ := happening_ends_nothing henv t
        change s.history.taskIds.count t ≤ 1 at honce
        rw [hids] at honce
        have hbefore := hplaces honce
        show placesOf t { shared := s, threads := P.threads ++ spawn } = s.history.taskIds.count t
        unfold placesOf Pool.weight at hbefore ⊢
        rw [hids, hsettled, Pool.threadsWeight_append, hspawn]
        exact hbefore

/-- The call of the task has inserted it. -/
def isInserted (t : TaskId) (P : Machine) : Prop :=
  ∀ th ∈ P.threads, ∀ kind name localPath total,
    Stmt.write (.insertTask t kind name localPath total) ∉ th.prog

/-- No `finish_ft_task` of the task stands between its removal and its push. -/
def isPushed (t : TaskId) (P : Machine) : Prop :=
  ∀ th ∈ P.threads, ∀ ok transferred error origin,
    Stmt.write (.push (.ftDone t ok transferred error) origin) ∉ th.prog

/-- A task that was handed out once and inserted is registered, or its one `FtDone` is queued, was
returned, or was discarded by a `ts_connect`, and it is only one of these. -/
theorem settled_of_run {ok : Machine → NativeLabel → Prop} {P : Machine}
    (hrun : native.Run ok P) {t : TaskId} (honce : P.shared.history.taskIds.count t = 1)
    (hinserted : isInserted t P) (hpushed : isPushed t P) :
    (if t ∈ P.shared.ftTasks then 1 else 0) + P.shared.pendingEvents.countP (doneFor t) +
      P.shared.history.returned.countP (doneFor t) +
      P.shared.history.discarded.countP (doneFor t) = 1 := by
  have hplaces := placesOf_of_run hrun t (by omega)
  have hthreads : Pool.threadsWeight (Pool.pendingWeight (ends t)) P.threads = 0 := by
    refine Pool.threadsWeight_eq_zero _ fun th hth => Pool.progWeight_eq_zero _ fun st hst => ?_
    cases st with
    | write w =>
        cases w with
        | insertTask taskId kind name localPath total =>
            by_cases ht : taskId = t
            · subst ht
              exact absurd hst (hinserted th hth kind name localPath total)
            · exact if_neg ht
        | push e origin =>
            cases e with
            | ftDone taskId ok transferred error =>
                by_cases ht : taskId = t
                · subst ht
                  exact absurd hst (hpushed th hth ok transferred error origin)
                · simp [ends, doneFor, ht]
            | _ => rfl
        | _ => rfl
    | _ => rfl
  have halive : alive t P.shared = if t ∈ P.shared.ftTasks then 1 else 0 := by
    simp only [alive, doneOf, Option.isSome_map, AList.lookup_isSome]
  unfold placesOf Pool.weight settledCount eventCount at hplaces
  rw [hthreads, halive, honce] at hplaces
  omega

/-- The send of a download fails, and its `FtDone` is queued. -/
def failedSend : List NativeLabel :=
  publishSteps 0 ++ startSteps 0 ++ asksFor 3 6 ++ iterateSteps 2 ++
    [.run 2 .go, .run 2 .go, .run 2 (.sendFails "full"), .run 2 .go, .run 2 .go]

/-- The download was handed out once, and it is settled by the queued event. -/
theorem settled_failedSend : ∃ P : Machine,
    P.shared.pendingEvents.countP (doneFor 1) = 1 ∧
      (if 1 ∈ P.shared.ftTasks then 1 else 0) + P.shared.pendingEvents.countP (doneFor 1) +
        P.shared.history.returned.countP (doneFor 1) +
        P.shared.history.discarded.countP (doneFor 1) = 1 := by
  obtain ⟨P, hrun, hobs⟩ := exists_run (fun _ _ _ => true) failedSend
    (fun P => (P.shared.history.taskIds, P.shared.pendingEvents.countP (doneFor 1), P.threads))
    (a := ([1], 1, [⟨.call, []⟩, ⟨.connect 1, []⟩,
      ⟨.eventLoop 1, [.eventLoop (.receive ⟨1, 1⟩)]⟩, ⟨.call, []⟩])) rfl
  simp only [Prod.mk.injEq] at hobs
  obtain ⟨hids, hpending, hthreads⟩ := hobs
  refine ⟨P, hpending, settled_of_run hrun (by rw [hids]; rfl) ?_ ?_⟩
  · simp [isInserted, hthreads]
  · simp [isPushed, hthreads]

/-- A call that is connected hands out the next task id, and leaves its task to be inserted. -/
theorem reachable_newTask {P : Machine} (hrun : native.Reachable P)
    (hconnected : P.shared.connected = true) (halive : P.shared.eventLoopAlive = true)
    (tr : Transfer) :
    native.Reachable
      { shared := (CallStmt.exec P.shared (.ftNewTask tr)).shared
        threads := P.threads ++ [⟨.call, (CallStmt.exec P.shared (.ftNewTask tr)).front⟩] } := by
  have hcall : native.Reachable
      ⟨P.shared, P.threads ++ [⟨.call, [.call (.ftReady (.transfer tr))]⟩]⟩ :=
    hrun.step (i := .env (.call (.startTransfer tr))) trivial rfl
  have hready : native.Reachable
      ⟨P.shared, P.threads ++ [⟨.call, [.call (.ftReadyAlive (.transfer tr))]⟩]⟩ := by
    refine hcall.step (i := .run P.threads.length .go) trivial ?_
    refine (Pool.next_last rfl rfl).trans ?_
    simp [CallStmt.exec, hconnected]
  have hregister : native.Reachable
      ⟨P.shared, P.threads ++ [⟨.call, [.call (.ftNewTask tr)]⟩]⟩ := by
    refine hready.step (i := .run P.threads.length .go) trivial ?_
    refine (Pool.next_last rfl rfl).trans ?_
    simp [CallStmt.exec, halive]
  refine hregister.step (i := .run P.threads.length .go) trivial ?_
  exact (Pool.next_last rfl rfl).trans (by rw [List.append_nil])

/-- Another thread does not hide an insertion. -/
theorem isInserted_append {t : TaskId} {P : Machine} (h : isInserted t P) {s : Shared}
    {th : NativeThread} (hth : ∀ kind name localPath total,
      Stmt.write (.insertTask t kind name localPath total) ∉ th.prog) :
    isInserted t ⟨s, P.threads ++ [th]⟩ := by
  intro th' hmem
  rcases List.mem_append.mp hmem with hold | hnew
  · exact h th' hold
  · rw [List.mem_singleton.mp hnew]
    exact hth

/-- Nor does it hide a push. -/
theorem isPushed_append {t : TaskId} {P : Machine} (h : isPushed t P) {s : Shared}
    {th : NativeThread} (hth : ∀ ok transferred error origin,
      Stmt.write (.push (.ftDone t ok transferred error) origin) ∉ th.prog) :
    isPushed t ⟨s, P.threads ++ [th]⟩ := by
  intro th' hmem
  rcases List.mem_append.mp hmem with hold | hnew
  · exact h th' hold
  · rw [List.mem_singleton.mp hnew]
    exact hth

/-- Every later task id can be handed out while the first task stays what it is. -/
theorem reachable_wrapped (n : Nat) (hn : n < 4294967296) :
    ∃ P : Machine, native.Reachable P ∧ P.shared.connected = true ∧
      P.shared.eventLoopAlive = true ∧ P.shared.history.discarded = [] ∧
      P.shared.pendingEvents.countP (doneFor 1) = 1 ∧ P.shared.ftTaskSeq = .ofNat (n + 2) ∧
      isInserted 1 P ∧ isPushed 1 P := by
  induction n with
  | zero =>
      obtain ⟨P, hrun, hobs⟩ := exists_run (fun _ _ _ => true) failedSend
        (fun P => (P.shared.connected, P.shared.eventLoopAlive, P.shared.history.discarded,
          P.shared.pendingEvents.countP (doneFor 1), P.shared.ftTaskSeq, P.threads))
        (a := (true, true, [], 1, 2, [⟨.call, []⟩, ⟨.connect 1, []⟩,
          ⟨.eventLoop 1, [.eventLoop (.receive ⟨1, 1⟩)]⟩, ⟨.call, []⟩])) rfl
      simp only [Prod.mk.injEq] at hobs
      obtain ⟨hconnected, halive, hdiscarded, hpending, hseq, hthreads⟩ := hobs
      refine ⟨P, hrun.reachable, hconnected, halive, hdiscarded, hpending, hseq, ?_, ?_⟩
      · simp [isInserted, hthreads]
      · simp [isPushed, hthreads]
  | succ n ih =>
      obtain ⟨P, hrun, hconnected, halive, hdiscarded, hpending, hseq, hinserted, hpushed⟩ :=
        ih (by omega)
      refine ⟨_, reachable_newTask hrun hconnected halive fiveBytes, hconnected, halive,
        hdiscarded, hpending, ?_, ?_, ?_⟩
      · show P.shared.ftTaskSeq + 1 = _
        rw [hseq, Nat.add_right_comm, UInt32.ofNat_add (n + 2)]
        rfl
      · refine isInserted_append hinserted fun kind name localPath total hst => ?_
        -- The new call inserts another task.
        simp only [CallStmt.exec, List.mem_cons, Stmt.write.injEq, Write.insertTask.injEq,
          reduceCtorEq, List.not_mem_nil, or_false] at hst
        have hone := (UInt32.ofNat_eq_iff_mod_eq_toNat _ _).mp (hseq.symm.trans hst.1.symm)
        change (n + 2) % 4294967296 = 1 at hone
        omega
      · refine isPushed_append hpushed fun ok transferred error origin hst => ?_
        simp [CallStmt.exec] at hst

/-- The session ends, and the next `ts_connect` finds the `FtDone` still queued. -/
def clearedDone : List NativeLabel :=
  failedSend ++ [.run 2 .go, .run 2 (.incoming (.failed "reset"))] ++
    List.replicate 11 (.run 2 .go) ++ [.env (.call .tsConnect), .run 4 .go]

/-- An accepted `ts_connect` discards a queued `FtDone`. And once 2^32 more transfers were asked
for, the id is handed out again while the `FtDone` of the first task is queued. -/
theorem not_settled :
    (∃ P : Machine, native.Reachable P ∧ P.shared.history.taskIds = [1] ∧ isInserted 1 P ∧
      isPushed 1 P ∧ 1 ∉ P.shared.ftTasks ∧ P.shared.pendingEvents = [] ∧
      P.shared.history.returned = []) ∧
    ∃ P : Machine, native.Reachable P ∧ P.shared.history.discarded = [] ∧ isInserted 1 P ∧
      isPushed 1 P ∧ 1 ∈ P.shared.ftTasks ∧ P.shared.pendingEvents.countP (doneFor 1) = 1 := by
  refine ⟨?_, ?_⟩
  · obtain ⟨P, hrun, hobs⟩ := exists_run (fun _ _ _ => true) clearedDone
      (fun P => (P.shared.history.taskIds, decide (1 ∈ P.shared.ftTasks), P.shared.pendingEvents,
        P.shared.history.returned, P.threads))
      (a := ([1], false, [], [], [⟨.call, []⟩, ⟨.connect 1, []⟩, ⟨.eventLoop 1, []⟩, ⟨.call, []⟩,
        ⟨.call, []⟩, ⟨.connect 2, [.task (.handshake 2)]⟩])) rfl
    simp only [Prod.mk.injEq, decide_eq_false_iff_not] at hobs
    obtain ⟨hids, hgone, hpending, hreturned, hthreads⟩ := hobs
    refine ⟨P, hrun.reachable, hids, ?_, ?_, hgone, hpending, hreturned⟩
    · simp [isInserted, hthreads]
    · simp [isPushed, hthreads]
  · obtain ⟨P, hrun, hconnected, halive, hdiscarded, hpending, hseq, hinserted, hpushed⟩ :=
      reachable_wrapped 4294967295 (by decide)
    have hone : P.shared.ftTaskSeq = 1 := hseq
    have hinsert : native.Reachable
        { shared := Write.apply (CallStmt.exec P.shared (.ftNewTask fiveBytes)).shared
            (.insertTask P.shared.ftTaskSeq .download "a" "/tmp/a" 0)
          threads := P.threads ++ [⟨.call, [.write (.pushStarted P.shared.ftTaskSeq),
            .call (.sendTransfer P.shared.ftTaskSeq fiveBytes)]⟩] } := by
      refine (reachable_newTask hrun hconnected halive fiveBytes).step
        (i := .run P.threads.length .go) trivial ?_
      exact (Pool.next_last rfl rfl).trans rfl
    refine ⟨_, hinsert, hdiscarded, ?_, ?_, ?_, hpending⟩
    · refine isInserted_append hinserted fun kind name localPath total hst => ?_
      simp at hst
    · refine isPushed_append hpushed fun ok transferred error origin hst => ?_
      simp at hst
    · show (1 : TaskId) ∈ P.shared.ftTasks.insert P.shared.ftTaskSeq _
      rw [hone]
      exact AList.mem_insert _ |>.mpr (.inl rfl)

end Nek0.Proofs.Native
