import Nek0.Proofs.Native.TransferOrder

/-!
# `Nek0.Proofs.Native.ClientIds`: the transfer ids of the tasks

The event loop gives a task an id from the 16-bit counter `FT_CLIENT_FT`, and stores it in the task:
the task is bound. An item of a transfer carries the id, and `ft_task_id_by_client_id` looks it up.
A task that is not bound yet has the placeholder 0xFFFF.

The counter wraps around. It gives out 0xFFFF after 49151 transfers (`not_identified`), and after
65536 transfers it gives out ids that tasks can still have. `keepsIds` is the condition that it does
neither, that an item is about the transfer that was given its id last, and that no item with the id
0xFFFF comes while a task is not bound.

`identified_of_run` is the main result. In a run under this condition, the ids of the bound tasks
are pairwise distinct and are not the placeholder, and a lookup finds the task that the item is
about, or none. The invariant is `Allotted`: what has an id, or is to be bound to it, was given it
last.
-/

set_option autoImplicit false

namespace Nek0.Proofs.Native

open Nek0.Lib
open Nek0.Native

/-- A step, and the task that its item is about, if it handles an item of a transfer. -/
abbrev ItemLabel := NativeLabel × Option TaskId

/-- The native side with items that are about tasks. The code does not see what they are about. -/
def itemized : System Machine ItemLabel where
  init := native.init
  next := fun label => native.next label.1

/-- What is noted of a run. -/
structure IdRecord where
  /-- The ids that were given out, the last one first, and the tasks that were given them. -/
  given : List (UInt16 × TaskId)
  /-- The tasks that were bound since they were inserted. -/
  bound : List TaskId
  /-- The lookups: the task that the item is about, and the task that was found. -/
  lookups : List (Option TaskId × Option TaskId)

/-- The record after a statement. -/
def IdRecord.after (m : IdRecord) (s : Shared) (about : Option TaskId) (st : Stmt) : IdRecord where
  given :=
    match st with
    | .eventLoop (.nextClientFt _ taskId) => (s.ftClientFt, taskId) :: m.given
    | _ => m.given
  bound :=
    match st with
    | .write (.insertTask taskId _ _ _ _) => m.bound.filter fun t => t ≠ taskId
    | .write (.bindClientFt taskId _) =>
        if taskId ∈ s.ftTasks then taskId :: m.bound else m.bound
    | _ => m.bound
  lookups := m.lookups ++
    (looksUp st).toList.map fun clientFt => (about, s.ftTaskIdByClientId clientFt)

/-- Notes the ids that are given out, the bound tasks and the lookups. -/
def idObserver : Observer Machine ItemLabel IdRecord where
  start := { given := [], bound := [], lookups := [] }
  see := fun label P m =>
    match label.1 with
    | .run i _ => ((Pool.head P i).map (m.after P.shared label.2)).getD m
    | .env _ => m

/-- An item about a task has an id that the task was given, and an item about none has an id that no
task was given. -/
def isHonest (p : Machine × IdRecord) (label : ItemLabel) : Bool :=
  Pool.checks (fun _ _ st => (looksUp st).all fun clientFt =>
    match label.2 with
    | some t => decide ((clientFt, t) ∈ p.2.given)
    | none => (p.2.given.lookup clientFt).isNone) p.1 label.1

/-- The statement binds a task to the id. -/
def bindsTo (clientFt : UInt16) : Stmt → Bool
  | .write (.bindClientFt _ clientFt') => clientFt' == clientFt
  | _ => false

/-- No task of `FT_TASKS` has the id, and none is about to be bound to it. -/
def isFree (P : Machine) (clientFt : UInt16) : Bool :=
  (P.shared.ftTasks.entries.all fun e => e.2.clientFtId != clientFt) &&
    P.threads.all fun th => th.prog.all fun st => !bindsTo clientFt st

/-- The condition: an id that is given out is free and not the placeholder. An item is about the
transfer that was given its id last, and one with the placeholder comes when all tasks are bound. -/
def keepsIds (p : Machine × IdRecord) (label : ItemLabel) : Bool :=
  Pool.checks (fun P _ st =>
    match st with
    | .eventLoop (.nextClientFt _ _) =>
        P.shared.ftClientFt != 0xFFFF && isFree P P.shared.ftClientFt
    | st => (looksUp st).all fun clientFt => decide (label.2 = p.2.given.lookup clientFt) &&
        (clientFt != 0xFFFF || P.shared.ftTasks.keys.all fun t => decide (t ∈ p.2.bound)))
    p.1 label.1

/-- The ids of the bound tasks are pairwise distinct and not the placeholder, and what was looked up
was found, or nothing was. -/
structure Identified (P : Machine) (m : IdRecord) : Prop where
  distinct : ∀ t ∈ m.bound, ∀ t' ∈ m.bound, ∀ task task', P.shared.ftTasks.lookup t = some task →
    P.shared.ftTasks.lookup t' = some task' → task.clientFtId = task'.clientFtId → t = t'
  placeholder : ∀ t ∈ m.bound, ∀ task, P.shared.ftTasks.lookup t = some task →
    task.clientFtId ≠ 0xFFFF
  lookups : ∀ l ∈ m.lookups, l.2 = none ∨ l.2 = l.1

/-! ### The ids of the tasks -/

/-- The transfer id of a task in `FT_TASKS`. -/
def clientFtOf (t : TaskId) (s : Shared) : Option UInt16 := (s.ftTasks.lookup t).map (·.clientFtId)

/-- How a statement changes the id of a task. -/
inductive Rebinds (t : TaskId) (s : Shared) (st : Stmt) (s' : Shared) : Prop
  | same : clientFtOf t s' = clientFtOf t s → Rebinds t s st s'
  | register {kind : TransferKind} {name localPath : String} {total : UInt64} :
      st = .write (.insertTask t kind name localPath total) → clientFtOf t s' = some 0xFFFF →
      Rebinds t s st s'
  | bind {clientFt : UInt16} : st = .write (.bindClientFt t clientFt) →
      clientFtOf t s' = (clientFtOf t s).map (fun _ => clientFt) → Rebinds t s st s'
  | finish : clientFtOf t s' = none → Rebinds t s st s'

/-- Changing another field of a task leaves its id. -/
theorem clientFtOf_modify (s : Shared) (t taskId : TaskId) (f : FtTask → FtTask)
    (hf : ∀ task, (f task).clientFtId = task.clientFtId) :
    clientFtOf t { s with ftTasks := Table.modify taskId f s.ftTasks } = clientFtOf t s := by
  simp only [clientFtOf, Table.lookup_modify]
  by_cases ht : t = taskId
  · subst ht
    rw [if_pos rfl, Option.map_map]
    congr 1
    funext task
    exact hf task
  · rw [if_neg ht]

/-- A progress event leaves the id. -/
theorem clientFtOf_maybePublish (s : Shared) (t taskId : TaskId) (force : Bool) :
    clientFtOf t (s.maybePublishFtProgress taskId force) = clientFtOf t s := by
  unfold Shared.maybePublishFtProgress
  split
  · rfl
  · rename_i task hlookup
    split
    · by_cases ht : t = taskId
      · subst ht
        simp [clientFtOf, Shared.pushEvent, hlookup]
      · simp [clientFtOf, Shared.pushEvent, AList.lookup_insert_ne ht]
    · rfl

/-- The write binds its own task, if the task is there. -/
theorem clientFtOf_bind (s : Shared) (t : TaskId) (clientFt : UInt16) :
    clientFtOf t ((Write.bindClientFt t clientFt).apply s) =
      (clientFtOf t s).map fun _ => clientFt := by
  show clientFtOf t { s with ftTasks := Table.modify t _ s.ftTasks } = _
  rw [clientFtOf, Table.lookup_modify, if_pos rfl, clientFtOf, Option.map_map, Option.map_map]
  rfl

/-- How a write changes the id that a task is bound to: it binds the task, registers it, or leaves
it. -/
theorem rebinds_of_write (t : TaskId) (s : Shared) (w : Write) :
    Rebinds t s (.write w) (w.apply s) := by
  cases w with
  | bindClientFt taskId clientFt =>
      by_cases ht : t = taskId
      · subst ht
        exact .bind rfl (clientFtOf_bind s t clientFt)
      · refine .same ?_
        show clientFtOf t { s with ftTasks := Table.modify taskId _ s.ftTasks } = _
        rw [clientFtOf, Table.lookup_modify, if_neg ht, clientFtOf]
  | storeTotal taskId total => exact .same (clientFtOf_modify s t taskId _ fun _ => rfl)
  | storeDone taskId d => exact .same (clientFtOf_modify s t taskId _ fun _ => rfl)
  -- Counts and progress are other fields of the same task.
  | downloadProgress taskId d =>
      exact .same ((clientFtOf_maybePublish _ t taskId false).trans
        (clientFtOf_modify s t taskId _ fun _ => rfl))
  | uploadProgress taskId n =>
      exact .same ((clientFtOf_maybePublish _ t taskId false).trans
        (clientFtOf_modify s t taskId _ fun _ => rfl))
  | insertTask taskId kind name localPath total =>
      by_cases ht : t = taskId
      · subst ht
        refine .register rfl ?_
        simp [clientFtOf, Write.apply]
      · refine .same ?_
        simp [clientFtOf, Write.apply, AList.lookup_insert_ne ht]
  | _ =>
      refine .same ?_
      dsimp only [Write.apply]
      repeat' split
      all_goals rfl

/-- How a statement changes the id that a task is bound to. -/
theorem rebinds_of_exec (t : TaskId) {choice : Choice} {s : Shared} {st : Stmt}
    {out : NativeOutcome} (hexec : st.exec choice s = some out) : Rebinds t s st out.shared := by
  cases st with
  | write w =>
      cases hexec
      exact rebinds_of_write t s w
  | handler h =>
      cases hexec
      cases h with
      -- A task that is finished has no id any longer.
      | finishFtTask taskId ok error origin =>
          dsimp only [HandlerStmt.exec]
          split
          · exact .same rfl
          · by_cases ht : t = taskId
            · subst ht
              refine .finish ?_
              rw [clientFtOf, AList.lookup_erase]
              rfl
            · refine .same ?_
              rw [clientFtOf, AList.lookup_erase_ne ht, clientFtOf]
      | _ =>
          refine .same ?_
          dsimp only [HandlerStmt.exec]
          repeat' split
          all_goals rfl
  | eventLoop l =>
      refine .same ?_
      cases l with
      | ownClient sess c =>
          cases hexec
          simp only [Shared.ownClientIdOrCache]
          repeat' split
          all_goals rfl
      | sendWithResult sess reply =>
          dsimp only [Stmt.exec, LoopStmt.exec, Shared.sendWithResult] at hexec
          repeat' split at hexec
          all_goals cases hexec
          all_goals rfl
      | startDownload sess ended taskId total =>
          dsimp only [Stmt.exec, LoopStmt.exec] at hexec
          split at hexec <;> cases hexec
          · exact clientFtOf_maybePublish s t taskId true
          · rfl
      | _ =>
          dsimp only [Stmt.exec, LoopStmt.exec] at hexec
          repeat' split at hexec
          all_goals cases hexec
          all_goals rfl
  | call c =>
      cases hexec
      obtain ⟨_, _, _, _, _, _, _, _, heq, _⟩ := call_frame s c
      refine .same ?_
      rw [heq]
      rfl
  | task task =>
      obtain ⟨_, _, _, _, heq⟩ := task_frame hexec
      refine .same ?_
      rw [heq]
      rfl

/-! ### Where an id is given out -/

/-- The statement binds a task. -/
def binds : Stmt → Bool
  | .write (.bindClientFt _ _) => true
  | _ => false

/-- The handler of a stream item binds no task. -/
theorem binds_of_item (con : Nat) (it : StreamItem) :
    ∀ k ∈ itemProgram con it, binds k = false := by
  intro k hk
  cases it with
  | bookEvents events =>
      obtain ⟨e, _, rfl⟩ := List.mem_map.mp hk
      cases e <;> rfl
  | commandError flags =>
      obtain ⟨_, _, rfl⟩ := List.mem_map.mp hk
      rfl
  | fileDownload clientFt stream => cases stream <;> simp_all [itemProgram, binds]
  | fileUpload clientFt stream => cases stream <;> simp_all [itemProgram, binds]
  | messageResult code res sid =>
      simp only [itemProgram, List.mem_cons, List.not_mem_nil, or_false] at hk
      rcases hk with rfl | rfl | rfl | rfl <;> rfl
  | disconnectedTemporarily reason =>
      simp only [itemProgram, List.mem_cons, List.not_mem_nil, or_false] at hk
      rcases hk with rfl | rfl | rfl <;> rfl
  | _ => simp_all [itemProgram, binds]

/-- Nor does a command that looks up the own id. -/
theorem binds_of_ownClient (sess : Session) (own : UInt32) (c : Command) :
    ∀ k ∈ ownClientProgram sess own c, binds k = false := by
  have hrefuse : ∀ token message, ∀ k ∈ refuse token message, binds k = false := by
    intro token message
    cases token <;> simp [refuse, binds]
  cases c <;> dsimp only [ownClientProgram]
  case moveChannel clientId channelId password token =>
    cases token <;> split <;> simp [binds]
  all_goals
    repeat' split
    all_goals first
      | exact hrefuse _ _
      | simp [binds]

/-- Nor does sending a command. -/
theorem binds_of_sendWithResult (s : Shared) (con : Nat) (reply : Reply) (failure : Option String) :
    ∀ k ∈ (s.sendWithResult con reply failure).front, binds k = false := by
  dsimp only [Shared.sendWithResult]
  repeat' split
  all_goals
    cases reply with
    | permOp token => cases token <;> simp [Reply.onSent, Reply.onFailed, binds]
    | _ => simp [Reply.onSent, Reply.onFailed, binds]

/-- Nor does the exit of a session. -/
theorem binds_of_exit (s : Shared) (sess : Session) (way : ExitWay) :
    ∀ k ∈ exitProgram s sess way, binds k = false := by
  rw [exitProgram, List.forall_mem_append]
  constructor
  · split
    · cases way <;> simp [ExitWay.writes, binds]
    · simp
  · simp [leaveProgram, binds]

/-- A task is to be bound when the event loop gives it an id. -/
theorem given_of_loop {choice : Choice} {s : Shared} {l : LoopStmt} {out : NativeOutcome}
    (hexec : l.exec choice s = some out) {k : Stmt} (hk : k ∈ out.front) (hbinds : binds k = true) :
    ∃ sess t, l = .nextClientFt sess t ∧ k = .write (.bindClientFt t s.ftClientFt) := by
  -- Only `nextClientFt` is followed by a write that binds.
  cases l with
  | receive sess =>
      exfalso
      rcases receive_step hexec with ⟨_, rfl⟩ | ⟨c, rest, _, _, _, _, _, hfront⟩
      · obtain rfl := List.mem_singleton.mp hk
        cases hbinds
      · rcases hfront with ⟨_, hfront⟩ | ⟨_, hfront⟩
        · rw [hfront] at hk
          obtain rfl := List.mem_singleton.mp hk
          cases hbinds
        · rw [hfront] at hk
          cases c <;> simp [commandProgram] at hk
          all_goals
            repeat' rcases hk with rfl | hk
            all_goals cases hbinds
  | ownClient sess c =>
      cases hexec
      rw [binds_of_ownClient sess _ c k hk] at hbinds
      cases hbinds
  | sendWithResult sess reply =>
      dsimp only [LoopStmt.exec] at hexec
      split at hexec
      all_goals
        cases hexec
        rw [binds_of_sendWithResult s sess.con reply _ k hk] at hbinds
        cases hbinds
  | nextClientFt sess taskId =>
      cases hexec
      simp only [List.mem_cons, List.not_mem_nil, or_false] at hk
      rcases hk with rfl | rfl
      · exact ⟨sess, taskId, rfl, rfl⟩
      · cases hbinds
  | handle sess ended =>
      exfalso
      dsimp only [LoopStmt.exec] at hexec
      split at hexec
      · cases hexec
        dsimp only at hk
        split at hk
        all_goals
          obtain rfl := List.mem_singleton.mp hk
          cases hbinds
      · cases hexec
        dsimp only at hk
        split at hk
        · obtain rfl := List.mem_singleton.mp hk
          cases hbinds
        · rcases List.mem_append.mp hk with hk | hk
          · rw [binds_of_item _ _ k hk] at hbinds
            cases hbinds
          · obtain rfl := List.mem_singleton.mp hk
            cases hbinds
  | guardExit sess way =>
      cases hexec
      rw [binds_of_exit s sess way k hk] at hbinds
      cases hbinds
  | _ =>
      exfalso
      dsimp only [LoopStmt.exec, leaveProgram] at hexec
      repeat' split at hexec
      all_goals cases hexec
      all_goals simp only [List.mem_cons, List.not_mem_nil, or_false] at hk
      all_goals
        repeat' rcases hk with rfl | hk
        all_goals cases hbinds

/-- A task is to be bound to the id that a statement has given it. -/
theorem given_of_front {choice : Choice} {s : Shared} {st : Stmt} {out : NativeOutcome}
    (hexec : st.exec choice s = some out) {t : TaskId} {clientFt : UInt16}
    (hk : .write (.bindClientFt t clientFt) ∈ out.front) :
    ∃ sess, st = .eventLoop (.nextClientFt sess t) ∧ clientFt = s.ftClientFt := by
  -- Only `nextClientFt` writes a binding. Everything else has other statements in front.
  cases st with
  | write w =>
      cases hexec
      cases hk
  | handler h =>
      exfalso
      cases hexec
      cases h with
      | drainPermOps =>
          obtain ⟨_, _, heq⟩ := List.mem_map.mp hk
          cases heq
      | markListFinished cid path sid =>
          obtain ⟨_, _, heq⟩ := List.mem_map.mp hk
          cases heq
      | _ =>
          dsimp only [HandlerStmt.exec] at hk
          repeat' split at hk
          all_goals simp at hk
  | eventLoop l =>
      obtain ⟨sess, t', rfl, heq⟩ := given_of_loop hexec hk rfl
      cases heq
      exact ⟨sess, rfl, rfl⟩
  | call c =>
      exfalso
      cases hexec
      cases c <;> dsimp only [CallStmt.exec] at hk
      all_goals repeat' split at hk
      all_goals simp at hk
  | task task =>
      exfalso
      cases task <;> dsimp only [Stmt.exec, TaskStmt.exec, finishProgram] at hexec
      all_goals repeat' split at hexec
      all_goals cases hexec
      all_goals simp at hk

/-- What a statement starts binds no task. -/
theorem binds_of_spawn {choice : Choice} {s : Shared} {st : Stmt} {out : NativeOutcome}
    (hexec : st.exec choice s = some out) : ∀ th ∈ out.spawn, ∀ k ∈ th.prog, binds k = false := by
  intro th hth k hk
  rcases spawn_cases hexec with h | ⟨_, _, h⟩ | ⟨_, _, h⟩ | ⟨_, _, h⟩ | ⟨_, _, _, _, _, h⟩ |
    ⟨_, _, h⟩
  · rw [h] at hth
    cases hth
  all_goals
    rw [h] at hth
    obtain rfl := List.mem_singleton.mp hth
    obtain rfl := List.mem_singleton.mp hk
    rfl

/-- A call binds no task. -/
theorem binds_of_program (c : Call) : ∀ k ∈ c.program, binds k = false := by
  cases c <;> dsimp only [Call.program]
  case queueCommand c => split <;> simp [binds]
  case queueFtCommand c => split <;> simp [binds]
  all_goals simp [binds]

/-! ### The invariant -/

/-- What has an id, or is to be bound to it, was given it last, and the placeholder was not given.
-/
structure Allotted (P : Machine) (m : IdRecord) : Prop where
  table : ∀ t clientFt, clientFtOf t P.shared = some clientFt → clientFt ≠ 0xFFFF →
    m.given.lookup clientFt = some t
  pending : ∀ th ∈ P.threads, ∀ t clientFt, .write (.bindClientFt t clientFt) ∈ th.prog →
    clientFt ≠ 0xFFFF ∧ m.given.lookup clientFt = some t
  bound : ∀ t ∈ m.bound, ∀ clientFt, clientFtOf t P.shared = some clientFt → clientFt ≠ 0xFFFF
  lookups : ∀ l ∈ m.lookups, l.2 = none ∨ l.2 = l.1

/-- A bound task has an id that was given to it last, so the ids identify the tasks. -/
theorem Allotted.identified {P : Machine} {m : IdRecord} (h : Allotted P m) : Identified P m := by
  have hid : ∀ {t task}, P.shared.ftTasks.lookup t = some task →
      clientFtOf t P.shared = some task.clientFtId := by
    intro t task hlookup
    rw [clientFtOf, hlookup]
    rfl
  refine ⟨?_, ?_, h.lookups⟩
  · intro t ht t' ht' task task' hlookup hlookup' heq
    have hgiven := h.table t _ (hid hlookup) (h.bound t ht _ (hid hlookup))
    have hgiven' := h.table t' _ (hid hlookup') (h.bound t' ht' _ (hid hlookup'))
    rw [heq, hgiven'] at hgiven
    exact (Option.some.inj hgiven).symm
  · intro t ht task hlookup
    exact h.bound t ht _ (hid hlookup)

section

variable {P : Machine} {m : IdRecord} {p p' : Machine × IdRecord} {i : Nat} {choice : Choice}
  {about : Option TaskId} {th : NativeThread} {st : Stmt} {rest : List Stmt} {out : NativeOutcome}
  {s : Shared} {t : TaskId} {clientFt : UInt16}

/-- An id in the table is not free. -/
theorem not_isFree_of_table (h : clientFtOf t P.shared = some clientFt) :
    isFree P clientFt = false := by
  obtain ⟨task, hlookup, rfl⟩ := Option.map_eq_some_iff.mp h
  rw [isFree, Bool.and_eq_false_iff]
  left
  rw [List.all_eq_false]
  exact ⟨⟨t, task⟩, (Table.mem_entries_iff _ t task).mpr hlookup, by simp⟩

/-- Nor is an id that is to be written. -/
theorem not_isFree_of_pending (hth : th ∈ P.threads)
    (hk : .write (.bindClientFt t clientFt) ∈ th.prog) : isFree P clientFt = false := by
  rw [isFree, Bool.and_eq_false_iff]
  right
  rw [List.all_eq_false]
  refine ⟨th, hth, ?_⟩
  rw [Bool.not_eq_true, List.all_eq_false]
  exact ⟨_, hk, by simp [bindsTo]⟩

/-- What the condition says of a statement that gives out an id. -/
theorem isFree_of_keepsIds {sess : Session} (hok : keepsIds p (.run i choice, about) = true)
    (hth : p.1.threads[i]? = some th)
    (hprog : th.prog = .eventLoop (.nextClientFt sess t) :: rest) :
    p.1.shared.ftClientFt ≠ 0xFFFF ∧ isFree p.1 p.1.shared.ftClientFt = true := by
  have hcond := Pool.cond_of_checks hok hth hprog
  simpa using hcond

/-- What the condition says of a lookup. -/
theorem about_of_keepsIds (hok : keepsIds p (.run i choice, about) = true)
    (hth : p.1.threads[i]? = some th) (hprog : th.prog = st :: rest)
    (hlooks : looksUp st = some clientFt) : about = p.2.given.lookup clientFt ∧
      (clientFt ≠ 0xFFFF ∨ ∀ t ∈ p.1.shared.ftTasks.keys, t ∈ p.2.bound) := by
  have hcond := Pool.cond_of_checks hok hth hprog
  unfold looksUp at hlooks
  split at hlooks
  all_goals first
    | obtain rfl := Option.some.inj hlooks
      simpa [looksUp] using hcond
    | cases hlooks

/-- An id that is in use is not given out again. -/
theorem given_kept (hok : keepsIds p (.run i choice, about) = true)
    (hth : p.1.threads[i]? = some th) (hprog : th.prog = st :: rest)
    (hused : isFree p.1 clientFt = false) :
    (p.2.after p.1.shared about st).given.lookup clientFt = p.2.given.lookup clientFt := by
  unfold IdRecord.after
  split
  · obtain ⟨_, hfree⟩ := isFree_of_keepsIds hok hth hprog
    have hne : clientFt ≠ p.1.shared.ftClientFt := by
      rintro rfl
      rw [hused] at hfree
      cases hfree
    rw [List.lookup_cons, beq_eq_false_iff_ne.mpr hne]
  · rfl

/-- A task becomes bound when its id is stored. -/
theorem mem_bound_after (h : t ∈ (m.after s about st).bound) :
    (t ∈ m.bound ∧ ∀ kind name localPath total,
      st ≠ .write (.insertTask t kind name localPath total)) ∨
    ∃ clientFt, st = .write (.bindClientFt t clientFt) := by
  unfold IdRecord.after at h
  dsimp only at h
  split at h
  · obtain ⟨hmem, hne⟩ := List.mem_filter.mp h
    refine .inl ⟨hmem, ?_⟩
    intro kind name localPath total heq
    cases heq
    simp at hne
  · split at h
    · rcases List.mem_cons.mp h with rfl | hmem
      · exact .inr ⟨_, rfl⟩
      · exact .inl ⟨hmem, by simp⟩
    · exact .inl ⟨h, by simp⟩
  · rename_i hinsert _
    exact .inl ⟨h, fun kind name localPath total heq => hinsert t kind name localPath total heq⟩

/-- A lookup finds a task that has the id. -/
theorem clientFtOf_of_found (h : s.ftTaskIdByClientId clientFt = some t) :
    clientFtOf t s = some clientFt := by
  obtain ⟨task, hlookup, heq⟩ :=
    (Table.mem_keysWhere_iff _ s.ftTasks t).mp (List.mem_of_mem_head? h)
  rw [clientFtOf, hlookup, Option.map_some, eq_of_beq heq]

/-- A step of a thread: the statement, and what is noted of it. -/
theorem item_run (hnext : (itemized.observed idObserver).next (.run i choice, about) p = some p') :
    ∃ th st rest out, p.1.threads[i]? = some th ∧ th.prog = st :: rest ∧
      st.exec choice p.1.shared = some out ∧
      p'.1 = { shared := out.shared
               threads := p.1.threads.set i ⟨th.owner, out.front ++ rest⟩ ++ out.spawn } ∧
      p'.2 = p.2.after p.1.shared about st := by
  obtain ⟨hstep, hsee⟩ := System.next_observed hnext
  obtain ⟨th, st, rest, out, hth, hprog, hexec, hP'⟩ := Pool.next_run hstep
  have hhead : Pool.head p.1 i = some st := by
    rw [Pool.head, hth]
    simp [hprog]
  refine ⟨th, st, rest, out, hth, hprog, hexec, hP', ?_⟩
  rw [hsee]
  simp [idObserver, hhead]

/-- What the outside does: nothing is noted of it. -/
theorem item_env {event : Happening}
    (hnext : (itemized.observed idObserver).next (.env event, about) p = some p') :
    ∃ s spawn, event.exec p.1.shared = some (s, spawn) ∧
      p'.1 = { shared := s, threads := p.1.threads ++ spawn } ∧ p'.2 = p.2 := by
  obtain ⟨hstep, hsee⟩ := System.next_observed hnext
  obtain ⟨s, spawn, henv, hP'⟩ := Pool.next_env hstep
  exact ⟨s, spawn, henv, hP', hsee⟩

/-- A step of a thread keeps what was given. -/
theorem allotted_run (hok : keepsIds p (.run i choice, about) = true)
    (hnext : (itemized.observed idObserver).next (.run i choice, about) p = some p')
    (h : Allotted p.1 p.2) : Allotted p'.1 p'.2 := by
  obtain ⟨th, st, rest, out, hth, hprog, hexec, hP', hm'⟩ := item_run hnext
  have hmem := List.mem_of_getElem? hth
  have hst : st ∈ th.prog := by
    rw [hprog]
    exact .head _
  have hshared : p'.1.shared = out.shared := by rw [hP']
  -- An id that is in use was not given out again by this step: the condition says so.
  have htable : ∀ t clientFt, clientFtOf t p.1.shared = some clientFt → clientFt ≠ 0xFFFF →
      p'.2.given.lookup clientFt = some t := by
    intro t clientFt hid hne
    rw [hm', given_kept hok hth hprog (not_isFree_of_table hid)]
    exact h.table t clientFt hid hne
  -- The same of an id that is to be written.
  have hpending : ∀ u ∈ p.1.threads, ∀ t clientFt, .write (.bindClientFt t clientFt) ∈ u.prog →
      clientFt ≠ 0xFFFF ∧ p'.2.given.lookup clientFt = some t := by
    intro u hu t clientFt hk
    rw [hm', given_kept hok hth hprog (not_isFree_of_pending hu hk)]
    exact h.pending u hu t clientFt hk
  refine ⟨?_, ?_, ?_, ?_⟩
  -- What the table says now: the same as before, a new task without an id, or the id that was
  -- written.
  · intro t clientFt hid hne
    rw [hshared] at hid
    cases rebinds_of_exec t hexec with
    | same heq => exact htable t clientFt (heq ▸ hid) hne
    | register _ heq =>
        rw [heq] at hid
        exact absurd (Option.some.inj hid).symm hne
    | bind hbind heq =>
        rw [heq] at hid
        obtain ⟨_, _, rfl⟩ := Option.map_eq_some_iff.mp hid
        exact (hpending th hmem t _ (hbind ▸ hst)).2
    | finish heq =>
        rw [heq] at hid
        cases hid
  · intro u hu t clientFt hk
    rw [hP'] at hu
    rcases Pool.mem_set_append hu with hold | rfl | hnew
    · exact hpending u hold t clientFt hk
    · rcases List.mem_append.mp hk with hfront | hrest
      · -- The id is given out by this step.
        obtain ⟨sess, rfl, rfl⟩ := given_of_front hexec hfront
        refine ⟨(isFree_of_keepsIds hok hth hprog).1, ?_⟩
        rw [hm']
        exact List.lookup_cons_self
      · exact hpending th hmem t clientFt (by rw [hprog]; exact .tail _ hrest)
    · cases binds_of_spawn hexec u hnew _ hk
  -- A task that was bound does not go back to the placeholder.
  · intro t ht clientFt hid
    rw [hm'] at ht
    rw [hshared] at hid
    have hrebinds := rebinds_of_exec t hexec
    rcases mem_bound_after ht with ⟨hbound, hinsert⟩ | ⟨clientFt', rfl⟩
    · cases hrebinds with
      | same heq => exact h.bound t hbound clientFt (heq ▸ hid)
      | register hst' _ => exact absurd hst' (hinsert _ _ _ _)
      | bind hbind heq =>
          rw [heq] at hid
          obtain ⟨_, _, rfl⟩ := Option.map_eq_some_iff.mp hid
          exact (h.pending th hmem t _ (hbind ▸ hst)).1
      | finish heq =>
          rw [heq] at hid
          cases hid
    · -- The task is bound by this step.
      cases hexec
      have hid' : clientFtOf t ((Write.bindClientFt t clientFt').apply p.1.shared) =
          (clientFtOf t p.1.shared).map fun _ => clientFt' :=
        clientFtOf_bind p.1.shared t clientFt'
      rw [hid'] at hid
      obtain ⟨_, _, rfl⟩ := Option.map_eq_some_iff.mp hid
      exact (h.pending th hmem t _ hst).1
  -- A lookup by this step: it finds nothing, or the task that was given the id last.
  · intro l hl
    rw [hm'] at hl
    rcases List.mem_append.mp hl with hold | hnew
    · exact h.lookups l hold
    · obtain ⟨clientFt, hlooks, rfl⟩ := List.mem_map.mp hnew
      obtain ⟨rfl, hplaceholder⟩ :=
        about_of_keepsIds hok hth hprog (Option.mem_toList.mp hlooks)
      cases hfound : p.1.shared.ftTaskIdByClientId clientFt with
      | none => exact .inl rfl
      | some t =>
          have hid := clientFtOf_of_found hfound
          have hne : clientFt ≠ 0xFFFF := by
            -- The placeholder is looked up only when every task in the table was bound before.
            rcases hplaceholder with hne | hbound
            · exact hne
            · obtain ⟨task, hlookup, _⟩ := Option.map_eq_some_iff.mp hid
              have hkey : t ∈ p.1.shared.ftTasks := by
                rw [← AList.lookup_isSome, hlookup]
                rfl
              exact h.bound t (hbound t (AList.mem_keys.mp hkey)) clientFt hid
          exact .inr (h.table t clientFt hid hne).symm

/-- In a run under the condition, what has an id was given it last. -/
theorem allotted_of_run
    (hrun : (itemized.observed idObserver).Run (fun p label => keepsIds p label = true) p) :
    Allotted p.1 p.2 := by
  refine System.Run.invariant (P := fun p => Allotted p.1 p.2) ?_ ?_ hrun
  · rintro ⟨P, m⟩ ⟨⟨hshared, hthreads⟩, rfl⟩
    obtain rfl : P = ⟨Shared.initial, []⟩ := by
      cases P
      simp_all
    refine ⟨?_, ?_, ?_, ?_⟩
    · intro t clientFt hid
      cases hid
    · intro th hth
      cases hth
    · intro t ht
      cases ht
    · intro l hl
      cases hl
  -- Nothing from outside changes the tasks, and the thread of a call is not to bind one.
  · rintro p p' ⟨label, about⟩ h hok hnext
    cases label with
    | run i choice => exact allotted_run hok hnext h
    | env event =>
        obtain ⟨s, spawn, henv, hP', hm'⟩ := item_env hnext
        have htasks : s.ftTasks = p.1.shared.ftTasks := by
          rcases happening_cases henv with ⟨c, _, rfl, _⟩ | ⟨_, _, rfl, _⟩ | ⟨_, _, _, rfl, _⟩
          · cases c <;> rfl
          · rfl
          · rfl
        have hid : ∀ t, clientFtOf t s = clientFtOf t p.1.shared := by
          intro t
          rw [clientFtOf, htasks, clientFtOf]
        rw [hm', hP']
        refine ⟨?_, ?_, ?_, h.lookups⟩
        · intro t clientFt ht
          exact h.table t clientFt ((hid t).symm.trans ht)
        · intro u hu t clientFt hk
          rcases List.mem_append.mp hu with hold | hnew
          · exact h.pending u hold t clientFt hk
          · exfalso
            rcases happening_cases henv with ⟨c, _, _, rfl⟩ | ⟨_, _, _, rfl⟩ | ⟨_, _, _, _, rfl⟩
            · obtain rfl := List.mem_singleton.mp hnew
              cases binds_of_program c _ hk
            · cases hnew
            · cases hnew
        · intro t ht clientFt hbound
          exact h.bound t ht clientFt ((hid t).symm.trans hbound)

/-- In a run under the condition the transfer ids identify the tasks. -/
theorem identified_of_run
    (hrun : (itemized.observed idObserver).Run (fun p label => keepsIds p label = true) p) :
    Identified p.1 p.2 :=
  (allotted_of_run hrun).identified

end

/-- A download runs to its end. Its accept item is about it, and finds it. -/
theorem identified_downloaded : ∃ p : Machine × IdRecord, Identified p.1 p.2 ∧
    p.2.given = [(0x4000, 1)] ∧ p.2.lookups = [(some 1, some 1)] := by
  obtain ⟨p, hrun, hobs⟩ := System.Run.exists_of_exec (itemized.observed idObserver)
    (fun p label => keepsIds p label = true) keepsIds (downloaded.map fun label => (label, some 1))
    (fun p => (p.2.given, p.2.lookups)) (s := (⟨Shared.initial, []⟩, idObserver.start))
    (a := ([(0x4000, 1)], [(some 1, some 1)])) (fun _ _ h => h) (.start ⟨⟨rfl, rfl⟩, rfl⟩) rfl
  exact ⟨p, identified_of_run hrun, Prod.mk.inj hobs⟩

/-! ### The placeholder is given out -/

/-- The runs in which the items are honest. -/
abbrev ItemRun : Machine × IdRecord → Prop :=
  (itemized.observed idObserver).Run fun p label => isHonest p label = true

/-- Executes statements of one thread, as long as they look nothing up and start nothing. -/
def solo : List Choice → Shared × List Stmt → Option (Shared × List Stmt)
  | [], r => some r
  | choice :: choices, (s, st :: rest) =>
      if looksUp st = none then
        (st.exec choice s).bind fun out =>
          if out.spawn.isEmpty then solo choices (out.shared, out.front ++ rest) else none
      else none
  | _ :: _, (_, []) => none

section

variable {p : Machine × IdRecord} {i : Nat} {o : Owner} {s : Shared} {clientFt : UInt16}

/-- A statement that looks nothing up goes on with a run. -/
theorem ItemRun.advance (hrun : ItemRun p) {choice : Choice} {st : Stmt} {rest : List Stmt}
    {out : NativeOutcome} (hth : p.1.threads[i]? = some ⟨o, st :: rest⟩)
    (hlooks : looksUp st = none)
    (hexec : st.exec choice p.1.shared = some out) : ∃ p' : Machine × IdRecord, ItemRun p' ∧
      p'.1 = { shared := out.shared
               threads := p.1.threads.set i ⟨o, out.front ++ rest⟩ ++ out.spawn } ∧
      p'.2 = p.2.after p.1.shared none st := by
  have hhead : Pool.head p.1 i = some st := by
    rw [Pool.head, hth]
    rfl
  have hnext : native.next (.run i choice) p.1 = some
      { shared := out.shared
        threads := p.1.threads.set i ⟨o, out.front ++ rest⟩ ++ out.spawn } := by
    show Pool.next nativeLanguage (.run i choice) p.1 = _
    unfold Pool.next
    dsimp only
    rw [hth]
    show Option.map _ (st.exec choice p.1.shared) = _
    rw [hexec]
    rfl
  refine ⟨(_, p.2.after p.1.shared none st),
    System.Run.step hrun (i := (.run i choice, none)) ?_ ?_, rfl, rfl⟩
  · simp [isHonest, Pool.checks, hhead, hlooks]
  · show Option.map _ (native.next (.run i choice) p.1) = _
    rw [hnext]
    simp [idObserver, hhead]

/-- A thread goes on with a run, and the others stay as they are. -/
theorem ItemRun.solo {choices : List Choice} (hrun : ItemRun p) {prog prog' : List Stmt}
    {s' : Shared} (hth : p.1.threads[i]? = some ⟨o, prog⟩)
    (hsolo : Native.solo choices (p.1.shared, prog) = some (s', prog')) :
    ∃ p' : Machine × IdRecord, ItemRun p' ∧ p'.1.shared = s' ∧
      p'.1.threads[i]? = some ⟨o, prog'⟩ ∧ ∀ j, j ≠ i → p'.1.threads[j]? = p.1.threads[j]? := by
  induction choices generalizing p prog with
  | nil =>
      cases hsolo
      exact ⟨p, hrun, rfl, hth, fun _ _ => rfl⟩
  | cons choice choices ih =>
      cases prog with
      | nil => cases hsolo
      | cons st rest =>
          simp only [Native.solo] at hsolo
          split at hsolo
          · rename_i hlooks
            obtain ⟨out, hexec, hrest⟩ := Option.bind_eq_some_iff.mp hsolo
            split at hrest
            · rename_i hspawn
              obtain ⟨p₁, hrun₁, hP₁, _⟩ := hrun.advance hth hlooks hexec
              rw [List.isEmpty_iff.mp hspawn, List.append_nil] at hP₁
              have hlt := (List.getElem?_eq_some_iff.mp hth).1
              have hth₁ : p₁.1.threads[i]? = some ⟨o, out.front ++ rest⟩ := by
                rw [hP₁, List.getElem?_set_self hlt]
              obtain ⟨p', hrun', hs', hth', hothers⟩ :=
                ih hrun₁ hth₁ (by rw [hP₁]; exact hrest)
              refine ⟨p', hrun', hs', hth', fun j hj => ?_⟩
              rw [hothers j hj, hP₁, List.getElem?_set_ne (Ne.symm hj)]
            · cases hrest
          · cases hsolo

/-- The fields that a transfer call reads, and the counter. -/
def serviceOf (s : Shared) : Bool × Bool × Option Nat × CommandQueue × UInt16 :=
  (s.connected, s.eventLoopAlive, s.commandTx, s.queues 1, s.ftClientFt)

/-- The session is open, these commands are queued, and the counter is at this id. -/
def Serving (commands : List Command) (clientFt : UInt16) (s : Shared) : Prop :=
  serviceOf s =
    (true, true, some 1, { commands := commands, receiving := true, attempt := 1 }, clientFt)

/-- The steps up to an event loop that waits for its first command. -/
def openSteps : List NativeLabel :=
  publishSteps 0 ++ startSteps 0 ++ [.run 2 .go, .run 2 .go]

/-- The thread of the event loop has these statements to execute. -/
def Looping (prog : List Stmt) (P : Machine) : Prop :=
  P.threads[2]? = some ⟨.eventLoop 1, prog ++ [.eventLoop (.receive ⟨1, 1⟩)]⟩

/-- A call registers its task and queues the command. -/
theorem solo_asks (h : Serving [] clientFt s) : ∃ s' task,
    solo (List.replicate 6 .go) (s, (Call.startTransfer fiveBytes).program) = some (s', []) ∧
      Serving [fiveBytes.command s.ftTaskSeq] clientFt s' ∧
      s'.ftTasks.lookup s.ftTaskSeq = some task := by
  simp only [Serving, serviceOf, Prod.mk.injEq] at h
  obtain ⟨hconnected, halive, htx, hqueue, hcounter⟩ := h
  have hmap : (solo (List.replicate 6 .go) (s, (Call.startTransfer fiveBytes).program)).map
      (fun r => (r.2, serviceOf r.1, (r.1.ftTasks.lookup s.ftTaskSeq).isSome)) =
      some ([], (true, true, some 1, ⟨[fiveBytes.command s.ftTaskSeq], true, 1⟩, clientFt),
        true) := by
    simp [solo, looksUp, Call.program, List.replicate, Stmt.exec, CallStmt.exec, Write.apply,
      Shared.trySend, Shared.pushEvent, Shared.setQueue, fiveBytes, serviceOf, hconnected, halive,
      htx, hqueue, hcounter]
  obtain ⟨⟨s', prog⟩, hsolo, heq⟩ := Option.map_eq_some_iff.mp hmap
  obtain ⟨rfl, hrest⟩ := Prod.mk.inj heq
  obtain ⟨hserving, htask⟩ := Prod.mk.inj hrest
  obtain ⟨task, htask⟩ := Option.isSome_iff_exists.mp htask
  exact ⟨s', task, hsolo, hserving, htask⟩

/-- The event loop receives the command and gives out an id. -/
theorem solo_gives {t : TaskId} (h : Serving [fiveBytes.command t] clientFt s) : ∃ s',
    solo [.go, .go] (s, [.eventLoop (.receive ⟨1, 1⟩)]) =
      some (s', [.write (.bindClientFt t clientFt),
        .eventLoop (.sendWithResult ⟨1, 1⟩ (.ftTask t clientFt)), .eventLoop (.receive ⟨1, 1⟩)]) ∧
      Serving [] (clientFt + 1) s' ∧ s'.ftTasks = s.ftTasks := by
  simp only [Serving, serviceOf, Prod.mk.injEq] at h
  obtain ⟨hconnected, halive, htx, hqueue, hcounter⟩ := h
  have hmap : (solo [.go, .go] (s, [.eventLoop (.receive ⟨1, 1⟩)])).map
      (fun r => (r.2, serviceOf r.1, r.1.ftTasks)) =
      some ([.write (.bindClientFt t clientFt),
          .eventLoop (.sendWithResult ⟨1, 1⟩ (.ftTask t clientFt)), .eventLoop (.receive ⟨1, 1⟩)],
        (true, true, some 1, ⟨[], true, 1⟩, clientFt + 1), s.ftTasks) := by
    simp [solo, looksUp, Stmt.exec, LoopStmt.exec, commandProgram, Shared.setQueue, fiveBytes,
      Transfer.command, serviceOf, hconnected, halive, htx, hqueue, hcounter]
  obtain ⟨⟨s', prog⟩, hsolo, heq⟩ := Option.map_eq_some_iff.mp hmap
  obtain ⟨rfl, hrest⟩ := Prod.mk.inj heq
  obtain ⟨hserving, htasks⟩ := Prod.mk.inj hrest
  exact ⟨s', hsolo, hserving, htasks⟩

/-- The command is not sent, and the transfer fails. -/
theorem solo_ends {t : TaskId} {clientFt' : UInt16} {task : FtTask} (h : Serving [] clientFt s)
    (ht : s.ftTasks.lookup t = some task) : ∃ s',
    solo [.go, .sendFails "closed", .go, .go] (s, [.write (.bindClientFt t clientFt'),
        .eventLoop (.sendWithResult ⟨1, 1⟩ (.ftTask t clientFt')),
        .eventLoop (.receive ⟨1, 1⟩)]) = some (s', [.eventLoop (.receive ⟨1, 1⟩)]) ∧
      Serving [] clientFt s' := by
  simp only [Serving, serviceOf, Prod.mk.injEq] at h
  obtain ⟨hconnected, halive, htx, hqueue, hcounter⟩ := h
  have hmap : (solo [.go, .sendFails "closed", .go, .go] (s, [.write (.bindClientFt t clientFt'),
        .eventLoop (.sendWithResult ⟨1, 1⟩ (.ftTask t clientFt')),
        .eventLoop (.receive ⟨1, 1⟩)])).map (fun r => (r.2, serviceOf r.1)) =
      some ([.eventLoop (.receive ⟨1, 1⟩)], (true, true, some 1, ⟨[], true, 1⟩, clientFt)) := by
    by_cases hlink : (s.conns 1).link = .connected
    all_goals
      simp [solo, looksUp, Stmt.exec, LoopStmt.exec, HandlerStmt.exec, Write.apply,
        Shared.sendWithResult, Reply.onFailed, Shared.setConn, Shared.pushEvent,
        Table.lookup_modify, serviceOf, hlink, ht, hconnected, halive, htx, hqueue, hcounter]
  obtain ⟨⟨s', prog⟩, hsolo, heq⟩ := Option.map_eq_some_iff.mp hmap
  obtain ⟨rfl, hserving⟩ := Prod.mk.inj heq
  exact ⟨s', hsolo, hserving⟩

/-- One more call is made, and the event loop has given its task an id. -/
theorem ItemRun.gives (hrun : ItemRun p) (hserving : Serving [] clientFt p.1.shared)
    (hloop : Looping [] p.1) : ∃ (p' : Machine × IdRecord) (t : TaskId) (task : FtTask),
      ItemRun p' ∧ Serving [] (clientFt + 1) p'.1.shared ∧
      Looping [.write (.bindClientFt t clientFt),
        .eventLoop (.sendWithResult ⟨1, 1⟩ (.ftTask t clientFt))] p'.1 ∧
      p'.1.shared.ftTasks.lookup t = some task := by
  -- The call comes in.
  have hcall : (itemized.observed idObserver).next
      (.env (.call (.startTransfer fiveBytes)), none) p =
      some ({ shared := p.1.shared
              threads := p.1.threads ++ [⟨.call, (Call.startTransfer fiveBytes).program⟩] },
        p.2) := rfl
  have hrun₁ : ItemRun ({ shared := p.1.shared, threads := p.1.threads ++
      [⟨.call, (Call.startTransfer fiveBytes).program⟩] }, p.2) := System.Run.step hrun rfl hcall
  have hlt : 2 < p.1.threads.length := (List.getElem?_eq_some_iff.mp hloop).1
  have hnew : (p.1.threads ++
    [⟨.call, (Call.startTransfer fiveBytes).program⟩])[p.1.threads.length]? =
      some ⟨.call, (Call.startTransfer fiveBytes).program⟩ := by
    simp
  obtain ⟨s₂, task, hsolo, hserving₂, htask⟩ := solo_asks hserving
  obtain ⟨p₂, hrun₂, rfl, _, hothers⟩ := hrun₁.solo hnew hsolo
  -- The event loop receives its command.
  have hloop₂ : p₂.1.threads[2]? = some ⟨.eventLoop 1, [.eventLoop (.receive ⟨1, 1⟩)]⟩ := by
    rw [hothers 2 hlt.ne]
    show (p.1.threads ++ [_])[2]? = _
    rw [List.getElem?_append_left hlt]
    exact hloop
  obtain ⟨s₃, hsolo₃, hserving₃, htasks⟩ := solo_gives hserving₂
  obtain ⟨p₃, hrun₃, rfl, hloop₃, _⟩ := hrun₂.solo hloop₂ hsolo₃
  exact ⟨p₃, p.1.shared.ftTaskSeq, task, hrun₃, hserving₃, hloop₃, by rw [htasks]; exact htask⟩

/-- Any number of transfers can be made one after the other, and each takes an id. -/
theorem exists_itemRun (n : Nat) : ∃ p : Machine × IdRecord, ItemRun p ∧
    Serving [] (0x4000 + UInt16.ofNat n) p.1.shared ∧ Looping [] p.1 := by
  induction n with
  | zero =>
      obtain ⟨p, hrun, hobs⟩ := System.Run.exists_of_exec (itemized.observed idObserver)
        (fun p label => isHonest p label = true) isHonest
        (openSteps.map fun label => (label, none))
        (fun p => (serviceOf p.1.shared, p.1.threads[2]?))
        (s := (⟨Shared.initial, []⟩, idObserver.start))
        (a := ((true, true, some 1, ⟨[], true, 1⟩, 0x4000),
          some ⟨.eventLoop 1, [.eventLoop (.receive ⟨1, 1⟩)]⟩))
        (fun _ _ h => h) (.start ⟨⟨rfl, rfl⟩, rfl⟩) rfl
      obtain ⟨hserving, hloop⟩ := Prod.mk.inj hobs
      exact ⟨p, hrun, hserving, hloop⟩
  | succ n ih =>
      obtain ⟨p, hrun, hserving, hloop⟩ := ih
      obtain ⟨p₁, t, task, hrun₁, hserving₁, hloop₁, htask⟩ := hrun.gives hserving hloop
      obtain ⟨s', hsolo, hserving'⟩ := solo_ends hserving₁ htask
      obtain ⟨p', hrun', rfl, hloop', _⟩ := hrun₁.solo hloop₁ hsolo
      refine ⟨p', hrun', ?_, hloop'⟩
      rw [UInt16.ofNat_add, ← UInt16.add_assoc]
      exact hserving'

end

/-- The 49152nd transfer is bound to the placeholder. -/
theorem not_identified : ¬ ∀ p : Machine × IdRecord, ItemRun p → Identified p.1 p.2 := by
  intro hall
  obtain ⟨p, hrun, hserving, hloop⟩ := exists_itemRun 49151
  obtain ⟨p₁, t, task, hrun₁, _, hloop₁, htask⟩ := hrun.gives hserving hloop
  have hexec : (Stmt.write (.bindClientFt t (0x4000 + UInt16.ofNat 49151))).exec .go p₁.1.shared =
      some { shared := (Write.bindClientFt t (0x4000 + UInt16.ofNat 49151)).apply p₁.1.shared } :=
    rfl
  obtain ⟨p', hrun', hP', hm'⟩ := hrun₁.advance hloop₁ rfl hexec
  have hid : clientFtOf t p'.1.shared = some 0xFFFF := by
    rw [hP']
    show clientFtOf t ((Write.bindClientFt t _).apply p₁.1.shared) = _
    rw [clientFtOf_bind, clientFtOf, htask]
    rfl
  have hbound : t ∈ p'.2.bound := by
    have hmem : t ∈ p₁.1.shared.ftTasks := by
      rw [← AList.lookup_isSome, htask]
      rfl
    rw [hm']
    simp [IdRecord.after, hmem]
  obtain ⟨task', hlookup, heq⟩ := Option.map_eq_some_iff.mp hid
  exact (hall p' hrun').placeholder t hbound task' hlookup heq

end Nek0.Proofs.Native
