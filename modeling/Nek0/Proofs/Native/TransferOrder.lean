import Nek0.Proofs.Native.TransferLife

/-!
# `Nek0.Proofs.Native.TransferOrder`: the events of one transfer

The events that are pushed for a task are one `FtStarted`, then `FtProgress` events whose counts do
not decrease, then at most one `FtDone`: `InOrder`. The threads that push them are the call, the
event loop and the worker. Progress is published while the task is in `FT_TASKS`, and it is taken
out before its `FtDone` is queued.

A task that is not bound to a client id yet has the placeholder 0xFFFF, and an item for the client
id 0xFFFF finds it. Thus such an item can end a task before the call has pushed its `FtStarted`
(`not_inOrder`). `keepsOrder` is the condition that no item finds a task before it is announced,
that no task id is handed out twice, and that no transfer moves 2^64 bytes. In a run under this
condition with one accept item for each task, the events of every task are in order
(`inOrder_of_run`).

The invariant is `Ordered`. A task that is not announced is unknown to everything but its call,
so nothing else can push its events. Its count only grows, since it has one worker (`Manned`).
-/

set_option autoImplicit false

namespace Nek0.Proofs.Native

open Nek0.Lib
open Nek0.Native

/-- `FtStarted`, `FtProgress` with counts that do not decrease, and at most one `FtDone`, whose
count is not below them. -/
def InOrder (t : TaskId) (events : List TsEvent) : Prop :=
  events = [] ∨ ∃ (kind : TransferKind) (name : String) (total : UInt64) (counts : List UInt64)
      (ending : List TsEvent),
    events = .ftStarted t kind name total :: counts.map (TsEvent.ftProgress t) ++ ending ∧
    counts.Pairwise (· ≤ ·) ∧
    (ending = [] ∨ ∃ ok transferred error, ending = [.ftDone t ok transferred error] ∧
      ∀ count ∈ counts, count ≤ transferred)

/-! ### Sequences of events -/

/-- The counts that were reported. -/
def reported (events : List TsEvent) : List UInt64 :=
  events.filterMap fun e =>
    match e with
    | .ftProgress _ count => some count
    | _ => none

variable {t : TaskId} {events : List TsEvent} {d : UInt64}

/-- A row of progress events reports its counts. -/
theorem reported_progress (counts : List UInt64) :
    reported (counts.map (TsEvent.ftProgress t)) = counts := by
  induction counts with
  | nil => rfl
  | cons count counts ih => exact congrArg (count :: ·) ih

/-- Events that are in order and without an `FtDone` have begun, and go on with progress. -/
theorem InOrder.open_cases (h : InOrder t events) (hne : events ≠ [])
    (hopen : events.countP isDone = 0) : ∃ kind name total,
      events = .ftStarted t kind name total :: (reported events).map (TsEvent.ftProgress t) ∧
        (reported events).Pairwise (· ≤ ·) := by
  rcases h with rfl | ⟨kind, name, total, counts, ending, heq, hcounts, hending⟩
  · exact absurd rfl hne
  · obtain rfl : ending = [] := by
      rcases hending with hnil | ⟨ok, transferred, error, rfl, _⟩
      · exact hnil
      · rw [heq, List.countP_append, Nat.add_eq_zero_iff] at hopen
        cases hopen.2
    rw [List.append_nil] at heq
    have hreported : reported events = counts := by
      rw [heq]
      exact reported_progress counts
    rw [hreported]
    exact ⟨kind, name, total, heq, hcounts⟩

/-- More progress. -/
theorem InOrder.progress (h : InOrder t events) (hne : events ≠ [])
    (hopen : events.countP isDone = 0) (hle : ∀ count ∈ reported events, count ≤ d) :
    InOrder t (events ++ [.ftProgress t d]) := by
  obtain ⟨kind, name, total, heq, hcounts⟩ := h.open_cases hne hopen
  refine .inr ⟨kind, name, total, reported events ++ [d], [], ?_, ?_, .inl rfl⟩
  · rw [List.append_nil, List.map_append, List.map_singleton, ← List.cons_append, ← heq]
  · rw [List.pairwise_append]
    exact ⟨hcounts, List.pairwise_singleton _ d, fun a ha b hb => by
      rw [List.mem_singleton.mp hb]
      exact hle a ha⟩

/-- The end. -/
theorem InOrder.done {ok : Bool} {error : Option String} (h : InOrder t events)
    (hne : events ≠ []) (hopen : events.countP isDone = 0)
    (hle : ∀ count ∈ reported events, count ≤ d) :
    InOrder t (events ++ [.ftDone t ok d error]) := by
  obtain ⟨kind, name, total, heq, hcounts⟩ := h.open_cases hne hopen
  refine .inr ⟨kind, name, total, reported events, [.ftDone t ok d error], ?_, hcounts,
    .inr ⟨ok, d, error, rfl, hle⟩⟩
  rw [← heq]

theorem InOrder.started (kind : TransferKind) (name : String) (total : UInt64) :
    InOrder t [.ftStarted t kind name total] :=
  .inr ⟨kind, name, total, [], [], rfl, .nil, .inl rfl⟩

/-! ### The worker -/

/-- A statement that tells what was downloaded so far. -/
def downloads : Stmt → Bool
  | .task (.downloadStart _ _) => true
  | .task (.downloadCheck _ _ _) => true
  | .task (.downloadRead _ _ _) => true
  | .write (.downloadProgress _ _) => true
  | .write (.storeDone _ _) => true
  | _ => false

/-- The programs of the worker of a task, if `done` is the task's count. The count of a download is
overwritten with one that is not less. -/
inductive Working (t : TaskId) (done : Option UInt64) : List Stmt → Prop
  | start {total : UInt64} : (∀ d, done = some d → d = 0) →
      Working t done [.task (.downloadStart t total)]
  | check {total received : UInt64} : (∀ d, done = some d → d ≤ received) →
      Working t done [.task (.downloadCheck t total received)]
  | read {total received : UInt64} : (∀ d, done = some d → d ≤ received) →
      Working t done [.task (.downloadRead t total received)]
  | progress {total received : UInt64} : (∀ d, done = some d → d ≤ received) →
      Working t done [.write (.downloadProgress t received),
        .task (.downloadCheck t total received)]
  | store {ok : Bool} {error : Option String} {received : UInt64} :
      (∀ d, done = some d → d ≤ received) →
      Working t done [.write (.storeDone t received), .handler (.finishFtTask t ok error none)]
  | other {prog : List Stmt} : (∀ st ∈ prog, downloads st = false) → Working t done prog

/-- What holds of a count holds of it while it stays, and when the task is taken out. -/
theorem Working.mono {done done' : Option UInt64} {prog : List Stmt} (h : Working t done prog)
    (hle : ∀ d, done' = some d → done = some d) : Working t done' prog := by
  cases h with
  | start hd => exact .start fun d h => hd d (hle d h)
  | check hd => exact .check fun d h => hd d (hle d h)
  | read hd => exact .read fun d h => hd d (hle d h)
  | progress hd => exact .progress fun d h => hd d (hle d h)
  | store hd => exact .store fun d h => hd d (hle d h)
  | other h => exact .other h

/-- Only the worker of a task changes its count. -/
theorem owner_of_store {th : NativeThread} (h : Shaped th) {st : Stmt} (hst : st ∈ th.prog)
    (hstore : st = .write (.storeDone t d) ∨ st = .write (.downloadProgress t d) ∨
      st = .write (.uploadProgress t d)) : th.owner = .worker t := by
  have hexecutes := executes_of_shaped h hst
  cases howner : th.owner with
  | worker taskId =>
      rw [howner] at hexecutes
      rcases hstore with rfl | rfl | rfl
      all_goals exact congrArg Owner.worker (Eq.symm hexecutes)
  | eventLoop g =>
      rw [howner] at hexecutes
      rcases hstore with rfl | rfl | rfl
      all_goals
        rcases hexecutes with h | h | h | h
        · cases h
        all_goals exact h.elim
  | _ =>
      rw [howner] at hexecutes
      rcases hstore with rfl | rfl | rfl
      all_goals exact hexecutes.elim

/-- What a worker has downloaded so far grows. -/
theorem le_add_of_lt {a b : UInt64} (h : a.toNat + b.toNat < 2 ^ 64) : a ≤ a + b := by
  rw [UInt64.le_iff_toNat_le, UInt64.toNat_add, Nat.mod_eq_of_lt h]
  exact Nat.le_add_right _ _

/-- A step of the worker. -/
theorem working_step {P : Machine} {choice : Choice} {st : Stmt} {rest : List Stmt}
    {out : NativeOutcome} (hexec : st.exec choice P.shared = some out)
    (hworks : ∀ k ∈ st :: rest, Works t k) (hok : keepsOrder P choice st = true)
    (h : Working t (doneOf t P.shared) (st :: rest)) :
    Working t (doneOf t out.shared) (out.front ++ rest) := by
  -- A download starts at zero, checks, reads, stores its progress and checks again. Anything else
  -- does not count.
  cases h with
  | @start total hd =>
      cases hexec
      dsimp only
      split
      · refine .check fun d h => ?_
        rw [hd d h]
        exact UInt64.le_refl 0
      · exact .other (by simp)
  | @check total received hd =>
      cases hexec
      dsimp only
      split
      · exact .other (by simp [finishProgram, downloads])
      · exact .read hd
  | @read total received hd =>
      dsimp only [Stmt.exec, TaskStmt.exec] at hexec
      split at hexec
      · rename_i n
        cases hexec
        -- The sum of what was received does not overflow: the condition says so.
        have hlt : received.toNat + (UInt64.ofNat n).toNat < 2 ^ 64 := of_decide_eq_true hok
        exact .progress fun d h => UInt64.le_trans (hd d h) (le_add_of_lt hlt)
      · cases hexec
        dsimp only
        split
        · exact .other (by simp [finishProgram, downloads])
        · exact .store hd
      · cases hexec
        exact .other (by simp [finishProgram, downloads])
      -- The worker has been cancelled or has failed, and does not read again.
      · cases hexec
  | @progress total received hd =>
      have hcounts := counts_of_exec t hexec
      cases hexec
      refine .check fun d h => ?_
      -- The progress that is stored is what was received so far.
      cases hcounts with
      | same heq =>
          rw [heq] at h
          exact hd d h
      | store hst heq =>
          rcases hst with hst | hst
          · cases hst
          · cases hst
            rw [heq] at h
            obtain ⟨_, _, rfl⟩ := Option.map_eq_some_iff.mp h
            exact UInt64.le_refl _
      | register hst _ => cases hst
      | add hst _ => cases hst
      | finish hst _ => cases hst
  | store hd =>
      cases hexec
      exact .other (by simp [downloads])
  | other h =>
      -- Outside of the reading no statement of the worker leads back into it.
      refine .other (List.forall_mem_append.mpr ⟨?_, fun k hk => h k (.tail _ hk)⟩)
      have hst := h st List.mem_cons_self
      have hwork := hworks st List.mem_cons_self
      cases st with
      | write w =>
          cases hexec
          simp
      | handler hs =>
          cases hexec
          cases hs with
          | finishFtTask taskId ok error origin =>
              intro k hk
              obtain ⟨_, rfl⟩ := (finishFtTask_front P.shared taskId ok error origin).1 k hk
              rfl
          | _ => exact hwork.elim
      | eventLoop l => exact hwork.elim
      | call c => exact hwork.elim
      | task task =>
          cases task <;> first | cases hst; done | skip
          all_goals dsimp only [Stmt.exec, TaskStmt.exec, finishProgram] at hexec
          all_goals repeat' split at hexec
          all_goals cases hexec
          all_goals simp [downloads]

/-- The thread is the worker of the task. -/
def worksFor (t : TaskId) (th : NativeThread) : Nat := if th.owner = .worker t then 1 else 0

/-- A task has one worker, and the worker's programs fit its count. -/
structure Manned (t : TaskId) (P : Machine) (m : TransferRecord) : Prop where
  distinct : m.accepted.Nodup
  workers : Pool.weight (fun _ => 0) (worksFor t) P ≤ m.accepted.count t
  fresh : t ∉ m.accepted → ∀ d, doneOf t P.shared = some d → d = 0
  working : ∀ th ∈ P.threads, th.owner = .worker t → Working t (doneOf t P.shared) th.prog

section

variable {p p' : Machine × TransferRecord} {i : Nat} {choice : Choice} {th : NativeThread}
  {st : Stmt} {rest : List Stmt} {out : NativeOutcome}

/-- A worker was started by an accept item. -/
theorem Manned.accepted {P : Machine} {m : TransferRecord} (h : Manned t P m)
    (hth : th ∈ P.threads) (howner : th.owner = .worker t) : t ∈ m.accepted := by
  have hone : worksFor t th = 1 := if_pos howner
  have hle := Pool.le_threadsWeight (worksFor t) hth
  have hworkers := h.workers
  rw [Pool.weight] at hworkers
  exact List.count_pos_iff.mp (by omega)

/-- It is the only one. -/
theorem Manned.sole {P : Machine} {m : TransferRecord} (h : Manned t P m) {j : Nat}
    {u : NativeThread} (hth : P.threads[i]? = some th) (hu : P.threads[j]? = some u)
    (hij : j ≠ i) (howner : th.owner = .worker t) : u.owner ≠ .worker t := by
  intro howner'
  have hone : worksFor t th = 1 := if_pos howner
  have hone' : worksFor t u = 1 := if_pos howner'
  have hle := Pool.add_le_threadsWeight (worksFor t) hij hth hu
  have hworkers := h.workers
  have hcount := List.nodup_iff_count_le_one.mp h.distinct t
  rw [Pool.weight] at hworkers
  omega

/-- A statement starts the worker of a task when it handles the accept item. -/
theorem worksFor_of_spawn {s : Shared} (hexec : st.exec choice s = some out) :
    Pool.threadsWeight (worksFor t) out.spawn ≤ (accepts st).toList.count t ∧
      ∀ u ∈ out.spawn, u.owner = .worker t → accepts st = some t ∧
        (u.prog = [.task (.uploadStart t)] ∨
          ∃ total, u.prog = [.task (.downloadStart t total)]) := by
  -- A thread that is no worker counts for no task.
  have hnone : ∀ {o : Owner} {prog : List Stmt}, (∀ taskId, o ≠ .worker taskId) →
      out.spawn = [⟨o, prog⟩] → Pool.threadsWeight (worksFor t) out.spawn ≤
          (accepts st).toList.count t ∧ ∀ u ∈ out.spawn, u.owner ≠ .worker t := by
    intro o prog ho h
    rw [h]
    refine ⟨?_, ?_⟩
    · rw [Pool.threadsWeight_cons, Pool.threadsWeight_nil, worksFor, if_neg (ho t)]
      exact Nat.zero_le _
    · intro u hu
      rw [List.mem_singleton.mp hu]
      exact ho t
  -- The worker of the accepted task counts once.
  have hone : ∀ {taskId : TaskId} {k : Stmt}, accepts st = some taskId →
      out.spawn = [⟨.worker taskId, [k]⟩] → Pool.threadsWeight (worksFor t) out.spawn ≤
          (accepts st).toList.count t ∧ ∀ u ∈ out.spawn, u.owner = .worker t →
            accepts st = some t ∧ u.prog = [k] := by
    intro taskId k haccepts h
    rw [h, haccepts]
    refine ⟨?_, ?_⟩
    · rw [Pool.threadsWeight_cons, Pool.threadsWeight_nil, worksFor, Option.toList_some,
        List.count_singleton]
      simp
    · intro u hu howner
      obtain rfl := List.mem_singleton.mp hu
      obtain rfl : taskId = t := by simpa using howner
      exact ⟨rfl, rfl⟩
  -- The six ways in which a statement starts a thread, or none. The last two are the accept items.
  rcases spawn_cases hexec with h | ⟨_, _, h⟩ | ⟨_, _, h⟩ | ⟨_, _, h⟩ |
    ⟨_, _, taskId, total, rfl, h⟩ | ⟨taskId, rfl, h⟩
  · rw [h]
    exact ⟨Nat.zero_le _, by simp⟩
  · obtain ⟨hle, howner⟩ := hnone (by simp) h
    exact ⟨hle, fun u hu hu' => absurd hu' (howner u hu)⟩
  · obtain ⟨hle, howner⟩ := hnone (by simp) h
    exact ⟨hle, fun u hu hu' => absurd hu' (howner u hu)⟩
  · obtain ⟨hle, howner⟩ := hnone (by simp) h
    exact ⟨hle, fun u hu hu' => absurd hu' (howner u hu)⟩
  · obtain ⟨hle, hu⟩ := hone rfl h
    refine ⟨hle, fun u hmem howner => ?_⟩
    obtain ⟨haccepts, hprog⟩ := hu u hmem howner
    obtain rfl : taskId = t := Option.some.inj haccepts
    exact ⟨haccepts, .inr ⟨total, hprog⟩⟩
  · obtain ⟨hle, hu⟩ := hone rfl h
    refine ⟨hle, fun u hmem howner => ?_⟩
    obtain ⟨haccepts, hprog⟩ := hu u hmem howner
    obtain rfl : taskId = t := Option.some.inj haccepts
    exact ⟨haccepts, .inl hprog⟩

/-- The task of an accept item keeps its count while the item is handled. -/
theorem doneOf_of_accepts {s : Shared} (hexec : st.exec choice s = some out)
    (haccepts : accepts st = some t) : doneOf t out.shared = doneOf t s := by
  cases counts_of_exec t hexec with
  | same h => exact h
  | register hst _ =>
      subst hst
      cases haccepts
  | store hst _ =>
      rcases hst with rfl | rfl
      · cases haccepts
      · cases haccepts
  | add hst _ =>
      subst hst
      cases haccepts
  | finish hst _ =>
      subst hst
      cases haccepts

/-- A call that inserts its task is to announce it. -/
theorem hidden_of_insert {P : Machine} {kind : TransferKind} {name localPath : String}
    {total : UInt64} (hth : th ∈ P.threads)
    (hprog : th.prog = .write (.insertTask t kind name localPath total) :: rest)
    (hform : Registration th.prog) : Hidden t P := by
  refine .inr ⟨th, hth, ?_⟩
  rw [hprog] at hform ⊢
  cases hform with
  | aside h => cases h _ List.mem_cons_self
  | insert => simp

/-- A step of a thread keeps a task with one worker. -/
theorem manned_run (hshaped : ∀ u ∈ p.1.threads, Shaped u)
    (hforms : ∀ u ∈ p.1.threads, Registration u.prog) (hfirst : AnnouncedFirst t p.1 p.2)
    (hok : oneAccept p (.run i choice) = true ∧
      Pool.checks keepsOrder p.1 (.run i choice : NativeLabel) = true)
    (hnext : (native.observed transferObserver).next (.run i choice) p = some p')
    (h : Manned t p.1 p.2) : Manned t p'.1 p'.2 := by
  obtain ⟨th, st, rest, out, hth, hprog, hexec, hP', _, _, haccepted⟩ := transfer_run hnext
  have hmem := List.mem_of_getElem? hth
  have hsh : Shaped ⟨th.owner, st :: rest⟩ := hprog ▸ hshaped th hmem
  obtain ⟨hcond, hone⟩ := keepsOrder_of_checks hok hth hprog
  obtain ⟨hspawn, hstarted⟩ := worksFor_of_spawn (t := t) hexec
  -- A write to the count of the task is its worker's.
  have howner : ∀ {d : UInt64}, (st = .write (.storeDone t d) ∨
      st = .write (.downloadProgress t d) ∨ st = .write (.uploadProgress t d)) →
      th.owner = .worker t := owner_of_store hsh List.mem_cons_self
  -- A task that is inserted now has not been accepted before.
  have hinsert : ∀ {kind name localPath total},
      st = .write (.insertTask t kind name localPath total) → t ∉ p.2.accepted := by
    rintro kind name localPath total rfl
    exact (hfirst.unknown (hidden_of_insert hmem hprog (hforms th hmem))).2.2
  -- The invariant field by field: one acceptance, one worker, a count of zero until then, and the
  -- worker's own count.
  refine ⟨?_, ?_, ?_, ?_⟩
  · rw [haccepted, List.nodup_append]
    refine ⟨h.distinct, ?_, ?_⟩
    · cases accepts st with
      | none => exact List.nodup_nil
      | some taskId => exact List.nodup_singleton _
    · intro a ha b hb hab
      subst hab
      exact hone a (by simpa using hb) ha
  · have hw := Pool.weight_set (fun _ => 0) (worksFor t) hth out.shared
      ⟨th.owner, out.front ++ rest⟩ out.spawn
    have hsame : worksFor t (⟨th.owner, out.front ++ rest⟩ : NativeThread) = worksFor t th := rfl
    rw [← hP', hsame] at hw
    have hworkers := h.workers
    rw [haccepted, List.count_append]
    omega
  -- The task is not accepted yet, so nothing but its registration has set its count.
  · intro hnew d hd
    rw [haccepted, List.mem_append, not_or] at hnew
    rw [hP'] at hd
    cases counts_of_exec t hexec with
    | same heq =>
        rw [heq] at hd
        exact h.fresh hnew.1 d hd
    | register _ heq =>
        rw [heq] at hd
        exact (Option.some.inj hd).symm
    | store hst _ => exact absurd (h.accepted hmem (howner (or_assoc.mp (.inl hst)))) hnew.1
    | add hst _ => exact absurd (h.accepted hmem (howner (.inr (.inr hst)))) hnew.1
    | finish _ heq =>
        rw [heq] at hd
        cases hd
  -- The count of the worker's thread, by whose step it is.
  · intro u hu hworker
    rw [hP'] at hu
    rw [show p'.1.shared = out.shared by rw [hP']]
    rcases List.mem_append.mp hu with hset | hnew
    · obtain ⟨j, hj⟩ := List.mem_iff_getElem?.mp hset
      by_cases hij : j = i
      · subst hij
        have hlt := (List.getElem?_eq_some_iff.mp hth).1
        rw [List.getElem?_set_self hlt] at hj
        obtain rfl := Option.some.inj hj
        have hworks : ∀ k ∈ st :: rest, Works t k := by
          have hsh' := hsh
          rw [show th.owner = _ from hworker] at hsh'
          exact hsh'
        exact working_step hexec hworks hcond (hprog ▸ h.working th hmem hworker)
      · -- Another thread's step leaves the count to the worker.
        rw [List.getElem?_set_ne (Ne.symm hij)] at hj
        have hold := List.mem_of_getElem? hj
        have hother : th.owner ≠ .worker t := h.sole hj hth (Ne.symm hij) hworker
        refine (h.working u hold hworker).mono ?_
        intro d hd
        cases counts_of_exec t hexec with
        | same heq => rwa [heq] at hd
        | register hst _ => exact absurd (h.accepted hold hworker) (hinsert hst)
        | store hst _ => exact absurd (howner (or_assoc.mp (.inl hst))) hother
        | add hst _ => exact absurd (howner (.inr (.inr hst))) hother
        | finish _ heq =>
            rw [heq] at hd
            cases hd
    · obtain ⟨haccepts, hprog'⟩ := hstarted u hnew hworker
      rcases hprog' with hprog' | ⟨total, hprog'⟩
      · rw [hprog']
        exact .other (by simp [downloads])
      · rw [hprog']
        refine .start fun d hd => h.fresh (hone t haccepts) d ?_
        rwa [doneOf_of_accepts hexec haccepts] at hd

/-- In a run under the condition every task has one worker. -/
theorem manned_of_run (hrun : TransferRun p) (t : TaskId) : Manned t p.1 p.2 := by
  refine System.Run.invariant_of (P := fun p => Manned t p.1 p.2)
    (Q := fun p => native.Reachable p.1 ∧ AnnouncedFirst t p.1 p.2)
    (fun _ hp => ⟨run_of_transferRun hp, announcedFirst_of_run hp t⟩) ?_ ?_ hrun
  · rintro ⟨P, m⟩ ⟨⟨hshared, hthreads⟩, rfl⟩
    obtain rfl : P = ⟨Shared.initial, []⟩ := by
      cases P
      simp_all
    refine ⟨List.nodup_nil, Nat.le_refl 0, ?_, ?_⟩
    · intro _ d hd
      cases hd
    · intro u hu
      cases hu
  · rintro p p' label ⟨hreach, hfirst⟩ _ h hok hnext
    -- A step from outside starts no worker and leaves the counts.
    cases label with
    | run i choice =>
        exact manned_run (shaped_of_run hreach) (registration_of_run hreach) hfirst hok hnext h
    | env event =>
        obtain ⟨s, spawn, henv, hP', _, _, haccepted⟩ := transfer_env hnext
        have hdone := (happening_weighs_nothing henv t).2.1
        have hcalls : ∀ u ∈ spawn, u.owner = .call := by
          intro u hu
          rcases happening_cases henv with ⟨c, _, _, rfl⟩ | ⟨_, _, _, rfl⟩ | ⟨_, _, _, _, rfl⟩
          · rw [List.mem_singleton.mp hu]
          · cases hu
          · cases hu
        have hzero : Pool.threadsWeight (worksFor t) spawn = 0 := by
          refine Pool.threadsWeight_eq_zero _ fun u hu => ?_
          rw [worksFor, hcalls u hu]
          rfl
        refine ⟨?_, ?_, ?_, ?_⟩
        · rw [haccepted]
          exact h.distinct
        · rw [haccepted, hP', Pool.weight, Pool.threadsWeight_append, hzero]
          exact h.workers
        · rw [haccepted, hP', hdone]
          exact h.fresh
        · rw [hP', hdone]
          intro u hu hworker
          rcases List.mem_append.mp hu with hold | hnew
          · exact h.working u hold hworker
          · rw [hcalls u hnew] at hworker
            cases hworker

/-! ### The events -/

/-- The events of a task are in order, and those to come fit them. -/
structure Ordered (t : TaskId) (P : Machine) (m : TransferRecord) : Prop where
  order : InOrder t (m.events t)
  counted : ∀ count ∈ reported (m.events t), ∀ d, doneOf t P.shared = some d → count ≤ d
  ending : ∀ th ∈ P.threads, ∀ e origin, .write (.push e origin) ∈ th.prog →
    taskOfEvent e = some t → ∃ ok d error, e = .ftDone t ok d error ∧
      ∀ count ∈ reported (m.events t), count ≤ d

/-- The count of a task does not decrease. -/
theorem doneOf_le {P : Machine} {m : TransferRecord} (hnum : Numbered t P m)
    (hmanned : Manned t P m) (hth : th ∈ P.threads) (hprog : th.prog = st :: rest)
    (hshaped : Shaped ⟨th.owner, st :: rest⟩) (hok : keepsOrder P choice st = true)
    (hexec : st.exec choice P.shared = some out) {d₀ d : UInt64}
    (hbefore : doneOf t P.shared = some d₀) (hafter : doneOf t out.shared = some d) : d₀ ≤ d := by
  -- The count stays, is stored by the worker, or is added to by an uploader.
  cases counts_of_exec t hexec with
  | same heq =>
      rw [heq, hbefore] at hafter
      rw [Option.some.inj hafter]
      exact UInt64.le_refl d
  | register hst heq =>
      -- The task would be inserted twice.
      exfalso
      subst hst
      have halive : alive t P.shared = 1 := if_pos (by rw [hbefore]; rfl)
      have hone : Pool.pendingWeight (lives t) th =
          1 + Pool.progWeight (lives t) rest := by
        rw [Pool.pendingWeight, hprog, Pool.progWeight_cons, lives, if_pos rfl]
      have hle := Pool.le_threadsWeight (Pool.pendingWeight (lives t)) hth
      have hlife := hnum.life
      have hcount := List.nodup_iff_count_le_one.mp hnum.distinct t
      rw [Pool.weight] at hlife
      omega
  -- The worker stores what it has received, which is not below what it has stored.
  | @store d' hst heq =>
      obtain rfl : d' = d := by
        rw [heq, hbefore] at hafter
        exact Option.some.inj hafter
      have howner : (⟨th.owner, st :: rest⟩ : NativeThread).owner = .worker t :=
        owner_of_store hshaped List.mem_cons_self (or_assoc.mp (.inl hst))
      have hworking := hmanned.working th hth howner
      rw [hprog] at hworking
      rcases hst with rfl | rfl
      · cases hworking with
        | store hd => exact hd d₀ hbefore
        | other h => cases h _ List.mem_cons_self
      · cases hworking with
        | progress hd => exact hd d₀ hbefore
        | other h => cases h _ List.mem_cons_self
  | @add n hst heq =>
      subst hst
      rw [heq, hbefore] at hafter
      obtain rfl : d₀ + n = d := Option.some.inj hafter
      have hlt : d₀.toNat + n.toNat < 2 ^ 64 := by
        simpa [keepsOrder, hbefore] using hok
      exact le_add_of_lt hlt
  | finish hst heq =>
      rw [heq] at hafter
      cases hafter

theorem mem_reported_append {events new : List TsEvent} {count : UInt64}
    (h : count ∈ reported (events ++ new)) : count ∈ reported events ∨ count ∈ reported new := by
  rw [reported, List.filterMap_append] at h
  exact List.mem_append.mp h

/-- While an end of the task is to be pushed, or the task is in `FT_TASKS`, it has no `FtDone`. -/
theorem Numbered.not_done {P : Machine} {m : TransferRecord} (h : Numbered t P m)
    (hlife : 1 ≤ Pool.weight (alive t) (Pool.pendingWeight (lives t)) P) :
    (m.events t).countP isDone = 0 := by
  have hle := h.life
  have hcount := List.nodup_iff_count_le_one.mp h.distinct t
  omega

/-- A pending end is a life of the task. -/
theorem pendingWeight_of_push {e : TsEvent} {origin : Option Origin}
    (hst : .write (.push e origin) ∈ th.prog) (he : taskOfEvent e = some t) :
    1 ≤ Pool.pendingWeight (lives t) th := by
  have hone : lives t (.write (.push e origin)) = 1 := if_pos (by simp [isFor, he])
  rw [← hone]
  exact List.le_sum_of_mem (List.mem_map_of_mem hst)

/-- A step of a thread keeps the events of a task in order. -/
theorem ordered_run (hshaped : ∀ u ∈ p.1.threads, Shaped u)
    (hforms : ∀ u ∈ p.1.threads, Registration u.prog) (hnum : Numbered t p.1 p.2)
    (hnum' : Numbered t p'.1 p'.2) (hfirst : AnnouncedFirst t p.1 p.2) (hmanned : Manned t p.1 p.2)
    (hok : oneAccept p (.run i choice) = true ∧
      Pool.checks keepsOrder p.1 (.run i choice : NativeLabel) = true)
    (hnext : (native.observed transferObserver).next (.run i choice) p = some p')
    (h : Ordered t p.1 p.2) : Ordered t p'.1 p'.2 := by
  obtain ⟨th, st, rest, out, hth, hprog, hexec, hP', _, hevents, _⟩ := transfer_run hnext
  have hmem := List.mem_of_getElem? hth
  have hsh : Shaped ⟨th.owner, st :: rest⟩ := hprog ▸ hshaped th hmem
  have hcond := (keepsOrder_of_checks hok hth hprog).1
  have hst : st ∈ th.prog := by
    rw [hprog]
    exact List.mem_cons_self
  -- A statement that names the task runs behind its announcement, so there are events already.
  have hbegun : taskOf st = some t → p.2.events t ≠ [] := by
    intro htask
    refine hfirst.begun fun hhidden => ?_
    exact (hfirst.unknown hhidden).1 (.inr ⟨th, hmem, st, hst, htask⟩)
  -- What was reported is not above the count.
  have hle : ∀ count ∈ reported (p.2.events t), ∀ d, doneOf t out.shared = some d →
      count ≤ d := by
    intro count hcount d hd
    cases hbefore : doneOf t p.1.shared with
    | some d₀ =>
        exact UInt64.le_trans (h.counted count hcount d₀ hbefore)
          (doneOf_le hnum hmanned hmem hprog hsh hcond hexec hbefore hd)
    | none =>
        -- The task is inserted, and has no events yet.
        exfalso
        cases counts_of_exec t hexec with
        | register hinsert _ =>
            subst hinsert
            have hhidden := hidden_of_insert hmem hprog (hforms th hmem)
            rw [(hfirst.unknown hhidden).2.1] at hcount
            cases hcount
        | same heq =>
            rw [heq, hbefore] at hd
            cases hd
        | store _ heq =>
            rw [heq, hbefore] at hd
            cases hd
        | add _ heq =>
            rw [heq, hbefore] at hd
            cases hd
        | finish _ heq =>
            rw [heq] at hd
            cases hd
  -- While the task is in `FT_TASKS` its life is not over.
  have hlife' : ∀ d, doneOf t out.shared = some d →
      Pool.weight (alive t) (Pool.pendingWeight (lives t)) p'.1 =
        1 + Pool.threadsWeight (Pool.pendingWeight (lives t)) p'.1.threads := by
    intro d hd
    have halive : alive t p'.1.shared = 1 := by
      rw [hP']
      exact if_pos (by rw [hd]; rfl)
    rw [Pool.weight, halive]
  -- A pending end fits the events there were before the step.
  have hending : ∀ u ∈ p'.1.threads, ∀ e origin, .write (.push e origin) ∈ u.prog →
      taskOfEvent e = some t → ∃ ok d error, e = .ftDone t ok d error ∧
        ∀ count ∈ reported (p.2.events t), count ≤ d := by
    intro u hu e origin hk he
    rw [hP'] at hu
    rcases Pool.mem_set_append hu with hold | rfl | hspawn
    · exact h.ending u hold e origin hk he
    · rcases List.mem_append.mp hk with hfront | hrest
      · obtain ⟨ok, error, d, _, hd, rfl⟩ := finish_of_push hexec hfront he
        exact ⟨ok, d, error, rfl, fun count hcount => h.counted count hcount d hd⟩
      · exact h.ending th hmem e origin (by rw [hprog]; exact .tail _ hrest) he
    · exfalso
      rcases spawn_cases hexec with h | ⟨_, _, h⟩ | ⟨_, _, h⟩ | ⟨_, _, h⟩ | ⟨_, _, _, _, _, h⟩ |
        ⟨_, _, h⟩
      · rw [h] at hspawn
        cases hspawn
      all_goals
        rw [h] at hspawn
        rw [List.mem_singleton.mp hspawn] at hk
        cases List.mem_singleton.mp hk
  have hpushes := pushes_of_exec t hexec
  have hnew := hevents t
  generalize (added p.1.shared out.shared).filter (isFor t) = new at hpushes hnew
  have hshared : p'.1.shared = out.shared := by rw [hP']
  -- By what the step pushes for the task: nothing, its start, a progress, or its end.
  cases hpushes with
  | nothing =>
      rw [List.append_nil] at hnew
      refine ⟨?_, ?_, ?_⟩
      · rw [hnew]
        exact h.order
      · rw [hnew, hshared]
        exact hle
      · rw [hnew]
        exact hending
  -- The start is the first event: the task was hidden until now.
  | @started task heq _ =>
      have hhidden : Hidden t p.1 := .inr ⟨th, hmem, heq ▸ hst⟩
      rw [(hfirst.unknown hhidden).2.1, List.nil_append] at hnew
      refine ⟨?_, ?_, ?_⟩
      · rw [hnew]
        exact .started _ _ _
      · rw [hnew]
        intro count hcount
        cases hcount
      · intro u hu e origin hk he
        obtain ⟨ok, d, error, rfl, _⟩ := hending u hu e origin hk he
        refine ⟨ok, d, error, rfl, ?_⟩
        rw [hnew]
        intro count hcount
        cases hcount
  -- A progress stands behind the start, and no end was pushed yet.
  | @progress d htask hd =>
      have hopen : (p.2.events t).countP isDone = 0 := by
        have hzero := hnum'.not_done (by
          rw [hlife' d hd]
          exact Nat.le_add_right _ _)
        rw [hnew, List.countP_append] at hzero
        exact (Nat.add_eq_zero_iff.mp hzero).1
      refine ⟨?_, ?_, ?_⟩
      · rw [hnew]
        exact h.order.progress (hbegun htask) hopen fun count hcount => hle count hcount d hd
      · rw [hnew, hshared]
        intro count hcount d' hd'
        rcases mem_reported_append hcount with hold | hone
        · exact hle count hold d' hd'
        · obtain rfl : count = d := List.mem_singleton.mp hone
          rw [hd] at hd'
          rw [Option.some.inj hd']
          exact UInt64.le_refl d'
      · -- The task is in `FT_TASKS`, and so its end is not to be pushed yet.
        intro u hu e origin hk he
        exfalso
        have hpending := pendingWeight_of_push hk he
        have hsum := Pool.le_threadsWeight (Pool.pendingWeight (lives t)) hu
        have hlife := hnum'.life
        have hcount := List.nodup_iff_count_le_one.mp hnum'.distinct t
        rw [hlife' d hd] at hlife
        omega
  -- The end was to be pushed, with a count that is not below those reported.
  | @event e origin heq he =>
      obtain ⟨ok, d, error, rfl, hcounts⟩ := h.ending th hmem e origin (heq ▸ hst) he
      have hopen : (p.2.events t).countP isDone = 0 := by
        refine hnum.not_done ?_
        have hpending := pendingWeight_of_push (heq ▸ hst) he
        have hsum := Pool.le_threadsWeight (Pool.pendingWeight (lives t)) hmem
        rw [Pool.weight]
        omega
      have hsame : ∀ count, count ∈ reported (p.2.events t ++ [.ftDone t ok d error]) →
          count ∈ reported (p.2.events t) := by
        intro count hcount
        rcases mem_reported_append hcount with hold | hnone
        · exact hold
        · cases hnone
      refine ⟨?_, ?_, ?_⟩
      · rw [hnew]
        refine h.order.done (hbegun ?_) hopen hcounts
        rw [heq]
        exact he
      · rw [hnew, hshared]
        exact fun count hcount => hle count (hsame count hcount)
      · rw [hnew]
        intro u hu e' origin' hk he'
        obtain ⟨ok', d', error', rfl, hcounts'⟩ := hending u hu e' origin' hk he'
        exact ⟨ok', d', error', rfl, fun count hcount => hcounts' count (hsame count hcount)⟩

/-- In a run under the condition the events of every task fit. -/
theorem ordered_of_run (hrun : TransferRun p) (t : TaskId) : Ordered t p.1 p.2 := by
  refine System.Run.invariant_of (P := fun p => Ordered t p.1 p.2)
    (Q := fun p => native.Reachable p.1 ∧ Numbered t p.1 p.2 ∧ AnnouncedFirst t p.1 p.2 ∧
      Manned t p.1 p.2)
    (fun _ hp => ⟨run_of_transferRun hp, numbered_of_run hp t, announcedFirst_of_run hp t,
      manned_of_run hp t⟩) ?_ ?_ hrun
  · rintro ⟨P, m⟩ ⟨⟨hshared, hthreads⟩, rfl⟩
    refine ⟨.inl rfl, ?_, ?_⟩
    · intro count hcount
      cases hcount
    · intro u hu
      rw [hthreads] at hu
      cases hu
  · rintro p p' label ⟨hreach, hnum, hfirst, hmanned⟩ ⟨_, hnum', _, _⟩ h hok hnext
    cases label with
    | run i choice =>
        exact ordered_run (shaped_of_run hreach) (registration_of_run hreach) hnum hnum' hfirst
          hmanned hok hnext h
    | env event =>
        obtain ⟨s, spawn, henv, hP', _, hevents, _⟩ := transfer_env hnext
        have hdone := (happening_weighs_nothing henv t).2.1
        refine ⟨?_, ?_, ?_⟩
        · rw [hevents]
          exact h.order
        · rw [hevents, hP', hdone]
          exact h.counted
        · rw [hevents, hP']
          intro u hu e origin hk he
          rcases List.mem_append.mp hu with hold | hnew
          · exact h.ending u hold e origin hk he
          -- A new thread pushes no event of a task.
          · exfalso
            rcases happening_cases henv with ⟨c, _, _, rfl⟩ | ⟨_, _, _, rfl⟩ | ⟨_, _, _, _, rfl⟩
            · obtain rfl := List.mem_singleton.mp hnew
              have hnone := (taskOf_of_program c t _ hk).1
              rw [show taskOfEvent e = none from hnone] at he
              cases he
            · cases hnew
            · cases hnew

/-- In a run in which no item finds a task before it is announced, no task id is handed out twice
and no transfer moves 2^64 bytes, the events of every task are in order. -/
theorem inOrder_of_run (hrun : TransferRun p) (t : TaskId) : InOrder t (p.2.events t) :=
  (ordered_of_run hrun t).order

end

/-- A download of five bytes. -/
def fiveBytes : Transfer where
  kind := .download
  name := "a"
  localPath := "/tmp/a"
  total := 0
  cid := 1
  path := "/a"
  password := none

/-- The call asks for the download, and executes this many of its statements. -/
def asksFor (thread statements : Nat) : List NativeLabel :=
  .env (.call (.startTransfer fiveBytes)) :: List.replicate statements (.run thread .go)

/-- The download is accepted, and its worker moves the bytes. -/
def downloaded : List NativeLabel :=
  publishSteps 0 ++ startSteps 0 ++ asksFor 3 6 ++ iterateSteps 2 ++
    List.replicate 5 (.run 2 .go) ++
    [.run 2 (.incoming (.accepted 0x4000 (some 5) none)), .run 2 (.incoming .timeout)] ++
    List.replicate 4 (.run 2 .go) ++
    [.run 4 .go, .run 4 .go, .run 4 (.chunk (.data 5)), .run 4 .go, .run 4 .go,
      .run 4 (.chunk .eof), .run 4 .go, .run 4 .go, .run 4 .go]

/-- It starts, makes progress, and is done. -/
theorem inOrder_downloaded : ∃ p : Machine × TransferRecord, InOrder 1 (p.2.events 1) ∧
    p.2.events 1 = [.ftStarted 1 .download "a" 0, .ftProgress 1 0, .ftDone 1 true 5 none] := by
  obtain ⟨p, hrun, hobs⟩ := System.Run.exists_of_exec (native.observed transferObserver)
    (fun p label => oneAccept p label = true ∧ Pool.checks keepsOrder p.1 label = true)
    (fun p label => oneAccept p label && Pool.checks keepsOrder p.1 label) downloaded
    (fun p => p.2.events 1) (s := (⟨Shared.initial, []⟩, transferObserver.start))
    (a := [.ftStarted 1 .download "a" 0, .ftProgress 1 0, .ftDone 1 true 5 none])
    (fun p label h => by simpa using h) (.start ⟨⟨rfl, rfl⟩, rfl⟩) rfl
  exact ⟨p, inOrder_of_run hrun 1, hobs⟩

/-- A transfer with the client id 0xFFFF fails before the call has announced its task. -/
def failedEarly : List NativeLabel :=
  publishSteps 0 ++ startSteps 0 ++ asksFor 3 4 ++ iterateSteps 2 ++
    [.run 2 (.incoming (.transferFailed 0xFFFF (.failure "reset"))), .run 2 (.incoming .timeout)] ++
    List.replicate 6 (.run 2 .go)

/-- The task is not bound yet, and its placeholder is the client id of the item: the task is done
before it is started. -/
theorem not_inOrder : ¬ ∀ (p : Machine × TransferRecord) (t : TaskId),
    (native.observed transferObserver).Run (fun p label => oneAccept p label = true) p →
      InOrder t (p.2.events t) := by
  intro hall
  obtain ⟨p, hrun, hobs⟩ := System.Run.exists_of_exec (native.observed transferObserver)
    (fun p label => oneAccept p label = true) oneAccept failedEarly
    (fun p => p.2.events 1) (s := (⟨Shared.initial, []⟩, transferObserver.start))
    (a := [.ftDone 1 false 0 (some "reset")])
    (fun _ _ h => h) (.start ⟨⟨rfl, rfl⟩, rfl⟩) rfl
  have h := hall p 1 hrun
  rw [show p.2.events 1 = _ from hobs] at h
  rcases h with h | ⟨kind, name, total, counts, ending, heq, _⟩
  · cases h
  · cases (List.cons.inj heq).1

end Nek0.Proofs.Native
