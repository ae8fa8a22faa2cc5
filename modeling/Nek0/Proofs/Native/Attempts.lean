import Nek0.Proofs.Native.Frames
import Nek0.Proofs.Native.Threads

/-!
# `Nek0.Proofs.Native.Attempts`: one attempt at a time

`connecting` is set exactly while one connect task is still to publish its session or to fail
(`openAttempts_of_run`). A session is only published then. Apart from `ts_connect`, the end of an
attempt comes with its `Connected` or `Error` event (`progress_of_exec`).
-/

set_option autoImplicit false

namespace Nek0.Proofs.Native

open Nek0.Lib
open Nek0.Native

/-- The statements of the calls that only the notifier makes, except for `ts_disconnect`. -/
def isNotifierStmt : Stmt → Bool
  | .call .connect => true
  | .write .pollEvents => true
  | _ => false

/-- A connect task with this statement is still to publish its session or to fail. -/
def resolves : Stmt → Nat
  | .task (.handshake _) => 1
  | .task (.advanceGeneration _ _) => 1
  | .write (.publish _ _) => 1
  | .write (.failConnect _) => 1
  | _ => 0

/-- One of them is the outcome of an attempt. -/
def isOutcome : TsEvent → Bool
  | .connected _ _ => true
  | .error _ => true
  | _ => false

/-! ### Statements -/

/-- A statement of a call resolves no attempt. -/
theorem resolves_of_calls {st : Stmt} (h : Calls st) : resolves st = 0 := by
  cases st with
  | write w => cases w <;> first | rfl | exact h.elim
  | task t => exact h.elim
  | _ => rfl

/-- Nor does a statement of a worker. -/
theorem resolves_of_works {taskId : TaskId} {st : Stmt} (h : Works taskId st) :
    resolves st = 0 ∧ isNotifierStmt st = false := by
  cases st with
  | write w => cases w <;> first | exact ⟨rfl, rfl⟩ | exact h.elim
  | task t => cases t <;> first | exact ⟨rfl, rfl⟩ | exact h.elim
  | call c => exact h.elim
  | _ => exact ⟨rfl, rfl⟩

/-- Nor does the timer of a file list. -/
theorem resolves_of_finalizes {st : Stmt} (h : Finalizes st) :
    resolves st = 0 ∧ isNotifierStmt st = false := by
  cases st with
  | write w => cases w <;> first | exact ⟨rfl, rfl⟩ | exact h.elim
  | task t => cases t <;> first | exact ⟨rfl, rfl⟩ | exact h.elim
  | _ => exact h.elim

/-- Nor does a statement that iterates. -/
theorem resolves_of_iterates {g : Nat} {st : Stmt} (h : Iterates g st) :
    resolves st = 0 ∧ isNotifierStmt st = false := by
  cases st with
  | eventLoop l => exact ⟨rfl, rfl⟩
  | _ => exact h.elim

/-- Nor does one of a body. -/
theorem resolves_of_body {g : Nat} {st : Stmt} (h : Body g st) :
    resolves st = 0 ∧ isNotifierStmt st = false := by
  cases st with
  | write w => cases w <;> first | exact ⟨rfl, rfl⟩ | exact h.elim
  | eventLoop l => exact ⟨rfl, rfl⟩
  | handler hs => exact ⟨rfl, rfl⟩
  | _ => exact h.elim

/-- Nor does one that leaves. -/
theorem resolves_of_leaves {g : Nat} {st : Stmt} (h : Leaves g st) :
    resolves st = 0 ∧ isNotifierStmt st = false := by
  cases st with
  | write w => cases w <;> first | exact ⟨rfl, rfl⟩ | exact h.elim
  | _ => exact h.elim

/-- So no statement of an iteration does. -/
theorem resolves_of_iteration {g : Nat} {prog : List Stmt} (h : Iteration g prog) :
    ∀ st ∈ prog, resolves st = 0 ∧ isNotifierStmt st = false := by
  induction h with
  | last hst =>
      intro st hmem
      rw [List.mem_singleton.mp hmem]
      exact resolves_of_iterates hst
  | body hst _ ih =>
      intro st hmem
      rcases List.mem_cons.mp hmem with rfl | hmem
      · exact resolves_of_body hst
      · exact ih st hmem

/-- Outside the calls and the connect tasks there is neither. -/
theorem resolves_of_shaped {t : NativeThread} (h : Shaped t) (hcall : t.owner ≠ .call)
    (hconnect : ∀ attempt, t.owner ≠ .connect attempt) :
    ∀ st ∈ t.prog, resolves st = 0 ∧ isNotifierStmt st = false := by
  intro st hmem
  obtain ⟨owner, prog⟩ := t
  cases owner with
  | call => exact absurd rfl hcall
  | connect attempt => exact absurd rfl (hconnect attempt)
  | listTimer => exact resolves_of_finalizes (h st hmem)
  | worker taskId => exact resolves_of_works (h st hmem)
  | eventLoop g =>
      rcases h with hbegin | hiter | hleave
      · rw [show prog = _ from hbegin] at hmem
        rw [List.mem_singleton.mp hmem]
        exact ⟨rfl, rfl⟩
      · exact resolves_of_iteration hiter st hmem
      · exact resolves_of_leaves (hleave st hmem)

/-- A connect task has no statement of a call. -/
theorem not_isNotifierStmt_of_connect {attempt : Nat} {prog : List Stmt}
    (h : Shaped ⟨.connect attempt, prog⟩) : ∀ st ∈ prog, isNotifierStmt st = false := by
  intro st hmem
  rcases h with hcon | ⟨g, _, _, _, hsuffix⟩
  · cases hcon <;> simp only [List.mem_cons, List.not_mem_nil, or_false] at hmem
    all_goals rcases hmem with rfl | rfl <;> rfl
  · have hstart := hsuffix.subset hmem
    simp only [startProgram, List.mem_cons, List.not_mem_nil, or_false] at hstart
    rcases hstart with rfl | rfl | rfl | rfl <;> rfl

/-- What a statement starts has no statement of a call. Only `ts_connect` starts an attempt. -/
theorem resolves_of_spawn {choice : Choice} {s : Shared} {st : Stmt} {out : NativeOutcome}
    (hexec : st.exec choice s = some out) :
    ∀ t ∈ out.spawn, ∀ k ∈ t.prog, isNotifierStmt k = false ∧
      (st ≠ .call .connect → resolves k = 0) := by
  cases st with
  | write w =>
      cases hexec
      simp
  | handler h =>
      cases hexec
      cases h <;> dsimp only [HandlerStmt.exec]
      all_goals repeat' split
      all_goals simp [isNotifierStmt, resolves]
  | eventLoop l =>
      cases l with
      | sendWithResult sess reply =>
          dsimp only [Stmt.exec, LoopStmt.exec, Shared.sendWithResult] at hexec
          repeat' split at hexec
          all_goals cases hexec
          all_goals simp
      | _ =>
          dsimp only [Stmt.exec, LoopStmt.exec] at hexec
          repeat' split at hexec
          all_goals cases hexec
          all_goals simp [isNotifierStmt, resolves]
  | call c =>
      cases hexec
      cases c <;> dsimp only [CallStmt.exec]
      all_goals repeat' split
      all_goals simp [isNotifierStmt, resolves]
  | task t =>
      cases t <;> dsimp only [Stmt.exec, TaskStmt.exec] at hexec
      all_goals repeat' split at hexec
      all_goals cases hexec
      all_goals simp [isNotifierStmt, resolves]

/-- A statement of a call leads to no call that only the notifier makes. -/
theorem not_isNotifierStmt_of_calls {choice : Choice} {s : Shared} {st : Stmt}
    {out : NativeOutcome} (hexec : st.exec choice s = some out) (hst : Calls st) :
    ∀ k ∈ out.front, isNotifierStmt k = false := by
  cases st with
  | write w =>
      cases hexec
      simp
  | handler h =>
      cases hexec
      cases h with
      | finishFtTask taskId ok error origin =>
          intro k hk
          obtain ⟨done, rfl⟩ := (finishFtTask_front s taskId ok error origin).1 k hk
          rfl
      | _ => exact hst.elim
  | call c =>
      cases hexec
      cases c <;> dsimp only [CallStmt.exec]
      all_goals repeat' split
      all_goals simp [isNotifierStmt]
  | _ => exact hst.elim

/-- A statement leads to no call that only the notifier makes. -/
theorem not_isNotifierStmt_of_step {choice : Choice} {s : Shared} {owner : Owner} {st : Stmt}
    {rest : List Stmt} {out : NativeOutcome} (hexec : st.exec choice s = some out)
    (hshaped : Shaped ⟨owner, st :: rest⟩) : ∀ k ∈ out.front, isNotifierStmt k = false := by
  intro k hk
  have hafter := (shaped_step hexec hshaped).1
  have hmem : k ∈ out.front ++ rest := List.mem_append_left _ hk
  cases owner with
  | call => exact not_isNotifierStmt_of_calls hexec (hshaped st List.mem_cons_self) k hk
  | connect attempt => exact not_isNotifierStmt_of_connect hafter k hmem
  | eventLoop g => exact (resolves_of_shaped hafter (by simp) (by simp) k hmem).2
  | listTimer => exact (resolves_of_shaped hafter (by simp) (by simp) k hmem).2
  | worker taskId => exact (resolves_of_shaped hafter (by simp) (by simp) k hmem).2

/-- No thread sets `connected` as such. -/
theorem not_setConnected_of_shaped {t : NativeThread} (h : Shaped t) :
    .write (.setConnected true) ∉ t.prog := by
  intro hmem
  obtain ⟨owner, prog⟩ := t
  cases owner with
  | call => exact h _ hmem
  | listTimer => exact h _ hmem
  | worker taskId => exact h _ hmem
  | connect attempt =>
      rcases h with hcon | ⟨g, _, _, _, hsuffix⟩
      · dsimp only at hcon hmem
        cases hcon <;> simp at hmem
      · have hstart := hsuffix.subset hmem
        simp [startProgram] at hstart
  | eventLoop g =>
      rcases h with hbegin | hiter | hleave
      · rw [show prog = _ from hbegin] at hmem
        simp at hmem
      · dsimp only at hiter hmem
        induction hiter with
        | last hst =>
            rw [← List.mem_singleton.mp hmem] at hst
            exact hst
        | body hst _ ih =>
            rcases List.mem_cons.mp hmem with rfl | hmem
            · exact hst
            · exact ih hmem
      · exact absurd (hleave _ hmem) (by simp [Leaves])

/-! ### The attempt in the shared state -/

/-- Events are only added. No attempt begins, one ends with its outcome, and only an attempt
publishes a session. -/
structure Progress (s s' : Shared) : Prop where
  events : ∃ events, s'.pendingEvents = s.pendingEvents ++ events
  connecting : s'.connecting = true → s.connecting = true
  outcome : s.connecting = true → s'.connecting = false →
    ∃ e ∈ s'.pendingEvents, isOutcome e = true
  connected : s'.connected = true → s.connected = true ∨ s.connecting = true

/-- Nothing happens to the attempt. -/
theorem Progress.of_eq {s s' : Shared}
    (hevents : ∃ events, s'.pendingEvents = s.pendingEvents ++ events)
    (hconnecting : s'.connecting = s.connecting)
    (hconnected : s'.connected = true → s.connected = true) : Progress s s' where
  events := hevents
  connecting := fun h => hconnecting ▸ h
  outcome := by
    intro h h'
    rw [hconnecting, h] at h'
    cases h'
  connected := fun h => .inl (hconnected h)

/-- A write keeps the progress of an attempt, if it is none of the three that decide it. -/
theorem progress_of_write {s : Shared} {w : Write} (hpoll : w ≠ .pollEvents)
    (hset : w ≠ .setConnected true)
    (hopen : resolves (.write w) = 1 → s.connecting = true) : Progress s (w.apply s) := by
  -- Events are only appended. `publish` and `fail_connect` end the attempt with one of them.
  cases w with
  | downloadProgress taskId done =>
      obtain ⟨_, events, heq, _⟩ := downloadProgress_frame s taskId done
      rw [heq]
      exact .of_eq ⟨events, rfl⟩ rfl id
  | uploadProgress taskId n =>
      obtain ⟨_, events, heq, _⟩ := uploadProgress_frame s taskId n
      rw [heq]
      exact .of_eq ⟨events, rfl⟩ rfl id
  | pollEvents => exact absurd rfl hpoll
  | setConnected b =>
      cases b with
      | true => exact absurd rfl hset
      | false => exact .of_eq ⟨[], (List.append_nil _).symm⟩ rfl nofun
  | publish serverName book =>
      refine ⟨⟨_, rfl⟩, nofun, fun _ _ => ?_, fun _ => .inr (hopen rfl)⟩
      exact ⟨_, List.mem_append_right _ List.mem_cons_self, rfl⟩
  | failConnect message =>
      refine ⟨⟨_, rfl⟩, nofun, fun _ _ => ?_, .inl⟩
      exact ⟨_, List.mem_append_right _ List.mem_cons_self, rfl⟩
  | push e origin =>
      cases origin with
      | none => exact .of_eq ⟨[e], rfl⟩ rfl id
      | some o => exact .of_eq ⟨[e], rfl⟩ rfl id
  | endSession reason => exact .of_eq ⟨_, rfl⟩ rfl nofun
  | endStashed => exact .of_eq ⟨[], (List.append_nil _).symm⟩ rfl nofun
  | _ =>
      dsimp only [Write.apply]
      repeat' split
      all_goals first
        | exact .of_eq ⟨[], (List.append_nil _).symm⟩ rfl id
        | exact .of_eq ⟨_, rfl⟩ rfl id

/-- A call other than an accepted connect keeps the progress of an attempt. -/
theorem progress_of_call {s : Shared} {c : CallStmt} (hconnect : c ≠ .connect) :
    Progress s (c.exec s).shared := by
  have hsend : ∀ cmd, Progress s (s.trySend cmd).1 := by
    intro cmd
    rcases trySend_frame s cmd with ⟨heq, _⟩ | ⟨_, _, _, _, heq⟩
    · rw [heq]
      exact .of_eq ⟨[], (List.append_nil _).symm⟩ rfl id
    · rw [heq]
      exact .of_eq ⟨[], (List.append_nil _).symm⟩ rfl id
  cases c with
  | connect => exact absurd rfl hconnect
  | sendDisconnect => exact hsend _
  | sendCommand cmd => exact hsend _
  | sendTransfer taskId t => exact hsend _
  | _ =>
      dsimp only [CallStmt.exec]
      repeat' split
      all_goals exact .of_eq ⟨[], (List.append_nil _).symm⟩ rfl id

/-- A statement that is not a call of the notifier. -/
theorem progress_of_exec {choice : Choice} {s : Shared} {owner : Owner} {st : Stmt}
    {rest : List Stmt} {out : NativeOutcome} (hexec : st.exec choice s = some out)
    (hshaped : Shaped ⟨owner, st :: rest⟩) (hst : isNotifierStmt st = false)
    (hopen : resolves st = 1 → s.connecting = true) : Progress s out.shared := by
  cases st with
  | write w =>
      cases hexec
      refine progress_of_write ?_ ?_ hopen
      · rintro rfl
        cases hst
      · rintro rfl
        exact not_setConnected_of_shaped hshaped List.mem_cons_self
  | handler h =>
      cases hexec
      obtain ⟨_, _, _, _, _, _, heq⟩ := handler_frame s h
      rw [heq]
      exact .of_eq ⟨[], (List.append_nil _).symm⟩ rfl id
  | eventLoop l =>
      obtain ⟨_, _, _, _, _, _, _, _, _, _, _, _, heq, ⟨events, hevents, _⟩, _⟩ :=
        loop_frame hexec
      rw [heq]
      exact .of_eq ⟨events, hevents⟩ rfl id
  | call c =>
      cases hexec
      refine progress_of_call ?_
      rintro rfl
      cases hst
  | task t =>
      obtain ⟨_, _, _, _, heq⟩ := task_frame hexec
      rw [heq]
      exact .of_eq ⟨[], (List.append_nil _).symm⟩ rfl id

/-! ### One attempt at a time -/

/-- Nobody is connecting. -/
def vacancy (s : Shared) : Nat := if s.connecting then 0 else 1

/-- The attempts that are still open, and the vacancy. -/
def openAttempts (P : Machine) : Nat := Pool.weight vacancy (Pool.pendingWeight resolves) P

/-- Only the end of an attempt, or a new one, changes whether `connecting` is set. -/
theorem vacancy_of_exec {choice : Choice} {s : Shared} {st : Stmt} {out : NativeOutcome}
    (hexec : st.exec choice s = some out) (hconnect : st ≠ .call .connect)
    (hst : resolves st = 0) : vacancy out.shared = vacancy s := by
  -- The vacancy depends on `connecting` alone.
  suffices h : out.shared.connecting = s.connecting by rw [vacancy, h, vacancy]
  cases st with
  | write w =>
      cases hexec
      cases w with
      | downloadProgress taskId done =>
          obtain ⟨_, _, heq, _⟩ := downloadProgress_frame s taskId done
          rw [heq]
      | uploadProgress taskId n =>
          obtain ⟨_, _, heq, _⟩ := uploadProgress_frame s taskId n
          rw [heq]
      | publish serverName book => cases hst
      | failConnect message => cases hst
      | _ =>
          dsimp only [Write.apply]
          repeat' split
          all_goals rfl
  | handler h =>
      cases hexec
      obtain ⟨_, _, _, _, _, _, heq⟩ := handler_frame s h
      rw [heq]
  | eventLoop l =>
      obtain ⟨_, _, _, _, _, _, _, _, _, _, _, _, heq, _⟩ := loop_frame hexec
      rw [heq]
  | call c =>
      cases hexec
      -- A send changes queues only.
      have hsend : ∀ cmd, (s.trySend cmd).1.connecting = s.connecting := by
        intro cmd
        rcases trySend_frame s cmd with ⟨heq, _⟩ | ⟨_, _, _, _, heq⟩ <;> rw [heq]
        rfl
      cases c with
      | connect => exact absurd rfl hconnect
      | sendDisconnect => exact hsend _
      | sendCommand cmd => exact hsend _
      | sendTransfer taskId t => exact hsend _
      | _ =>
          dsimp only [CallStmt.exec]
          repeat' split
          all_goals rfl
  | task t =>
      obtain ⟨_, _, _, _, heq⟩ := task_frame hexec
      rw [heq]

/-- A program without a statement of an open attempt weighs nothing. -/
theorem resolves_eq_zero {prog : List Stmt} (h : ∀ k ∈ prog, resolves k = 0) :
    Pool.progWeight resolves prog = 0 := by
  refine List.sum_eq_zero ?_
  intro n hn
  obtain ⟨k, hk, rfl⟩ := List.mem_map.mp hn
  exact h k hk

/-- A connect task stays open until it publishes or fails. -/
theorem openAttempt_of_connect {attempt : Nat} {choice : Choice} {s : Shared} {st : Stmt}
    {rest : List Stmt} {out : NativeOutcome} (hexec : st.exec choice s = some out)
    (hshaped : Shaped ⟨.connect attempt, st :: rest⟩)
    (hopen : resolves st = 1 → s.connecting = true) :
    vacancy out.shared + Pool.progWeight resolves out.front = vacancy s + resolves st := by
  have hresolved : ∀ s' : Shared, s.connecting = true → s'.connecting = false →
      vacancy s' + 0 = vacancy s + 1 := by
    intro s' h h'
    simp [vacancy, h, h']
  rcases hshaped with hcon | ⟨g, _, _, _, hsuffix⟩
  · cases hcon with
    | handshake =>
        dsimp only [Stmt.exec, TaskStmt.exec] at hexec
        repeat' split at hexec
        all_goals cases hexec
        all_goals rfl
    | announce =>
        cases hexec
        rfl
    | advance =>
        cases hexec
        rfl
    | fail =>
        cases hexec
        exact hresolved _ (hopen rfl) rfl
  · simp only [startProgram, List.suffix_cons_iff, List.cons.injEq, List.suffix_nil] at hsuffix
    rcases hsuffix with ⟨rfl, _⟩ | ⟨rfl, _⟩ | ⟨rfl, _⟩ | ⟨rfl, _⟩ | h
    · cases hexec
      rfl
    · cases hexec
      exact hresolved _ (hopen rfl) rfl
    · cases hexec
      rfl
    · cases hexec
      rfl
    · cases h

/-- A statement keeps the open attempts and the vacancy. -/
theorem openAttempts_of_exec {choice : Choice} {s : Shared} {owner : Owner} {st : Stmt}
    {rest : List Stmt} {out : NativeOutcome} (hexec : st.exec choice s = some out)
    (hshaped : Shaped ⟨owner, st :: rest⟩) (hopen : resolves st = 1 → s.connecting = true) :
    vacancy out.shared + Pool.progWeight resolves out.front +
        Pool.threadsWeight (Pool.pendingWeight resolves) out.spawn = vacancy s + resolves st := by
  -- `ts_connect` takes the vacancy and opens an attempt, or is ignored.
  by_cases hconnect : st = .call .connect
  · subst hconnect
    cases hexec
    dsimp only [CallStmt.exec]
    split
    · rfl
    · rename_i hidle
      have hvacant : vacancy s = 1 := if_neg fun h => hidle (by simp [h])
      rw [hvacant]
      rfl
  · have hspawn : Pool.threadsWeight (Pool.pendingWeight resolves) out.spawn = 0 := by
      refine List.sum_eq_zero ?_
      intro n hn
      obtain ⟨t, ht, rfl⟩ := List.mem_map.mp hn
      exact resolves_eq_zero fun k hk => (resolves_of_spawn hexec t ht k hk).2 hconnect
    rw [hspawn, Nat.add_zero]
    -- All others neither open an attempt nor take the vacancy.
    have hidle : resolves st = 0 → (∀ k ∈ out.front, resolves k = 0) →
        vacancy out.shared + Pool.progWeight resolves out.front = vacancy s + resolves st := by
      intro hst hfront
      rw [resolves_eq_zero hfront, hst, vacancy_of_exec hexec hconnect hst]
    have hafter := (shaped_step hexec hshaped).1
    have haside : owner ≠ .call → (∀ attempt, owner ≠ .connect attempt) →
        vacancy out.shared + Pool.progWeight resolves out.front = vacancy s + resolves st := by
      intro hcall hcon
      refine hidle (resolves_of_shaped hshaped hcall hcon st List.mem_cons_self).1 ?_
      intro k hk
      exact (resolves_of_shaped hafter hcall hcon k (List.mem_append_left _ hk)).1
    -- Only the thread of an attempt can end it.
    cases owner with
    | connect attempt => exact openAttempt_of_connect hexec hshaped hopen
    | call =>
        refine hidle (resolves_of_calls (hshaped st List.mem_cons_self)) ?_
        intro k hk
        exact resolves_of_calls ((calls_step hexec (hshaped st List.mem_cons_self)).1 k hk)
    | eventLoop g => exact haside (by simp) (by simp)
    | listTimer => exact haside (by simp) (by simp)
    | worker taskId => exact haside (by simp) (by simp)

/-- The statement that is executed belongs to the open attempt. -/
theorem connecting_of_openAttempts {P : Machine} (hone : openAttempts P = 1) {t : NativeThread}
    (ht : t ∈ P.threads) {st : Stmt} (hst : st ∈ t.prog) (hresolves : resolves st = 1) :
    P.shared.connecting = true := by
  have hprog : 1 ≤ Pool.pendingWeight resolves t :=
    hresolves ▸ List.le_sum_of_mem (List.mem_map_of_mem hst)
  have hthreads := Pool.le_threadsWeight (Pool.pendingWeight resolves) ht
  rw [openAttempts, Pool.weight] at hone
  by_contra hidle
  have hvacant : vacancy P.shared = 1 := if_neg hidle
  omega

/-- Either one attempt is open, or `connecting` is not set. -/
theorem openAttempts_of_run {ok : Machine → NativeLabel → Prop} {P : Machine}
    (hrun : native.Run ok P) : openAttempts P = 1 := by
  refine hrun.invariant_of (P := fun P => openAttempts P = 1) (fun P h => shaped_of_run h) ?_ ?_
  · rintro P ⟨hshared, hthreads⟩
    -- At the start `connecting` is not set.
    rw [openAttempts, Pool.weight, hthreads, hshared]
    rfl
  · intro P P' label hshaped _ hone _ hnext
    cases label with
    -- The weights of the step add up: what the statement closes it had open.
    | run i choice =>
        obtain ⟨th, st, rest, out, hth, hprog, hexec, hshared, hw⟩ :=
          Pool.weight_run vacancy (Pool.pendingWeight resolves) hnext
        have hmem := List.mem_of_getElem? hth
        have hth' : th = ⟨th.owner, st :: rest⟩ := by rw [← hprog]
        have hstep := openAttempts_of_exec hexec (hth' ▸ hshaped th hmem)
          (connecting_of_openAttempts hone hmem (by rw [hprog]; exact List.mem_cons_self))
        change openAttempts P' + _ = openAttempts P + _ at hw
        have hbefore : Pool.pendingWeight resolves th =
            resolves st + Pool.progWeight resolves rest := by
          rw [Pool.pendingWeight, hprog, Pool.progWeight_cons]
        have hafter : Pool.pendingWeight resolves ⟨th.owner, out.front ++ rest⟩ =
            Pool.progWeight resolves out.front + Pool.progWeight resolves rest :=
          Pool.progWeight_append _ _ _
        omega
    | env event =>
        obtain ⟨s, spawn, henv, hshared, hw⟩ :=
          Pool.weight_env vacancy (Pool.pendingWeight resolves) hnext
        change openAttempts P' + _ = openAttempts P + _ at hw
        rcases happening_cases henv with
          ⟨c, _, rfl, rfl⟩ | ⟨_, _, rfl, rfl⟩ | ⟨con, _, _, rfl, rfl⟩
        -- The thread of a call closes no attempt.
        · have hspawn : Pool.pendingWeight resolves (⟨.call, c.program⟩ : NativeThread) = 0 :=
            resolves_eq_zero fun k hk => resolves_of_calls (calls_of_program c k hk)
          have hsame : vacancy (P.shared.noteRequest c) = vacancy P.shared := by
            unfold Shared.noteRequest
            split <;> rfl
          rw [Pool.threadsWeight_cons, hspawn, Pool.threadsWeight_nil, hsame] at hw
          omega
        · rw [Pool.threadsWeight_nil] at hw
          simp only [vacancy] at hw
          omega
        · have hsame : vacancy (P.shared.setConn con { P.shared.conns con with link := .lost }) =
              vacancy P.shared := rfl
          rw [Pool.threadsWeight_nil, hsame] at hw
          omega

end Nek0.Proofs.Native
