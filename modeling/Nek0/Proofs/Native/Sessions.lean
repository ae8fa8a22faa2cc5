import Nek0.Proofs.Native.Frames
import Nek0.Proofs.Native.Threads

/-!
# `Nek0.Proofs.Native.Sessions`: one session after the other

A connect task that has advanced `CONNECTION_GENERATION` and an event loop task that has more to do
than dropping its channel and its connection are working on a session. `sequential` is the
condition that the generation is advanced only when no thread is working on a session.

Under this condition at most one thread is working at any time (`solo_of_run`), and it works on
the current generation (`current_of_run`).
-/

set_option autoImplicit false

namespace Nek0.Proofs.Native

open Nek0.Lib
open Nek0.Native

/-- The runs all of whose steps satisfy a condition on the statement that is executed. -/
abbrev RunUnder (cond : Machine → Choice → Stmt → Bool) : Machine → Prop :=
  native.Run fun P label => Pool.checks cond P label = true

/-- A drop of a channel or of a connection. -/
def spent : Stmt → Bool
  | .write (.dropReceiver _) => true
  | .write (.dropConnection _) => true
  | _ => false

/-- The start of an event loop. -/
def starts : Stmt → Bool
  | .task (.spawnEventLoop _) => true
  | _ => false

/-- The thread is to start an event loop, or it is one and has more to do than to drop what it
owns. -/
def working (t : NativeThread) : Bool :=
  match t.owner with
  | .connect _ => t.prog.any starts
  | .eventLoop _ => t.prog.any fun st => !spent st
  | _ => false

/-- The generation is advanced only when no thread is working on a session. -/
def sequential (P : Machine) : Stmt → Bool
  | .task (.advanceGeneration _ _) => P.threads.all fun t => !working t
  | _ => true

/-- A thread that is working works on generation `g`. -/
def WorksOn (g : Nat) (t : NativeThread) : Prop :=
  working t = true →
    t.owner = .eventLoop g ∨ ((∃ attempt, t.owner = .connect attempt) ∧ Starting g t.prog)

/-! ### Executions -/

/-- What can be observed after the steps `labels` from program start is observed in a run. -/
theorem exists_run {α : Type} (cond : Machine → Choice → Stmt → Bool) (labels : List NativeLabel)
    (f : Machine → α) {a : α}
    (h : (native.exec (Pool.checks cond) labels ⟨Shared.initial, []⟩).map f = some a) :
    ∃ P, RunUnder cond P ∧ f P = a :=
  System.Run.exists_of_exec _ _ (Pool.checks cond) labels f (fun _ _ h => h) (.start ⟨rfl, rfl⟩) h

/-- The steps by which a connect task publishes a session, if `k` threads were started before. -/
def publishSteps (k : Nat) : List NativeLabel :=
  [.env (.call .tsConnect), .run k .go,
    .run (k + 1) (.handshake (.ready "server" ⟨1, [], []⟩)), .run (k + 1) .go, .run (k + 1) .go,
    .run (k + 1) .go]

/-- The steps that stash the connection and start the event loop. -/
def startSteps (k : Nat) : List NativeLabel :=
  [.run (k + 1) .go, .run (k + 1) .go, .run (k + 2) .go, .run (k + 2) .go]

/-- The steps of an iteration up to the poll. -/
def iterateSteps (loop : Nat) : List NativeLabel :=
  [.run loop .go, .run loop .go, .run loop .go]

/-! ### What starts to work -/

theorem not_working_of_connecting {attempt : Nat} {prog : List Stmt} (h : Connecting prog) :
    working ⟨.connect attempt, prog⟩ = false := by
  cases h <;> rfl

theorem working_of_cons {owner : Owner} {st : Stmt} {rest : List Stmt}
    (h : working ⟨owner, rest⟩ = true) : working ⟨owner, st :: rest⟩ = true := by
  cases owner <;> simp_all [working]

/-- What is left of `startProgram` ends with the start of the event loop. -/
theorem Starting.exists_starts {g : Nat} {prog : List Stmt} (h : Starting g prog)
    (hne : prog ≠ []) : .task (.spawnEventLoop g) ∈ prog := by
  obtain ⟨attempt, serverName, book, hsuffix⟩ := h
  simp only [startProgram, List.suffix_cons_iff, List.suffix_nil] at hsuffix
  rcases hsuffix with rfl | rfl | rfl | rfl | rfl
  all_goals first
    | exact absurd rfl hne
    | simp

/-- A statement of the event loop, its start, or a write with which a session ends. -/
def inSession : Stmt → Bool
  | .eventLoop _ => true
  | .task (.spawnEventLoop _) => true
  | .write (.push (.disconnected _) _) => true
  | .write (.setConnected _) => true
  | .write (.endSession _) => true
  | .write .clearFtLists => true
  | .write .clearFtOps => true
  | .write .clearPermOps => true
  | .write .dropCommandTx => true
  | _ => false

/-- A statement of a call belongs to no session. -/
theorem not_inSession_of_calls {st : Stmt} (h : Calls st) : inSession st = false := by
  cases st with
  | write w =>
      cases w with
      | push e origin => cases e <;> first | rfl | exact h.elim
      | _ => first | rfl | exact h.elim
  | eventLoop l => exact h.elim
  | task t => exact h.elim
  | _ => rfl

/-- Nor does a statement of a worker. -/
theorem not_inSession_of_works {taskId : TaskId} {st : Stmt} (h : Works taskId st) :
    inSession st = false := by
  cases st with
  | write w =>
      cases w with
      | push e origin => cases e <;> first | rfl | exact h.elim
      | _ => first | rfl | exact h.elim
  | task t => cases t <;> first | rfl | exact h.elim
  | handler h => rfl
  | _ => exact h.elim

/-- Nor does the timer of a file list. -/
theorem not_inSession_of_finalizes {st : Stmt} (h : Finalizes st) : inSession st = false := by
  cases st with
  | write w =>
      cases w with
      | push e origin => cases e <;> first | rfl | exact h.elim
      | _ => exact h.elim
  | task t => cases t <;> first | rfl | exact h.elim
  | _ => exact h.elim

/-- Nor does a connect task before the start. -/
theorem not_inSession_of_connecting {prog : List Stmt} (h : Connecting prog) :
    ∀ st ∈ prog, inSession st = false := by
  intro st hst
  cases h <;> simp only [List.mem_cons, List.not_mem_nil, or_false] at hst
  case announce => rcases hst with rfl | rfl <;> rfl
  all_goals
    subst hst
    rfl

/-- A thread with a statement of a session works on one. -/
theorem working_of_inSession {t : NativeThread} (hshaped : Shaped t) {st : Stmt}
    (hst : st ∈ t.prog) (hin : inSession st = true) : working t = true := by
  obtain ⟨owner, prog⟩ := t
  cases owner with
  | connect attempt =>
      rcases hshaped with hcon | ⟨g, hstart⟩
      · rw [not_inSession_of_connecting hcon st hst] at hin
        cases hin
      · exact List.any_eq_true.mpr ⟨_, hstart.exists_starts (List.ne_nil_of_mem hst), rfl⟩
  | eventLoop g =>
      refine List.any_eq_true.mpr ⟨st, hst, ?_⟩
      cases st with
      | write w => cases w <;> first | rfl | cases hin
      | _ => rfl
  | call =>
      rw [not_inSession_of_calls (hshaped st hst)] at hin
      cases hin
  | listTimer =>
      rw [not_inSession_of_finalizes (hshaped st hst)] at hin
      cases hin
  | worker taskId =>
      rw [not_inSession_of_works (hshaped st hst)] at hin
      cases hin

/-- The next statement of a thread that does not work on a session. -/
inductive Aside : Stmt → Prop
  | calls {st : Stmt} : Calls st → Aside st
  | works {taskId : TaskId} {st : Stmt} : Works taskId st → Aside st
  | finalizes {st : Stmt} : Finalizes st → Aside st
  | connecting {st : Stmt} {rest : List Stmt} : Connecting (st :: rest) → Aside st
  | spent {st : Stmt} : spent st = true → Aside st

/-- A thread that does not work on a session is about to do something beside it. -/
theorem aside_of_idle {owner : Owner} {st : Stmt} {rest : List Stmt}
    (hshaped : Shaped ⟨owner, st :: rest⟩) (hidle : working ⟨owner, st :: rest⟩ = false) :
    Aside st := by
  cases owner with
  | call => exact .calls (hshaped st List.mem_cons_self)
  | worker taskId => exact .works (hshaped st List.mem_cons_self)
  | listTimer => exact .finalizes (hshaped st List.mem_cons_self)
  | connect attempt =>
      rcases hshaped with hcon | ⟨g, hstart⟩
      · exact .connecting hcon
      · have hw : working ⟨.connect attempt, st :: rest⟩ = true :=
          List.any_eq_true.mpr ⟨_, hstart.exists_starts (List.cons_ne_nil st rest), rfl⟩
        rw [hidle] at hw
        cases hw
  -- An event loop that has left has only its last writes to do.
  | eventLoop g =>
      refine .spent ?_
      have hall := List.any_eq_false.mp hidle st List.mem_cons_self
      simpa using hall

/-- Only the start of an event loop starts a thread that works on a session. -/
theorem not_working_of_spawn {choice : Choice} {s : Shared} {st : Stmt} {out : NativeOutcome}
    (hexec : st.exec choice s = some out) (hst : starts st = false) :
    ∀ t ∈ out.spawn, working t = false := by
  intro t ht
  cases st with
  | write w =>
      cases hexec
      simp at ht
  | handler h =>
      cases hexec
      cases h <;> simp only [HandlerStmt.exec] at ht
      all_goals
        repeat' split at ht
        all_goals simp_all [working]
  | eventLoop l =>
      cases l <;> simp only [Stmt.exec, LoopStmt.exec] at hexec
      case sendWithResult sess reply =>
        simp only [Shared.sendWithResult] at hexec
        repeat' split at hexec
        all_goals cases hexec
        all_goals simp at ht
      all_goals repeat' split at hexec
      all_goals cases hexec
      all_goals simp_all [working]
  | call c =>
      cases hexec
      cases c <;> simp only [CallStmt.exec] at ht
      all_goals
        repeat' split at ht
        all_goals simp_all [working, starts]
  | task t =>
      cases t <;> simp only [Stmt.exec, TaskStmt.exec] at hexec
      all_goals repeat' split at hexec
      all_goals cases hexec
      all_goals simp_all [starts]

/-- Only a connect task advances the generation. -/
theorem generation_of_exec {choice : Choice} {s : Shared} {st : Stmt} {out : NativeOutcome}
    (hexec : st.exec choice s = some out) :
    out.shared.connectionGeneration = s.connectionGeneration ∨
      ∃ attempt serverName, st = .task (.advanceGeneration attempt serverName) ∧
        out.shared.connectionGeneration = s.connectionGeneration + 1 := by
  cases st with
  | write w =>
      cases hexec
      exact .inl (write_frame s w).1
  | handler h =>
      cases hexec
      obtain ⟨_, _, _, _, _, _, heq⟩ := handler_frame s h
      exact .inl (by rw [heq])
  | eventLoop l =>
      obtain ⟨_, _, _, _, _, _, _, _, _, _, _, _, heq, _⟩ := loop_frame hexec
      exact .inl (by rw [heq])
  | call c =>
      cases hexec
      obtain ⟨_, _, _, _, _, _, _, _, heq, _⟩ := call_frame s c
      exact .inl (by rw [heq])
  | task t =>
      cases t with
      | advanceGeneration attempt serverName =>
          cases hexec
          exact .inr ⟨attempt, serverName, rfl, rfl⟩
      | _ =>
          dsimp only [Stmt.exec, TaskStmt.exec] at hexec
          repeat' split at hexec
          all_goals cases hexec
          all_goals exact .inl rfl

/-! ### At most one thread works on a session -/

/-- The number of threads that work on a session. -/
def workers (P : Machine) : Nat :=
  Pool.weight (fun _ => 0) (fun t => if working t then 1 else 0) P

/-- While one thread works on a session, no other does. -/
theorem idle_of_working {P : Machine} (hsolo : workers P ≤ 1) {i j : Nat} {t u : NativeThread}
    (hij : j ≠ i) (hi : P.threads[i]? = some t) (hj : P.threads[j]? = some u)
    (hw : working t = true) : working u = false := by
  have hle := Pool.add_le_threadsWeight (fun t => if working t then 1 else 0) hij hi hj
  simp only [workers, Pool.weight, Nat.zero_add] at hsolo
  rw [if_pos hw] at hle
  by_contra hu
  rw [if_pos (by simpa using hu)] at hle
  omega

/-- A thread that is not working does not start to work, unless it advances the generation. -/
theorem not_working_of_step {choice : Choice} {s : Shared} {owner : Owner} {st : Stmt}
    {rest : List Stmt} {out : NativeOutcome} (hexec : st.exec choice s = some out)
    (hshaped : Shaped ⟨owner, st :: rest⟩)
    (hst : ∀ attempt serverName, st ≠ .task (.advanceGeneration attempt serverName))
    (hidle : working ⟨owner, st :: rest⟩ = false) :
    working ⟨owner, out.front ++ rest⟩ = false := by
  cases owner with
  -- A connect task works from the moment it advances the generation.
  | connect attempt =>
      rcases hshaped with hcon | ⟨g, hstart⟩
      · rcases (connecting_step hexec hcon).2 with hself | ⟨a, serverName, rfl, _⟩
        · exact not_working_of_connecting hself
        · exact absurd rfl (hst a serverName)
      · rw [(starting_step hexec hstart).1, List.nil_append]
        by_contra hw
        rw [working_of_cons (by simpa using hw)] at hidle
        cases hidle
  -- A loop that does not work has only statements of the way out, and they write.
  | eventLoop g =>
      have hall : ∀ k ∈ st :: rest, spent k = true := by
        intro k hk
        by_contra hk'
        have : working ⟨.eventLoop g, st :: rest⟩ = true :=
          List.any_eq_true.mpr ⟨k, hk, by simpa using hk'⟩
        rw [this] at hidle
        cases hidle
      have hfront : out.front = [] := by
        have hspent := hall st List.mem_cons_self
        cases st with
        | write w =>
            cases hexec
            rfl
        | _ => cases hspent
      rw [hfront, List.nil_append]
      by_contra hw
      rw [working_of_cons (by simpa using hw)] at hidle
      cases hidle
  | call => rfl
  | listTimer => rfl
  | worker taskId => rfl

/-- A thread that starts an event loop is a connect task with nothing else to do. -/
theorem starting_of_starts {owner : Owner} {st : Stmt} {rest : List Stmt}
    (hshaped : Shaped ⟨owner, st :: rest⟩) (hst : starts st = true) :
    ∃ g attempt, owner = .connect attempt ∧ Starting g (st :: rest) := by
  obtain ⟨g, rfl⟩ : ∃ g, st = .task (.spawnEventLoop g) := by
    cases st with
    | task t => cases t <;> simp_all [starts]
    | _ => cases hst
  cases owner with
  | connect attempt =>
      rcases hshaped with hcon | ⟨g', hstart⟩
      · cases hcon
      · exact ⟨g', attempt, rfl, hstart⟩
  | call => exact (hshaped _ List.mem_cons_self).elim
  | listTimer => exact (hshaped _ List.mem_cons_self).elim
  | worker taskId => exact (hshaped _ List.mem_cons_self).elim
  | eventLoop g' =>
      rcases hshaped with hbegin | hiter | hleave
      · cases hbegin
      · rcases hiter.cons with ⟨h, _⟩ | ⟨h, _⟩ <;> exact h.elim
      · exact (hleave _ List.mem_cons_self).elim

/-- Only a connect task starts an event loop, and only a connect task advances the generation. -/
theorem of_not_connect {choice : Choice} {s : Shared} {owner : Owner} {st : Stmt}
    {rest : List Stmt} {out : NativeOutcome} (hexec : st.exec choice s = some out)
    (hshaped : Shaped ⟨owner, st :: rest⟩) (hne : ∀ attempt, owner ≠ .connect attempt) :
    starts st = false ∧ out.shared.connectionGeneration = s.connectionGeneration := by
  constructor
  · by_contra hst
    obtain ⟨_, attempt, howner, _⟩ := starting_of_starts hshaped (by simpa using hst)
    exact hne attempt howner
  · rcases generation_of_exec hexec with hgen | ⟨a, serverName, rfl, _⟩
    · exact hgen
    · cases owner with
      | connect attempt => exact absurd rfl (hne attempt)
      | call => exact (hshaped _ List.mem_cons_self).elim
      | listTimer => exact (hshaped _ List.mem_cons_self).elim
      | worker taskId => exact (hshaped _ List.mem_cons_self).elim
      | eventLoop g =>
          rcases hshaped with hbegin | hiter | hleave
          · cases hbegin
          · rcases hiter.cons with ⟨h, _⟩ | ⟨h, _⟩ <;> exact h.elim
          · exact (hleave _ List.mem_cons_self).elim

/-- Threads that are not working have no weight. -/
theorem workers_of_idle {threads : List NativeThread} (h : ∀ t ∈ threads, working t = false) :
    Pool.threadsWeight (fun t => if working t then 1 else 0) threads = 0 := by
  induction threads with
  | nil => rfl
  | cons t threads ih =>
      rw [Pool.threadsWeight_cons, ih (fun u hu => h u (.tail _ hu)),
        h t List.mem_cons_self]
      rfl

/-- A step under the condition keeps the number of threads that work on a session at one. -/
theorem solo_step {P P' : Machine} {i : Nat} {choice : Choice}
    (hnext : Pool.next nativeLanguage (.run i choice) P = some P')
    (hshaped : ∀ t ∈ P.threads, Shaped t) (hsolo : workers P ≤ 1)
    (hseq : ∀ th st rest, P.threads[i]? = some th → th.prog = st :: rest →
      sequential P st = true) : workers P' ≤ 1 := by
  obtain ⟨th, st, rest, out, hth, hprog, hexec, _, hw⟩ :=
    Pool.weight_run (fun _ => 0) (fun t => if working t then 1 else 0) hnext
  have hmem := List.mem_of_getElem? hth
  have hsh : Shaped ⟨th.owner, st :: rest⟩ := hprog ▸ hshaped th hmem
  have heq : th = ⟨th.owner, st :: rest⟩ := by rw [← hprog]
  change workers P' + _ = workers P + _ at hw
  -- Is this the step that starts the event loop?
  by_cases hst : starts st = true
  · -- The connect task ends with the start of the event loop.
    obtain ⟨g, attempt, howner, hstart⟩ := starting_of_starts hsh hst
    obtain ⟨hfront, _, hspawn⟩ := starting_step hexec hstart
    have hthw : working th = true := by
      rw [heq, howner]
      exact List.any_eq_true.mpr ⟨st, List.mem_cons_self, hst⟩
    rcases hspawn with hspawn | ⟨_, hrest, hspawn⟩
    -- The task goes on with its start.
    · rw [hspawn, if_pos hthw, Pool.threadsWeight_nil] at hw
      split at hw <;> omega
    -- It ends, and the new thread takes over from it.
    · rw [hspawn, hfront, hrest, howner, if_pos hthw] at hw
      simp only [List.append_nil, working, List.any_nil, List.any_cons, spent, Bool.or_false,
        Bool.not_false, Bool.false_eq_true, if_false, if_true, Pool.threadsWeight_cons,
        Pool.threadsWeight_nil] at hw
      omega
  · have hspawn := workers_of_idle (not_working_of_spawn hexec (by simpa using hst))
    rw [hspawn] at hw
    by_cases hthw : working th = true
    · rw [if_pos hthw] at hw
      split at hw <;> omega
    -- The generation is advanced only when no thread is at work. The condition says so.
    · by_cases hadv : ∃ attempt serverName, st = .task (.advanceGeneration attempt serverName)
      · obtain ⟨attempt, serverName, rfl⟩ := hadv
        have hidle : ∀ t ∈ P.threads, working t = false := by
          simpa [sequential] using hseq th _ rest hth hprog
        have hzero : workers P = 0 := by
          rw [workers, Pool.weight, workers_of_idle hidle]
        split at hw <;> split at hw <;> omega
      · have hself := not_working_of_step hexec hsh (by simpa using hadv)
          (by rw [← heq]; simpa using hthw)
        rw [hself, if_neg hthw] at hw
        simp only [Bool.false_eq_true, if_false] at hw
        omega

/-- At most one thread works on a session. -/
theorem solo_of_run {cond : Machine → Choice → Stmt → Bool}
    (hcond : ∀ P choice st, cond P choice st = true → sequential P st = true) {P : Machine}
    (hrun : RunUnder cond P) : workers P ≤ 1 := by
  refine hrun.invariant_of (P := fun P => workers P ≤ 1) (fun P h => shaped_of_run h) ?_ ?_
  · rintro P ⟨_, hthreads⟩
    simp [workers, Pool.weight, hthreads]
  · intro P P' label hshaped _ hsolo hok hnext
    cases label with
    | run i choice =>
        refine solo_step hnext hshaped hsolo ?_
        intro th st rest hth hprog
        exact hcond P choice st (Pool.cond_of_checks hok hth hprog)
    | env event =>
        obtain ⟨s, spawn, henv, _, hw⟩ :=
          Pool.weight_env (fun _ => 0) (fun t => if working t then 1 else 0) hnext
        have hidle : ∀ t ∈ spawn, working t = false := by
          rcases happening_cases henv with ⟨c, _, _, rfl⟩ | ⟨_, _, _, rfl⟩ | ⟨_, _, _, _, rfl⟩
          all_goals simp [working]
        rw [workers_of_idle hidle] at hw
        change workers P' + _ = workers P + _ at hw
        omega

/-! ### Every thread that works on a session works on the current one -/

/-- A step of a thread keeps it on the current generation. -/
theorem worksOn_step {choice : Choice} {s : Shared} {owner : Owner} {st : Stmt}
    {rest : List Stmt} {out : NativeOutcome} (hexec : st.exec choice s = some out)
    (hshaped : Shaped ⟨owner, st :: rest⟩)
    (hworks : WorksOn s.connectionGeneration ⟨owner, st :: rest⟩) :
    WorksOn out.shared.connectionGeneration ⟨owner, out.front ++ rest⟩ ∧
      ∀ t ∈ out.spawn, WorksOn out.shared.connectionGeneration t := by
  -- The generation goes up with `advanceGeneration` only.
  by_cases hadv : ∃ attempt serverName, st = .task (.advanceGeneration attempt serverName)
  · obtain ⟨attempt, serverName, rfl⟩ := hadv
    cases hexec
    refine ⟨?_, by simp⟩
    intro hw
    cases owner with
    | connect a =>
        refine .inr ⟨⟨a, rfl⟩, attempt, serverName, (s.conns attempt).book, ?_⟩
        rcases hshaped with hcon | ⟨g, _, _, _, hsuffix⟩
        · cases hcon
          exact List.suffix_rfl
        · simp [startProgram, List.suffix_cons_iff] at hsuffix
    | eventLoop g =>
        -- The connect task works on the new generation from now on.
        rcases hshaped with hbegin | hiter | hleave
        · cases hbegin
        · rcases hiter.cons with ⟨h, _⟩ | ⟨h, _⟩ <;> exact h.elim
        · exact (hleave _ List.mem_cons_self).elim
    | call => cases hw
    | listTimer => cases hw
    | worker taskId => cases hw
  · have hgen : out.shared.connectionGeneration = s.connectionGeneration := by
      rcases generation_of_exec hexec with h | ⟨a, serverName, h, _⟩
      · exact h
      · exact absurd ⟨a, serverName, h⟩ hadv
    rw [hgen]
    have hwas : working ⟨owner, out.front ++ rest⟩ = true → working ⟨owner, st :: rest⟩ = true := by
      intro hw
      by_contra hidle
      rw [not_working_of_step hexec hshaped (by simpa using hadv) (by simpa using hidle)] at hw
      cases hw
    refine ⟨?_, ?_⟩
    · intro hw
      rcases hworks (hwas hw) with howner | ⟨hconnect, hstart⟩
      · exact .inl howner
      · refine .inr ⟨hconnect, ?_⟩
        obtain ⟨hfront, hrest, _⟩ := starting_step hexec hstart
        rw [hfront]
        exact hrest
    · intro t ht hw
      -- A thread that is started now works on the generation of its starter.
      by_cases hst : starts st = true
      · obtain ⟨_, attempt, howner, _⟩ := starting_of_starts hshaped hst
        have hthw : working ⟨owner, st :: rest⟩ = true := by
          rw [howner]
          exact List.any_eq_true.mpr ⟨st, List.mem_cons_self, hst⟩
        rcases hworks hthw with h | ⟨_, hstart⟩
        · rw [howner] at h
          cases h
        · rcases (starting_step hexec hstart).2.2 with hspawn | ⟨_, _, hspawn⟩
          · simp [hspawn] at ht
          · rw [hspawn] at ht
            obtain rfl := List.mem_singleton.mp ht
            exact .inl rfl
      · rw [not_working_of_spawn hexec (by simpa using hst) t ht] at hw
        cases hw

/-- Every thread that works on a session works on the session of the current generation. -/
theorem worksOn_of_run {cond : Machine → Choice → Stmt → Bool}
    (hcond : ∀ P choice st, cond P choice st = true → sequential P st = true) {P : Machine}
    (hrun : RunUnder cond P) :
    ∀ t ∈ P.threads, WorksOn P.shared.connectionGeneration t := by
  suffices h : Pool.Keeps (fun _ => True) (fun s => WorksOn s.connectionGeneration) P from
    h.threads
  refine hrun.invariant_of (P := Pool.Keeps (fun _ => True) fun s => WorksOn s.connectionGeneration)
    (fun P h => shaped_of_run h) ?_ ?_
  · rintro P ⟨_, hthreads⟩
    exact ⟨trivial, by simp [hthreads]⟩
  · intro P P' label hshaped _ hkeeps hok hnext
    cases label with
    | run i choice =>
        refine Pool.keeps_run hnext hkeeps ?_
        intro th st rest out hth hprog hexec
        have hmem := List.mem_of_getElem? hth
        have hth' : th = ⟨th.owner, st :: rest⟩ := by rw [← hprog]
        have hseq := hcond P choice st (Pool.cond_of_checks hok hth hprog)
        obtain ⟨hself, hspawn⟩ := worksOn_step hexec (hth' ▸ hshaped th hmem)
          (hth' ▸ hkeeps.threads th hmem)
        refine ⟨trivial, ?_, hself, hspawn⟩
        -- The other threads: if the generation advances, none of them works.
        rintro t ⟨j, hij, hj⟩ ht
        rcases generation_of_exec hexec with hgen | ⟨attempt, serverName, rfl, _⟩
        · rw [hgen]
          exact ht
        · intro hw
          have hidle : ∀ u ∈ P.threads, working u = false := by simpa [sequential] using hseq
          rw [hidle t (List.mem_of_getElem? hj)] at hw
          cases hw
    | env event =>
        refine Pool.keeps_env hnext hkeeps ?_
        intro s spawn henv
        refine ⟨trivial, ?_, ?_⟩
        · intro t _ ht
          rcases happening_cases henv with ⟨c, _, rfl, _⟩ | ⟨_, _, rfl, _⟩ | ⟨_, _, _, rfl, _⟩
          · unfold Shared.noteRequest
            split <;> exact ht
          · exact ht
          · exact ht
        · rcases happening_cases henv with ⟨c, _, _, rfl⟩ | ⟨_, _, _, rfl⟩ | ⟨_, _, _, _, rfl⟩
          all_goals simp [WorksOn, working]

end Nek0.Proofs.Native
