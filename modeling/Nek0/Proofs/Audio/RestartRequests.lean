import Nek0.Audio.OutputRestart
import Nek0.Lib.OneThread
import Nek0.Lib.Observer

/-!
# `Nek0.Proofs.Audio.RestartRequests`: every restart request is served once

A maintenance task tests the flag before the rebuild, and clears it after the rebuild. So a request
that comes in between is cleared with the old one, and another maintenance task that tests the flag
in between rebuilds once more.

The invariant is `Tidy`: no task is past its test, or one task is (`about`, `rebuilding`). The tasks
and callers other than that one are calm.

* `calm_cases`: what a statement of a calm thread can do.
* `tidy_of_next`: every step that meets `inTime` keeps the invariant.
* `idxOf_stage`: while a request waits, each statement brings a maintenance task one stage further,
  and the fourth one begins a rebuild. `turns` counts the statements.
* `servedOnce_of_run`: the law holds in every run that meets `inTime`.
-/

set_option autoImplicit false

namespace Nek0.Proofs.Audio

open Nek0.Audio
open Nek0.Lib (Pool Outcome Thread)
open Nek0.Lib.Pool (Others)
open Nek0.Lib.System (Run)

/-- How many statements each thread executed since a request of the session waits. -/
def turns : Nek0.Lib.Observer RestartPool (Pool.Label Unit Restart.Event) (Nat → Nat) where
  start := fun _ => 0
  see := fun label P m =>
    if P.shared.waiting then
      match label with
      | .run i _ => Function.update m i (m i + 1)
      | .env _ => m
    else fun _ => 0

/-- Each request of the session is followed by a rebuild, and no rebuild is made without a request
that was not served.

While a request waits there is a maintenance task, or a thread that is about to spawn one. Such a
task executes no more than three statements before a rebuild begins: its tick, the load of the flag
and the test of the connection. -/
structure ServedOnce (p : RestartPool × (Nat → Nat)) : Prop where
  manned : p.1.shared.waiting = true →
    ∃ t ∈ p.1.threads, .tick ∈ t.prog ∨ .spawnMaintenanceTask ∈ t.prog
  begins : p.1.shared.waiting = true →
    ∀ i t, p.1.threads[i]? = some t → .tick ∈ t.prog → p.2 i ≤ 3
  once : p.1.shared.extra = false

/-- The task is between the beginning of its rebuild and its clear. -/
def isRebuilding (t : Thread Unit RestartStmt) : Bool :=
  .clearRequested ∈ t.prog && .beginRestart true ∉ t.prog

/-- Between two sessions anything may happen. In a session there is no request while a task
rebuilds, and a task that has seen the flag goes on to its rebuild only if the flag is still set and
no other task is that far. -/
def inTime (P : RestartPool) (_ : Unit) (st : RestartStmt) : Bool :=
  match st with
  | .storeRequested => !P.shared.connected || P.threads.all fun t => !isRebuilding t
  | .checkConnected =>
    !P.shared.connected ||
      P.shared.requested && P.threads.all fun t => .clearRequested ∉ t.prog
  | _ => true

/-- The condition on steps. -/
def requestsInTime (P : RestartPool) (label : Pool.Label Unit Restart.Event) : Prop :=
  Pool.checks inTime P label = true

/-! ### Calm threads -/

/-- The thread is not past its test. -/
def Calm (prog : List RestartStmt) : Prop :=
  ∀ st ∈ prog, st ≠ .clearRequested ∧ st ≠ .beginRestart true

/-- What a calm thread does to the shared state. -/
structure CalmStep (st : RestartStmt) (s s' : Restart) : Prop where
  extra : s'.extra = s.extra
  unserved : s.unserved = true → s'.unserved = true
  fresh : s'.requested = true → s.requested = true ∨ s'.unserved = true
  requested : s.requested = true → s'.requested = true
  waiting : s'.waiting = true → s.waiting = true ∨
    s'.requested = true ∧ st = .storeRequested ∧ s.connected = true

variable {s : Restart} {st : RestartStmt} {out : Outcome Restart Unit RestartStmt}
  {threads spawn : List (Thread Unit RestartStmt)} {P P' : RestartPool}

/-- A statement of a calm thread leaves it calm, or it is the test that leads to a rebuild. -/
theorem calm_cases (h : Restart.exec () st s = some out) (hclear : st ≠ .clearRequested)
    (hbegin : st ≠ .beginRestart true) :
    CalmStep st s out.shared ∧ (∀ t ∈ out.spawn, Calm t.prog) ∧
      (Calm out.front ∨ st = .checkConnected ∧ s.connected = true ∧ out.shared = s ∧
        out.front = Restart.rebuild ∧ out.spawn = []) := by
  have hsame : CalmStep st s s := ⟨rfl, id, .inl, id, .inl⟩
  cases st with
  | clearRequested => exact absurd rfl hclear
  | tick =>
      cases h
      exact ⟨hsame, List.forall_mem_nil _, .inl (by simp [Calm])⟩
  -- The flag is only read here, and with no request the round is over.
  | loadRequested =>
      cases h
      refine ⟨hsame, List.forall_mem_nil _, .inl ?_⟩
      cases s.requested <;> simp [Calm]
  -- In a session the test leads to a rebuild, which is the one thing that is not calm.
  | checkConnected =>
      cases h
      refine ⟨hsame, List.forall_mem_nil _, ?_⟩
      cases hconnected : s.connected with
      | false => exact .inl (by simp [Calm])
      | true => exact .inr ⟨rfl, rfl, rfl, rfl, rfl⟩
  -- The restart of `connect` serves no request, since it is not for one.
  | beginRestart forRequest =>
      cases forRequest with
      | true => exact absurd rfl hbegin
      | false =>
          cases h
          refine ⟨⟨?_, ?_, .inl, id, ?_⟩, List.forall_mem_nil _, .inl (by simp [Calm])⟩
          · simp
          · simp
          · simp
  | endRestart =>
      cases h
      exact ⟨hsame, List.forall_mem_nil _, .inl (by simp [Calm])⟩
  | setConnected =>
      cases h
      exact ⟨⟨rfl, id, .inl, id, .inl⟩, List.forall_mem_nil _, .inl (by simp [Calm])⟩
  | spawnMaintenanceTask =>
      cases h
      exact ⟨hsame, by simp [Calm], .inl (by simp [Calm])⟩
  | setDisconnected =>
      cases h
      exact ⟨⟨rfl, id, .inl, id, by simp⟩, List.forall_mem_nil _, .inl (by simp [Calm])⟩
  | checkSession =>
      cases h
      refine ⟨hsame, List.forall_mem_nil _, .inl ?_⟩
      cases s.connected <;> simp [Calm]
  -- A new request is unserved, and it waits if there is a session.
  | storeRequested =>
      cases h
      refine ⟨⟨rfl, fun _ => rfl, fun _ => .inr rfl, fun _ => rfl, ?_⟩, List.forall_mem_nil _,
        .inl (by simp [Calm])⟩
      intro hwaiting
      rcases (Bool.or_eq_true _ _).mp hwaiting with h | h
      · exact .inl h
      · exact .inr ⟨rfl, rfl, h⟩

/-- A calm thread whose statement has a calm outcome stays calm. -/
theorem calm_append {front rest : List RestartStmt} (hfront : Calm front)
    (h : Calm (st :: rest)) : Calm (front ++ rest) := by
  intro st' hst'
  rcases List.mem_append.mp hst' with hf | hr
  · exact hfront st' hf
  · exact h st' (List.mem_cons_of_mem _ hr)

theorem calm_program (e : Restart.Event) : Calm e.program := by
  cases e <;> simp [Calm, Restart.Event.program]

/-! ### The invariant -/

/-- No task is past its test, or one task is: before its rebuild, or after the beginning of it. -/
inductive Tidy (P : RestartPool) : Prop where
  | quiet (hcalm : Others Calm none P.threads)
      (hserved : P.shared.requested = true → P.shared.unserved = true)
      (hwaiting : P.shared.waiting = true → P.shared.requested = true)
      (hextra : P.shared.extra = false)
  | about (i : Nat) (o : Unit) (rest : List RestartStmt)
      (hth : P.threads[i]? = some ⟨o, Restart.rebuild ++ rest⟩) (hrest : Calm rest)
      (hcalm : Others Calm (some i) P.threads) (hunserved : P.shared.unserved = true)
      (hwaiting : P.shared.waiting = true → P.shared.requested = true)
      (hextra : P.shared.extra = false)
  | rebuilding (i : Nat) (o : Unit) (front rest : List RestartStmt)
      (hth : P.threads[i]? = some ⟨o, front ++ rest⟩)
      (hfront : front = [.endRestart, .clearRequested] ∨ front = [.clearRequested])
      (hrest : Calm rest) (hcalm : Others Calm (some i) P.threads)
      (hwaiting : P.shared.waiting = false) (hextra : P.shared.extra = false)

/-- In a tidy pool no rebuild began without a request. -/
theorem extra_of_tidy (h : Tidy P) : P.shared.extra = false := by
  cases h with
  | quiet _ _ _ hextra => exact hextra
  | about _ _ _ _ _ _ _ _ hextra => exact hextra
  | rebuilding _ _ _ _ _ _ _ _ _ hextra => exact hextra

/-- The next load sees a request that waits. -/
theorem requested_of_tidy (h : Tidy P) (hwaits : P.shared.waiting = true) :
    P.shared.requested = true := by
  cases h with
  | quiet _ _ hwaiting _ => exact hwaiting hwaits
  | about _ _ _ _ _ _ _ hwaiting _ => exact hwaiting hwaits
  | rebuilding _ _ _ _ _ _ _ _ hwaiting _ => exact absurd (hwaits.symm.trans hwaiting) (by decide)

/-- No task is behind the beginning of its rebuild while a request waits. -/
theorem not_isRebuilding (h : Tidy P) (hwaits : P.shared.waiting = true) {i : Nat}
    {t : Thread Unit RestartStmt} (hth : P.threads[i]? = some t) : isRebuilding t = false := by
  have hcalm : Calm t.prog → isRebuilding t = false := by
    intro hcalm
    have hclear : .clearRequested ∉ t.prog := fun hmem => (hcalm _ hmem).1 rfl
    simp [isRebuilding, hclear]
  cases h with
  | quiet hothers _ _ _ => exact hcalm (hothers i t hth (by simp))
  | about k o rest hk _ hothers _ _ _ =>
      by_cases hik : i = k
      · subst hik
        obtain rfl : t = ⟨o, Restart.rebuild ++ rest⟩ := Option.some.inj (hth.symm.trans hk)
        simp [isRebuilding, Restart.rebuild]
      · exact hcalm (hothers i t hth fun heq => hik (Option.some.inj heq))
  | rebuilding _ _ _ _ _ _ _ _ hwaiting _ => exact absurd (hwaits.symm.trans hwaiting) (by decide)

/-- A task that has a clear ahead keeps every other one from its rebuild. -/
theorem not_checkConnected {i : Nat} {t : Thread Unit RestartStmt}
    (hok : inTime P () .checkConnected = true) (hconnected : P.shared.connected = true)
    (hth : P.threads[i]? = some t) (hclear : .clearRequested ∈ t.prog) : False := by
  simp only [inTime, hconnected, Bool.not_true, Bool.false_or, Bool.and_eq_true, List.all_eq_true,
    decide_eq_true_eq] at hok
  exact hok.2 t (List.mem_of_getElem? hth) hclear

/-- A step of a thread keeps the pool tidy. -/
theorem tidy_run {i : Nat} {th : Thread Unit RestartStmt} {rest : List RestartStmt}
    (h : Tidy P) (hth : P.threads[i]? = some th) (hprog : th.prog = st :: rest)
    (hexec : Restart.exec () st P.shared = some out) (hok : inTime P () st = true) :
    Tidy { shared := out.shared
           threads := P.threads.set i ⟨th.owner, out.front ++ rest⟩ ++ out.spawn } := by
  have hself : (P.threads.set i ⟨th.owner, out.front ++ rest⟩ ++ out.spawn)[i]? =
      some ⟨th.owner, out.front ++ rest⟩ := Pool.getElem?_self hth
  have hmem : st ∈ th.prog := hprog ▸ List.mem_cons_self
  cases h with
  | quiet hcalm hserved hwaiting hextra =>
      have hst := hcalm i th hth (by simp) st hmem
      obtain ⟨hstep, hspawn, hfront | ⟨rfl, hconnected, hshared, hrebuild, hnone⟩⟩ :=
        calm_cases hexec hst.1 hst.2
      · refine .quiet (hcalm.run hth hprog (by simp) (calm_append hfront) hspawn) ?_ ?_
          (hstep.extra.trans hextra)
        · intro hreq
          exact (hstep.fresh hreq).elim (fun h => hstep.unserved (hserved h)) id
        · intro hw
          exact (hstep.waiting hw).elim (fun h => hstep.requested (hwaiting h)) And.left
      · -- The only task past its test is this one now.
        simp only [inTime, hconnected, Bool.not_true, Bool.false_or, Bool.and_eq_true] at hok
        have hrest : Calm rest := fun st' hst' =>
          hcalm i th hth (by simp) st' (hprog ▸ List.mem_cons_of_mem _ hst')
        rw [hrebuild, hnone] at hself ⊢
        rw [hshared]
        exact .about i th.owner rest hself hrest
          (hcalm.set_append (fun _ _ => .inr (by simp)) (fun h => absurd rfl h)
            fun _ _ ht => by simp at ht)
          (hserved hok.1) hwaiting hextra
  | about k o rest' hk hrest hcalm hunserved hwaiting hextra =>
      by_cases hik : i = k
      · -- The task begins its rebuild, for the request.
        subst hik
        obtain rfl : th = ⟨o, Restart.rebuild ++ rest'⟩ := Option.some.inj (hth.symm.trans hk)
        obtain ⟨rfl, rfl⟩ := List.cons.inj hprog
        cases hexec
        refine .rebuilding i o [.endRestart, .clearRequested] rest' hself (.inl rfl) hrest
          hcalm.run_skip rfl ?_
        simp [hextra, hunserved]
      · have hne : some i ≠ some k := fun h => hik (Option.some.inj h)
        have hst := hcalm i th hth hne st hmem
        obtain ⟨hstep, hspawn, hfront | ⟨rfl, hconnected, -⟩⟩ := calm_cases hexec hst.1 hst.2
        · refine .about k o rest' (Pool.getElem?_of_ne (Ne.symm hik) hk) hrest
            (hcalm.run hth hprog hne (calm_append hfront) hspawn) (hstep.unserved hunserved) ?_
            (hstep.extra.trans hextra)
          intro hw
          exact (hstep.waiting hw).elim (fun h => hstep.requested (hwaiting h)) And.left
        · exact (not_checkConnected hok hconnected hk (by simp [Restart.rebuild])).elim
  | rebuilding k o front rest' hk hfrontk hrest hcalm hwaiting hextra =>
      by_cases hik : i = k
      · subst hik
        obtain rfl : th = ⟨o, front ++ rest'⟩ := Option.some.inj (hth.symm.trans hk)
        rcases hfrontk with rfl | rfl
        · obtain ⟨rfl, rfl⟩ := List.cons.inj hprog
          cases hexec
          exact .rebuilding i o [.clearRequested] rest' hself (.inr rfl) hrest
            hcalm.run_skip hwaiting hextra
        · -- The flag is cleared, and no request of the session is waiting.
          obtain ⟨rfl, rfl⟩ := List.cons.inj hprog
          cases hexec
          exact .quiet (hcalm.run_leave hrest) nofun
            (fun hw => absurd (hw.symm.trans hwaiting) (by decide)) hextra
      · have hne : some i ≠ some k := fun h => hik (Option.some.inj h)
        have hst := hcalm i th hth hne st hmem
        have hclear : .clearRequested ∈ front ++ rest' ∧
            isRebuilding ⟨o, front ++ rest'⟩ = true := by
          have hbegin : .beginRestart true ∉ rest' := fun h => (hrest _ h).2 rfl
          rcases hfrontk with rfl | rfl <;> simp [isRebuilding, hbegin]
        obtain ⟨hstep, hspawn, hfront | ⟨rfl, hconnected, -⟩⟩ := calm_cases hexec hst.1 hst.2
        · refine .rebuilding k o front rest' (Pool.getElem?_of_ne (Ne.symm hik) hk) hfrontk hrest
            (hcalm.run hth hprog hne (calm_append hfront) hspawn) ?_ (hstep.extra.trans hextra)
          -- A request of the session would not be in time.
          refine Bool.eq_false_iff.mpr fun hw => ?_
          rcases hstep.waiting hw with h | ⟨-, rfl, hconnected⟩
          · exact absurd (h.symm.trans hwaiting) (by decide)
          · simp only [inTime, hconnected, Bool.not_true, Bool.false_or, List.all_eq_true,
              Bool.not_eq_eq_eq_not] at hok
            exact absurd (hclear.2.symm.trans (hok _ (List.mem_of_getElem? hk))) (by decide)
        · exact (not_checkConnected hok hconnected hk hclear.1).elim

/-- A call starts a calm thread. -/
theorem tidy_env (e : Restart.Event) (h : Tidy P) :
    Tidy { shared := P.shared, threads := P.threads ++ [{ owner := (), prog := e.program }] } := by
  have hspawn : ∀ t ∈ [({ owner := (), prog := e.program } : Thread Unit RestartStmt)],
      Calm t.prog := by
    intro t ht
    rw [List.mem_singleton.mp ht]
    exact calm_program e
  cases h with
  | quiet hcalm hserved hwaiting hextra =>
      exact .quiet (hcalm.append hspawn) hserved hwaiting hextra
  | about i o rest hth hrest hcalm hunserved hwaiting hextra =>
      exact .about i o rest (Pool.getElem?_append hth) hrest (hcalm.append hspawn) hunserved
        hwaiting hextra
  | rebuilding i o front rest hth hfront hrest hcalm hwaiting hextra =>
      exact .rebuilding i o front rest (Pool.getElem?_append hth) hfront hrest (hcalm.append hspawn)
        hwaiting hextra

/-- Every step that meets the condition keeps the invariant. -/
theorem tidy_of_next {label : Pool.Label Unit Restart.Event} (h : Tidy P)
    (hok : requestsInTime P label)
    (hnext : restartSystem.next label P = some P') : Tidy P' := by
  cases label with
  | run i choice =>
      obtain ⟨th, st, rest, out, hth, hprog, hexec, rfl⟩ := Pool.next_run hnext
      exact tidy_run h hth hprog hexec (Pool.cond_of_checks hok hth hprog)
  | env e =>
      obtain ⟨s, spawn, henv, rfl⟩ := Pool.next_env (L := Restart.language) hnext
      cases henv
      exact tidy_env e h

/-! ### Progress -/

/-- What a maintenance task still has to execute, in the order of a tick. -/
def stages : List (List RestartStmt) :=
  [[.tick], [.loadRequested, .tick], [.checkConnected, .tick], Restart.rebuild ++ [.tick],
    [.endRestart, .clearRequested, .tick], [.clearRequested, .tick]]

/-- Only a thread that ticks has a tick ahead. -/
theorem tick_mem {rest : List RestartStmt} (hexec : Restart.exec () st s = some out)
    (htick : .tick ∈ out.front ++ rest) : .tick ∈ st :: rest := by
  rcases List.mem_append.mp htick with hfront | hrest
  · cases st with
    | tick => exact List.mem_cons_self
    | loadRequested =>
        cases hexec
        cases hreq : s.requested <;> simp [hreq] at hfront
    | checkConnected =>
        cases hexec
        cases hconn : s.connected <;> simp [hconn, Restart.rebuild] at hfront
    | checkSession =>
        cases hexec
        cases hconn : s.connected <;> simp [hconn] at hfront
    | _ =>
        cases hexec
        simp at hfront
  · exact List.mem_cons_of_mem _ hrest

/-- A maintenance task goes from stage to stage. -/
theorem mem_stages {rest : List RestartStmt} (hexec : Restart.exec () st s = some out)
    (hstage : st :: rest ∈ stages) : out.front ++ rest ∈ stages := by
  simp only [stages, Restart.rebuild, List.mem_cons, List.not_mem_nil, or_false, List.cons_append,
    List.nil_append, List.cons.injEq] at hstage
  rcases hstage with ⟨rfl, rfl⟩ | ⟨rfl, rfl⟩ | ⟨rfl, rfl⟩ | ⟨rfl, rfl⟩ | ⟨rfl, rfl⟩ | ⟨rfl, rfl⟩ <;>
    cases hexec
  · simp [stages]
  · cases s.requested <;> simp [stages]
  · cases s.connected <;> simp [stages]
  all_goals simp [stages]

/-- While a request waits, each statement of a maintenance task brings it to the next stage. -/
theorem idxOf_stage {rest : List RestartStmt} (hexec : Restart.exec () st s = some out)
    (hstage : st :: rest ∈ stages) (hlate : isRebuilding ⟨(), st :: rest⟩ = false)
    (hrequested : s.requested = true) (hconnected : s.connected = true)
    (hwaits : out.shared.waiting = true) :
    stages.idxOf (out.front ++ rest) = stages.idxOf (st :: rest) + 1 := by
  simp only [stages, Restart.rebuild, List.mem_cons, List.not_mem_nil, or_false, List.cons_append,
    List.nil_append, List.cons.injEq] at hstage
  rcases hstage with ⟨rfl, rfl⟩ | ⟨rfl, rfl⟩ | ⟨rfl, rfl⟩ | ⟨rfl, rfl⟩ | ⟨rfl, rfl⟩ | ⟨rfl, rfl⟩ <;>
    cases hexec
  · show stages.idxOf [.loadRequested, .tick] = _
    decide
  · simp only [hrequested, if_true]
    decide
  · simp only [hconnected, if_true]
    decide
  · -- The rebuild begins.
    cases hwaits
  · exact absurd hlate (by decide)
  · exact absurd hlate (by decide)

/-- What is known of the threads, and of the statements that each has executed. -/
structure Watched (p : RestartPool × (Nat → Nat)) : Prop where
  staged : ∀ t ∈ p.1.threads, .tick ∈ t.prog → t.prog ∈ stages
  connects : ∀ t ∈ p.1.threads, .setConnected ∈ t.prog → t.prog = Restart.Event.connect.program
  manned : p.1.shared.connected = true →
    ∃ t ∈ p.1.threads, .tick ∈ t.prog ∨ .spawnMaintenanceTask ∈ t.prog
  connected : p.1.shared.waiting = true → p.1.shared.connected = true
  fresh : ∀ i, p.1.threads.length ≤ i → p.2 i = 0
  ranked : p.1.shared.waiting = true →
    ∀ i t, p.1.threads[i]? = some t → .tick ∈ t.prog → p.2 i ≤ stages.idxOf t.prog

/-- While a request waits, a maintenance task has not begun a rebuild. -/
theorem idxOf_le_three {t : Thread Unit RestartStmt} (hstage : t.prog ∈ stages)
    (hlate : isRebuilding t = false) : stages.idxOf t.prog ≤ 3 := by
  obtain ⟨o, prog⟩ := t
  simp only [stages, Restart.rebuild, List.mem_cons, List.not_mem_nil, or_false, List.cons_append,
    List.nil_append] at hstage
  rcases hstage with rfl | rfl | rfl | rfl | rfl | rfl <;> revert hlate <;> decide +revert

/-- What is watched in a tidy pool is served once. -/
theorem servedOnce_of_watched {p : RestartPool × (Nat → Nat)} (htidy : Tidy p.1) (h : Watched p) :
    ServedOnce p where
  manned hwaits := h.manned (h.connected hwaits)
  begins hwaits i t hth htick :=
    (h.ranked hwaits i t hth htick).trans
      (idxOf_le_three (h.staged t (List.mem_of_getElem? hth) htick)
        (not_isRebuilding htidy hwaits hth))
  once := extra_of_tidy htidy

/-- A statement starts at most a maintenance task. -/
theorem prog_of_mem_spawn (hexec : Restart.exec () st s = some out) {t : Thread Unit RestartStmt}
    (ht : t ∈ out.spawn) : t.prog = [.tick] := by
  cases st with
  | spawnMaintenanceTask =>
      cases hexec
      rw [List.mem_singleton.mp ht]
  | _ =>
      cases hexec
      cases ht

/-- `setConnected` is in the place of no statement. -/
theorem setConnected_not_mem_front (hexec : Restart.exec () st s = some out) :
    .setConnected ∉ out.front := by
  cases st with
  | loadRequested =>
      cases hexec
      cases s.requested <;> simp
  | checkConnected =>
      cases hexec
      cases s.connected <;> simp [Restart.rebuild]
  | checkSession =>
      cases hexec
      cases s.connected <;> simp
  | _ =>
      cases hexec
      simp

/-- A session is established by `setConnected` alone, and a request waits in a session. -/
theorem connected_cases (hexec : Restart.exec () st s = some out) :
    (out.shared.connected = true → st = .setConnected ∨ s.connected = true) ∧
      (out.shared.waiting = true → (s.waiting = true → s.connected = true) →
        out.shared.connected = true) := by
  cases st with
  | setConnected =>
      cases hexec
      exact ⟨fun _ => .inl rfl, fun _ _ => rfl⟩
  | storeRequested =>
      cases hexec
      refine ⟨.inr, fun hw h => ?_⟩
      exact ((Bool.or_eq_true _ _).mp hw).elim h id
  | beginRestart =>
      cases hexec
      exact ⟨.inr, fun hw => absurd hw Bool.false_ne_true⟩
  | setDisconnected =>
      cases hexec
      exact ⟨fun hc => absurd hc Bool.false_ne_true, fun hw => absurd hw Bool.false_ne_true⟩
  | _ =>
      cases hexec
      exact ⟨.inr, fun hw h => h hw⟩

variable {m : Nat → Nat}

/-- The thread that ran still has its tick, and its task to spawn unless it has spawned it. -/
theorem manned_run {i : Nat} {th : Thread Unit RestartStmt} {rest : List RestartStmt}
    (h : Watched (P, m)) (hth : P.threads[i]? = some th) (hprog : th.prog = st :: rest)
    (hexec : Restart.exec () st P.shared = some out) (hconnected : out.shared.connected = true) :
    ∃ t ∈ P.threads.set i ⟨th.owner, out.front ++ rest⟩ ++ out.spawn,
      .tick ∈ t.prog ∨ .spawnMaintenanceTask ∈ t.prog := by
  have hself : (⟨th.owner, out.front ++ rest⟩ : Thread Unit RestartStmt) ∈
      P.threads.set i ⟨th.owner, out.front ++ rest⟩ ++ out.spawn :=
    List.mem_of_getElem? (Pool.getElem?_self hth)
  by_cases hspawn : st = .spawnMaintenanceTask
  · subst hspawn
    cases hexec
    exact ⟨⟨(), [.tick]⟩, List.mem_append_right _ List.mem_cons_self, .inl List.mem_cons_self⟩
  rcases (connected_cases hexec).1 hconnected with rfl | hbefore
  · -- `do_connect` spawns the task after it.
    have hcall := h.connects th (List.mem_of_getElem? hth) (hprog ▸ List.mem_cons_self)
    obtain ⟨-, rfl⟩ := List.cons.inj (hprog.symm.trans hcall)
    exact ⟨_, hself, .inr (List.mem_append_right _ List.mem_cons_self)⟩
  · obtain ⟨t, ht, hahead⟩ := h.manned hbefore
    obtain ⟨j, hj⟩ := List.mem_iff_getElem?.mp ht
    by_cases hij : j = i
    · subst hij
      obtain rfl : t = th := Option.some.inj (hj.symm.trans hth)
      refine ⟨_, hself, ?_⟩
      rw [hprog] at hahead
      rcases hahead with htick | hspawns
      · rcases List.mem_cons.mp htick with rfl | hrest
        · cases hexec
          exact .inl (by simp)
        · exact .inl (List.mem_append_right _ hrest)
      · rcases List.mem_cons.mp hspawns with heq | hrest
        · exact absurd heq.symm hspawn
        · exact .inr (List.mem_append_right _ hrest)
    · exact ⟨t, List.mem_of_getElem? (Pool.getElem?_of_ne hij hj), hahead⟩

/-- Without a request that waits no turns are counted. -/
theorem turns_idle (label : Pool.Label Unit Restart.Event) (hidle : P.shared.waiting = false) :
    turns.see label P m = fun _ => 0 := by
  simp [turns, hidle]

/-- A statement is a turn of its thread, -/
theorem turns_run (i : Nat) (hwaits : P.shared.waiting = true) :
    turns.see (.run i ()) P m = Function.update m i (m i + 1) := by
  simp [turns, hwaits]

/-- and a call is nobody's turn. -/
theorem turns_env (e : Restart.Event) (hwaits : P.shared.waiting = true) :
    turns.see (.env e) P m = m := by
  simp [turns, hwaits]

/-- A statement brings the task that executes it to its next stage, as long as a request waits. So
the turns of a task are at most its stage. -/
theorem ranked_run {i : Nat} {th : Thread Unit RestartStmt} {rest : List RestartStmt}
    (h : Watched (P, m)) (htidy : Tidy P) (hth : P.threads[i]? = some th)
    (hprog : th.prog = st :: rest) (hexec : Restart.exec () st P.shared = some out)
    (hw' : out.shared.waiting = true) {j : Nat} {t : Thread Unit RestartStmt}
    (hj : (P.threads.set i ⟨th.owner, out.front ++ rest⟩ ++ out.spawn)[j]? = some t)
    (htick : .tick ∈ t.prog) : turns.see (.run i ()) P m j ≤ stages.idxOf t.prog := by
  have hranked : P.shared.waiting = true →
      ∀ j t, P.threads[j]? = some t → .tick ∈ t.prog → m j ≤ stages.idxOf t.prog := h.ranked
  have hlt : i < P.threads.length := (List.getElem?_eq_some_iff.mp hth).1
  cases hw : P.shared.waiting with
  | false =>
      rw [turns_idle _ hw]
      exact Nat.zero_le _
  | true =>
      rw [turns_run i hw]
      rcases Nek0.Lib.Pool.getElem?_step hth hj with ⟨rfl, rfl⟩ | ⟨hji, hold⟩ | ⟨hle, hnew⟩
      · have htick' : .tick ∈ st :: rest := tick_mem hexec htick
        have hstage : st :: rest ∈ stages :=
          hprog ▸ h.staged th (List.mem_of_getElem? hth) (hprog ▸ htick')
        have hrank := hranked hw j th hth (hprog ▸ htick')
        rw [Function.update_self]
        rw [hprog] at hrank
        -- The request is not served yet, so the task is before the rebuild.
        have hlate : isRebuilding ⟨(), st :: rest⟩ = false := by
          have hnot := not_isRebuilding htidy hw hth
          simp only [isRebuilding, hprog] at hnot ⊢
          exact hnot
        have hnext := idxOf_stage hexec hstage hlate (requested_of_tidy htidy hw)
          (h.connected hw) hw'
        show m j + 1 ≤ stages.idxOf (out.front ++ rest)
        omega
      · rw [Function.update_of_ne hji]
        exact hranked hw j t hold htick
      · have hnone : m j = 0 := h.fresh j hle
        rw [Function.update_of_ne (by omega), hnone]
        exact Nat.zero_le _

/-- A statement keeps every task at one of its stages. -/
theorem watched_run {i : Nat} {th : Thread Unit RestartStmt} {rest : List RestartStmt}
    (h : Watched (P, m)) (htidy : Tidy P) (hth : P.threads[i]? = some th)
    (hprog : th.prog = st :: rest) (hexec : Restart.exec () st P.shared = some out) :
    Watched ({ shared := out.shared
               threads := P.threads.set i ⟨th.owner, out.front ++ rest⟩ ++ out.spawn },
      turns.see (.run i ()) P m) := by
  -- A task that still has its loop is at one of the stages, and so it was before.
  have hstage : .tick ∈ out.front ++ rest → st :: rest ∈ stages := fun htick =>
    hprog ▸ h.staged th (List.mem_of_getElem? hth) (hprog ▸ tick_mem hexec htick)
  have hlt : i < P.threads.length := (List.getElem?_eq_some_iff.mp hth).1
  refine ⟨?_, ?_, fun hconnected => manned_run h hth hprog hexec hconnected,
    fun hw => (connected_cases hexec).2 hw h.connected, ?_,
    fun hw' j t hj htick => ranked_run h htidy hth hprog hexec hw' hj htick⟩
  · intro t ht htick
    rcases Pool.mem_set_append ht with hold | rfl | hnew
    · exact h.staged t hold htick
    · exact mem_stages hexec (hstage htick)
    · rw [prog_of_mem_spawn hexec hnew]
      decide
  · intro t ht hset
    rcases Pool.mem_set_append ht with hold | rfl | hnew
    · exact h.connects t hold hset
    · -- The statement is the first one of the call.
      have hrest : .setConnected ∈ rest :=
        (List.mem_append.mp hset).resolve_left (setConnected_not_mem_front hexec)
      have hcall := h.connects th (List.mem_of_getElem? hth)
        (hprog ▸ List.mem_cons_of_mem _ hrest)
      obtain ⟨-, rfl⟩ := List.cons.inj (hprog.symm.trans hcall)
      simp at hrest
    · rw [prog_of_mem_spawn hexec hnew] at hset
      simp at hset
  · intro j hj
    have hle : P.threads.length ≤ j := by
      simp only [List.length_append, List.length_set] at hj
      omega
    show turns.see (.run i ()) P m j = 0
    cases hw : P.shared.waiting with
    | false => rw [turns_idle _ hw]
    | true =>
        rw [turns_run i hw, Function.update_of_ne (by omega)]
        exact h.fresh j hle

/-- A call adds a thread. -/
theorem watched_env (e : Restart.Event) (h : Watched (P, m)) :
    Watched ({ shared := P.shared, threads := P.threads ++ [{ owner := (), prog := e.program }] },
      turns.see (.env e) P m) := by
  have hprog : ∀ t ∈ [({ owner := (), prog := e.program } : Thread Unit RestartStmt)],
      .tick ∉ t.prog ∧ (.setConnected ∈ t.prog → t.prog = Restart.Event.connect.program) := by
    intro t ht
    rw [List.mem_singleton.mp ht]
    cases e <;> simp [Restart.Event.program]
  refine ⟨?_, ?_, ?_, h.connected, ?_, ?_⟩
  -- A call has no loop.
  · intro t ht htick
    rcases List.mem_append.mp ht with hold | hnew
    · exact h.staged t hold htick
    · exact absurd htick (hprog t hnew).1
  · intro t ht hset
    rcases List.mem_append.mp ht with hold | hnew
    · exact h.connects t hold hset
    · exact (hprog t hnew).2 hset
  · intro hconnected
    obtain ⟨t, ht, hahead⟩ := h.manned hconnected
    exact ⟨t, List.mem_append_left _ ht, hahead⟩
  -- A call takes no turn.
  · intro j hj
    have hle : P.threads.length ≤ j := by
      simp only [List.length_append] at hj
      omega
    show turns.see (.env e) P m j = 0
    cases hw : P.shared.waiting with
    | false => rw [turns_idle _ hw]
    | true =>
        rw [turns_env e hw]
        exact h.fresh j hle
  · intro hw j t hj htick
    show turns.see (.env e) P m j ≤ _
    have hw' : P.shared.waiting = true := hw
    rw [turns_env e hw']
    by_cases hlt : j < P.threads.length
    · have hold : P.threads[j]? = some t := by
        rw [← hj]
        exact (List.getElem?_append_left hlt).symm
      exact h.ranked hw' j t hold htick
    · have hzero : m j = 0 := h.fresh j (Nat.le_of_not_lt hlt)
      rw [hzero]
      exact Nat.zero_le _

/-- Every step that meets the condition keeps the invariant and the count of the statements. -/
theorem watched_of_next {p p' : RestartPool × (Nat → Nat)}
    {label : Pool.Label Unit Restart.Event} (h : Tidy p.1 ∧ Watched p)
    (hok : requestsInTime p.1 label)
    (hnext : (restartSystem.observed turns).next label p = some p') :
    Tidy p'.1 ∧ Watched p' := by
  obtain ⟨P, m⟩ := p
  obtain ⟨P', m'⟩ := p'
  obtain ⟨hnext, rfl⟩ := Nek0.Lib.System.next_observed hnext
  refine ⟨tidy_of_next h.1 hok hnext, ?_⟩
  cases label with
  | run i choice =>
      obtain ⟨th, st, rest, out, hth, hprog, hexec, rfl⟩ := Pool.next_run hnext
      exact watched_run h.2 h.1 hth hprog hexec
  | env e =>
      obtain ⟨s, spawn, henv, rfl⟩ := Pool.next_env (L := Restart.language) hnext
      cases henv
      exact watched_env e h.2

/-- In a run that meets the condition, no request is lost and none is served twice. -/
theorem servedOnce_of_run {p : RestartPool × (Nat → Nat)}
    (hrun : (restartSystem.observed turns).Run (fun p => requestsInTime p.1) p) :
    ServedOnce p := by
  have hinv : Tidy p.1 ∧ Watched p := by
    refine Run.invariant (P := fun p => Tidy p.1 ∧ Watched p) ?_ ?_ hrun
    · rintro ⟨⟨s, threads⟩, m⟩ ⟨⟨hinit, hthreads⟩, hstart⟩
      cases hinit
      cases hthreads
      cases hstart
      refine ⟨.quiet nofun nofun nofun rfl, ?_, ?_, nofun, nofun, fun _ _ => rfl, nofun⟩
      · exact fun t ht => absurd ht List.not_mem_nil
      · exact fun t ht => absurd ht List.not_mem_nil
    · exact fun p p' label h hok hnext => watched_of_next h hok hnext
  exact servedOnce_of_watched hinv.1 hinv.2

/-- Thread `i` executes `k` statements. -/
def steps (i k : Nat) : List (Pool.Label Unit Restart.Event) := List.replicate k (.run i ())

/-- A session is established, with a maintenance task, which is thread `i + 1`. -/
def sessionStarts (i : Nat) : List (Pool.Label Unit Restart.Event) :=
  .env .connect :: steps i 4

/-- A route change asks for a restart. The caller is thread `i`. -/
def routeChanges (i : Nat) : List (Pool.Label Unit Restart.Event) :=
  .env .restartAudioOutput :: steps i 2

/-- The initial state, with no statement executed. -/
theorem run_initial (ok : RestartPool → Pool.Label Unit Restart.Event → Prop) :
    (restartSystem.observed turns).Run (fun p => ok p.1) (⟨.initial, []⟩, fun _ => 0) :=
  .start ⟨⟨rfl, rfl⟩, rfl⟩

/-- Two requests before a tick are served by one rebuild. -/
theorem servedOnce_coalesced : ∃ p : RestartPool × (Nat → Nat), p.1.shared.requested = false ∧
    p.1.shared.unserved = false ∧ ServedOnce p := by
  obtain ⟨p, hrun, hview⟩ := Run.exists_of_exec (restartSystem.observed turns)
    (fun p => requestsInTime p.1) (fun p => Pool.checks inTime p.1)
    (sessionStarts 0 ++ routeChanges 2 ++ routeChanges 3 ++ steps 1 6)
    (fun p => (p.1.shared.requested, p.1.shared.unserved)) (fun _ _ h => h)
    (run_initial requestsInTime) (a := (false, false)) rfl
  simp only [Prod.mk.injEq] at hview
  exact ⟨p, hview.1, hview.2, servedOnce_of_run hrun⟩

/-- A request comes while the task rebuilds, and is cleared with the old one: the task ticks twice,
and the request still waits. And after a second connect two tasks test the flag before one of them
clears it, and both rebuild. -/
theorem not_servedOnce :
    (∃ p, (restartSystem.observed turns).Reachable p ∧ ¬ ServedOnce p ∧
      p.1.shared.waiting = true) ∧
    ∃ p, (restartSystem.observed turns).Reachable p ∧ ¬ ServedOnce p ∧ p.1.shared.extra = true := by
  constructor
  · obtain ⟨p, hrun, hview⟩ := Run.exists_of_exec (restartSystem.observed turns)
      (fun _ _ => True) (fun _ _ => true)
      (sessionStarts 0 ++ routeChanges 2 ++ steps 1 4 ++ routeChanges 3 ++ steps 1 6)
      (fun p => (p.1.shared.waiting, (p.1.threads[1]?).map (·.prog), p.2 1))
      (fun _ _ _ => trivial) (run_initial fun _ _ => True) (a := (true, some [.tick], 6)) rfl
    simp only [Prod.mk.injEq] at hview
    obtain ⟨hwaiting, hprog, hturns⟩ := hview
    refine ⟨p, hrun, fun h => ?_, hwaiting⟩
    obtain ⟨t, hth, hprog⟩ := Option.map_eq_some_iff.mp hprog
    have hle := h.begins hwaiting 1 t hth (hprog ▸ List.mem_cons_self)
    omega
  · obtain ⟨p, hrun, hview⟩ := Run.exists_of_exec (restartSystem.observed turns)
      (fun _ _ => True) (fun _ _ => true)
      (sessionStarts 0 ++ sessionStarts 2 ++ routeChanges 4 ++ steps 1 2 ++ steps 3 2 ++
        steps 1 4 ++
        steps 3 2)
      (fun p => p.1.shared.extra) (fun _ _ _ => trivial) (run_initial fun _ _ => True)
      (a := true) rfl
    exact ⟨p, hrun, fun h => absurd (h.once.symm.trans hview) (by decide), hview⟩

end Nek0.Proofs.Audio
