import Nek0.Proofs.Native.Frames
import Nek0.Proofs.Native.Threads
import Nek0.Proofs.Native.TransferTasks

/-!
# `Nek0.Proofs.Native.TransferCalls`: the call that starts a transfer

A call registers its task in three statements: it inserts the task into `FT_TASKS`, pushes
`FtStarted`, and queues the command. `Registration` says that no thread is anywhere else with these
statements (`registration_of_run`).

`Numbered t` counts. If no task id is handed out twice, at most one call has the task `t`, and the
task is still to be inserted, in `FT_TASKS`, or has an `FtDone` that is still to be pushed, and is
only one of these at a time (`numbered_of_run`).
-/

set_option autoImplicit false

namespace Nek0.Proofs.Native

open Nek0.Lib
open Nek0.Native

/-- A statement by which a call starts a transfer. -/
def registers : Stmt → Bool
  | .write (.insertTask _ _ _ _ _) => true
  | .write (.pushStarted _) => true
  | .call (.ftReady (.transfer _)) => true
  | .call (.ftReadyAlive (.transfer _)) => true
  | .call (.ftNewTask _) => true
  | .call (.sendTransfer _ _) => true
  | _ => false

/-- The programs of a thread, as far as they start a transfer. -/
inductive Registration : List Stmt → Prop
  | aside {prog : List Stmt} : (∀ st ∈ prog, registers st = false) → Registration prog
  | ready {tr : Transfer} : Registration [.call (.ftReady (.transfer tr))]
  | readyAlive {tr : Transfer} : Registration [.call (.ftReadyAlive (.transfer tr))]
  | newTask {tr : Transfer} : Registration [.call (.ftNewTask tr)]
  | insert {taskId : TaskId} {kind : TransferKind} {name localPath : String} {total : UInt64}
      {tr : Transfer} : Registration [.write (.insertTask taskId kind name localPath total),
        .write (.pushStarted taskId), .call (.sendTransfer taskId tr)]
  | announce {taskId : TaskId} {tr : Transfer} :
      Registration [.write (.pushStarted taskId), .call (.sendTransfer taskId tr)]
  | send {taskId : TaskId} {tr : Transfer} : Registration [.call (.sendTransfer taskId tr)]

/-! ### One call -/

/-- Only a call starts transfers. -/
theorem owner_of_registers {t : NativeThread} (h : Shaped t) {st : Stmt} (hst : st ∈ t.prog)
    (hregisters : registers st = true) : t.owner = .call := by
  have hexecutes := executes_of_shaped h hst
  cases howner : t.owner with
  | call => rfl
  | _ =>
      exfalso
      rw [howner] at hexecutes
      cases st with
      | write w =>
          cases w <;> first
            | exact absurd hregisters Bool.false_ne_true
            | simp [Executes, Connects, Iterates, Body, Leaves, Finalizes, Works] at hexecutes
      | call c => simp [Executes, Connects, Iterates, Body, Leaves, Finalizes, Works] at hexecutes
      | _ => cases hregisters

/-- What a statement of a call puts in its place, as far as it starts a transfer. -/
theorem front_of_registers {choice : Choice} {s : Shared} {owner : Owner} {st : Stmt}
    {rest : List Stmt} {out : NativeOutcome} (hexec : st.exec choice s = some out)
    (hshaped : Shaped ⟨owner, st :: rest⟩) :
    (∀ k ∈ out.front, registers k = false) ∨
    (∃ tr, st = .call (.ftReady (.transfer tr)) ∧
      out.front = [.call (.ftReadyAlive (.transfer tr))]) ∨
    (∃ tr, st = .call (.ftReadyAlive (.transfer tr)) ∧ out.front = [.call (.ftNewTask tr)]) ∨
    ∃ tr, st = .call (.ftNewTask tr) ∧
      out.front = [.write (.insertTask s.ftTaskSeq tr.kind tr.name tr.localPath tr.total),
        .write (.pushStarted s.ftTaskSeq), .call (.sendTransfer s.ftTaskSeq tr)] := by
  -- Only a call starts a transfer, in three steps: the two tests, and the registration.
  by_cases hcall : owner = .call
  · subst hcall
    have hcalls : Calls st := hshaped st List.mem_cons_self
    cases st with
    | write w =>
        cases hexec
        exact .inl (by simp)
    | handler h =>
        cases hexec
        cases h with
        | finishFtTask taskId ok error origin =>
            refine .inl ?_
            intro k hk
            obtain ⟨d, rfl⟩ := (finishFtTask_front s taskId ok error origin).1 k hk
            rfl
        | _ => exact hcalls.elim
    | eventLoop l => exact hcalls.elim
    | task task => exact hcalls.elim
    | call c =>
        cases hexec
        cases c with
        | ftReady r =>
            dsimp only [CallStmt.exec]
            split
            · cases r with
              | command c => exact .inl (by simp [registers])
              | transfer tr => exact .inr (.inl ⟨tr, rfl, rfl⟩)
            · exact .inl (by simp)
        | ftReadyAlive r =>
            dsimp only [CallStmt.exec]
            split
            · cases r with
              | command c => exact .inl (by simp [registers])
              | transfer tr => exact .inr (.inr (.inl ⟨tr, rfl, rfl⟩))
            · exact .inl (by simp)
        | ftNewTask tr => exact .inr (.inr (.inr ⟨tr, rfl, rfl⟩))
        | _ =>
            left
            dsimp only [CallStmt.exec]
            repeat' split
            all_goals simp [registers]
  · -- The thread is shaped after the step, too, and is not a call's.
    left
    intro k hk
    by_contra hregisters
    exact hcall (owner_of_registers (shaped_step hexec hshaped).1 (List.mem_append_left _ hk)
      (by simpa using hregisters))

/-- What a statement starts does not start a transfer. -/
theorem spawn_of_registers {choice : Choice} {s : Shared} {st : Stmt} {out : NativeOutcome}
    (hexec : st.exec choice s = some out) :
    ∀ t ∈ out.spawn, ∀ k ∈ t.prog, registers k = false := by
  intro t ht k hk
  rcases spawn_cases hexec with h | ⟨_, _, h⟩ | ⟨_, _, h⟩ | ⟨_, _, h⟩ | ⟨_, _, _, _, _, h⟩ |
    ⟨_, _, h⟩
  · rw [h] at ht
    cases ht
  all_goals
    rw [h] at ht
    obtain rfl := List.mem_singleton.mp ht
    obtain rfl := List.mem_singleton.mp hk
    rfl

/-- A step of a thread goes on with the registration of its task. -/
theorem registration_step {choice : Choice} {s : Shared} {owner : Owner} {st : Stmt}
    {rest : List Stmt} {out : NativeOutcome} (hexec : st.exec choice s = some out)
    (hshaped : Shaped ⟨owner, st :: rest⟩) (h : Registration (st :: rest)) :
    Registration (out.front ++ rest) := by
  rcases front_of_registers hexec hshaped with hfront | ⟨tr, rfl, hfront⟩ | ⟨tr, rfl, hfront⟩ |
    ⟨tr, rfl, hfront⟩
  · have hlast : Registration (out.front ++ []) := by
      rw [List.append_nil]
      exact .aside hfront
    cases h with
    | aside h =>
        exact .aside (List.forall_mem_append.mpr ⟨hfront, fun k hk => h k (.tail _ hk)⟩)
    | insert =>
        cases hexec
        exact .announce
    | announce =>
        cases hexec
        exact .send
    | _ => exact hlast
  -- The other ways lead from one form to the next.
  · rw [hfront]
    cases h with
    | aside h => cases h _ List.mem_cons_self
    | ready => exact .readyAlive
  · rw [hfront]
    cases h with
    | aside h => cases h _ List.mem_cons_self
    | readyAlive => exact .newTask
  · rw [hfront]
    cases h with
    | aside h => cases h _ List.mem_cons_self
    | newTask => exact .insert

/-- The program of a call has the form of a registration. -/
theorem registration_of_program (c : Call) : Registration c.program := by
  cases c with
  | startTransfer tr => exact .ready
  | queueCommand c =>
      refine .aside ?_
      dsimp only [Call.program]
      split <;> simp [registers]
  | queueFtCommand c =>
      refine .aside ?_
      dsimp only [Call.program]
      split <;> simp [registers]
  | _ => exact .aside (by simp [Call.program, registers])

/-- Each thread of a run starts transfers in this way only. -/
theorem registration_of_run {ok : Machine → NativeLabel → Prop} {P : Machine}
    (hrun : native.Run ok P) : ∀ t ∈ P.threads, Registration t.prog := by
  suffices h : Pool.Keeps (fun _ => True) (fun _ t => Registration t.prog) P from h.threads
  refine System.Run.invariant_of (P := Pool.Keeps (fun _ => True) fun _ t => Registration t.prog)
    (fun _ hP => shaped_of_run hP) ?_ ?_ hrun
  · rintro P ⟨_, hthreads⟩
    exact ⟨trivial, by simp [hthreads]⟩
  · intro P P' label hshaped _ hkeeps _ hnext
    cases label with
    | run i choice =>
        refine Pool.keeps_run hnext hkeeps ?_
        intro th st rest out hth hprog hexec
        have hmem := List.mem_of_getElem? hth
        refine ⟨trivial, fun _ _ h => h, ?_, ?_⟩
        · have hsh : Shaped ⟨th.owner, st :: rest⟩ := hprog ▸ hshaped th hmem
          have hform : Registration (st :: rest) := hprog ▸ hkeeps.threads th hmem
          exact registration_step hexec hsh hform
        · intro t ht
          exact .aside (spawn_of_registers hexec t ht)
    | env event =>
        refine Pool.keeps_env hnext hkeeps ?_
        intro s spawn henv
        refine ⟨trivial, fun _ _ h => h, ?_⟩
        intro t ht
        rcases happening_cases henv with ⟨c, _, _, rfl⟩ | ⟨_, _, _, rfl⟩ | ⟨_, _, _, _, rfl⟩
        · obtain rfl := List.mem_singleton.mp ht
          exact registration_of_program c
        · cases ht
        · cases ht

end Nek0.Proofs.Native
