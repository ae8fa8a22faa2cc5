import Nek0.Proofs.Native.Ownership

/-!
# `Nek0.Proofs.Native.Emissions`: where the answering events come from

The events that answer a command, a listing or a bare error are pushed with their origin. Five
statements lead to such a push, each with what it took out of a table (`Emits`), and nothing else
does (`emits_of_step`).
-/

set_option autoImplicit false

namespace Nek0.Proofs.Native

open Nek0.Lib
open Nek0.Native

/-- The event that a statement pushes, if it has an origin. -/
def emission : Stmt → Option (TsEvent × Origin)
  | .write (.push e (some o)) => some (e, o)
  | _ => none

/-- In this state the statement leads to the push of the event. -/
inductive Emits (s : Shared) : Stmt → TsEvent × Origin → Prop where
  | permOp {code : ReturnCode} {res : Except TsError Unit} {sid : SendId} {op : Awaiting String} :
      s.permOps.lookup code = some op → Emits s (.handler (.takePermOp code res sid))
        (.permOp op.value res.isOk (errText res), .answer op.sid sid)
  | ftOp {code : ReturnCode} {res : Except TsError Unit} {sid : SendId} {op : Awaiting String} :
      s.ftOps.lookup code = some op → Emits s (.handler (.takeFtOp code res sid))
        (.ftOp op.value res.isOk (errText res), .answer op.sid sid)
  | ftDone {taskId : TaskId} {ok : Bool} {error : Option String} {origin : Origin} {task : FtTask} :
      s.ftTasks.lookup taskId = some task →
        Emits s (.handler (.finishFtTask taskId ok error (some origin)))
          (.ftDone taskId ok task.done error, origin)
  | moveRejected {cid : UInt64} {at_ : Instant} :
      s.pendingMove = some (cid, at_) → s.now - at_ ≤ 5000 →
        Emits s (.handler .takePendingMove) (.moveRejected cid.toUInt32, .bareError)
  | listing {code : ReturnCode} {timer : SendId} {p : PendingFtList} :
      s.ftLists.lookup code = some p → Emits s (.task (.finalizeFtList code timer))
        (p.event, .listing p timer)

/-- The event is pushed, or a thread is about to push it. -/
abbrev Emitted (P : Machine) (a : TsEvent × Origin) : Prop :=
  Pool.Holds (fun s a => a ∈ s.history.emitted) (fun st a => emission st = some a) P a

/-! ### Statements -/

/-- A push with an origin is recorded, and nothing else is. -/
theorem emitted_of_write (s : Shared) (w : Write) :
    (w.apply s).history.emitted = s.history.emitted ++ (emission (.write w)).toList := by
  cases w with
  | downloadProgress taskId done =>
      obtain ⟨_, _, heq, _⟩ := downloadProgress_frame s taskId done
      rw [heq]
      exact (List.append_nil _).symm
  | uploadProgress taskId n =>
      obtain ⟨_, _, heq, _⟩ := uploadProgress_frame s taskId n
      rw [heq]
      exact (List.append_nil _).symm
  | push e origin =>
      cases origin with
      | none => exact (List.append_nil _).symm
      | some o => rfl
  | _ =>
      dsimp only [Write.apply]
      repeat' split
      all_goals exact (List.append_nil _).symm

/-- A handler statement leads to what it took. -/
theorem emits_of_handler {s : Shared} {h : HandlerStmt} {k : Stmt} (hk : k ∈ (h.exec s).front)
    {a : TsEvent × Origin} (ha : emission k = some a) : Emits s (.handler h) a := by
  -- Four handlers take an entry and push what it tells, with its origin.
  cases h with
  | takePermOp code res sid =>
      dsimp only [HandlerStmt.exec] at hk
      split at hk
      · cases hk
      · rename_i op hop
        rw [List.mem_singleton.mp hk] at ha
        cases ha
        exact .permOp hop
  | takeFtOp code res sid =>
      dsimp only [HandlerStmt.exec] at hk
      split at hk
      · cases hk
      · rename_i op hop
        rw [List.mem_singleton.mp hk] at ha
        cases ha
        exact .ftOp hop
  -- The move is reported only within its window of time.
  | takePendingMove =>
      dsimp only [HandlerStmt.exec] at hk
      split at hk
      · cases hk
      · rename_i cid at_ hmove
        split at hk
        · rename_i hwindow
          rw [List.mem_singleton.mp hk] at ha
          cases ha
          exact .moveRejected hmove hwindow
        · cases hk
  | finishFtTask taskId ok error origin =>
      dsimp only [HandlerStmt.exec] at hk
      split at hk
      · cases hk
      · rename_i task htask
        rw [List.mem_singleton.mp hk] at ha
        cases origin with
        | none => cases ha
        | some o =>
            cases ha
            exact .ftDone htask
  | drainPermOps =>
      obtain ⟨_, _, rfl⟩ := List.mem_map.mp hk
      cases ha
  | markListFinished cid path sid =>
      obtain ⟨_, _, rfl⟩ := List.mem_map.mp hk
      cases ha
  | _ =>
      dsimp only [HandlerStmt.exec] at hk
      repeat' split at hk
      all_goals simp only [List.mem_singleton, List.not_mem_nil] at hk
      all_goals
        subst hk
        cases ha

/-- A statement of the event loop leads to no such push. -/
theorem not_emission_of_loop {choice : Choice} {s : Shared} {l : LoopStmt} {out : NativeOutcome}
    (hexec : l.exec choice s = some out) : ∀ k ∈ out.front, emission k = none := by
  have hcommand : ∀ sess c, ∀ k ∈ commandProgram sess c, emission k = none := by
    intro sess c
    cases c <;> simp [commandProgram, emission]
  have hown : ∀ sess own c, ∀ k ∈ ownClientProgram sess own c, emission k = none := by
    intro sess own c
    cases c <;> dsimp only [ownClientProgram, refuse]
    all_goals repeat' split
    all_goals simp [emission]
  have hsent : ∀ (s : Shared) con reply failure, ∀ k ∈ (s.sendWithResult con reply failure).front,
      emission k = none := by
    intro s con reply failure
    have honSent : ∀ code sid, ∀ k ∈ reply.onSent code sid, emission k = none := by
      intro code sid
      cases reply with
      | permOp token => cases token <;> simp [Reply.onSent, emission]
      | _ => simp [Reply.onSent, emission]
    have honFailed : ∀ e, ∀ k ∈ reply.onFailed e, emission k = none := by
      intro e
      cases reply with
      | permOp token => cases token <;> simp [Reply.onFailed, emission]
      | _ => simp [Reply.onFailed, emission]
    unfold Shared.sendWithResult
    dsimp only
    repeat' split
    · exact honFailed _
    · exact honSent _ _
    · exact honFailed _
  have hitem : ∀ con it, ∀ k ∈ itemProgram con it, emission k = none := by
    intro con it
    cases it with
    | bookEvents events =>
        intro k hk
        obtain ⟨e, _, rfl⟩ := List.mem_map.mp hk
        cases e <;> rfl
    | commandError invalidPassword =>
        intro k hk
        obtain ⟨e, _, rfl⟩ := List.mem_map.mp hk
        rfl
    | fileDownload clientFt stream => cases stream <;> simp [itemProgram, emission]
    | fileUpload clientFt stream => cases stream <;> simp [itemProgram, emission]
    | _ => simp [itemProgram, emission]
  have hexit : ∀ s sess way, ∀ k ∈ exitProgram s sess way, emission k = none := by
    intro s sess way
    unfold exitProgram
    split <;> cases way <;> simp [ExitWay.writes, leaveProgram, emission]
  -- By the programs that the loop puts in front: commands, answers, stream items and the exit.
  cases l with
  | receive sess =>
      dsimp only [LoopStmt.exec] at hexec
      split at hexec
      · cases hexec
        simp [emission]
      · split at hexec <;> cases hexec
        · simp [emission]
        · rw [List.forall_mem_append]
          exact ⟨hcommand _ _, by simp [emission]⟩
  | ownClient sess c =>
      cases hexec
      exact hown _ _ _
  | sendWithResult sess reply =>
      dsimp only [LoopStmt.exec] at hexec
      split at hexec <;> cases hexec
      all_goals exact hsent _ _ _ _
  | handle sess ended =>
      dsimp only [LoopStmt.exec] at hexec
      split at hexec
      · cases hexec
        dsimp only
        split <;> simp [emission]
      · cases hexec
        dsimp only
        split
        · simp [emission]
        · rw [List.forall_mem_append]
          exact ⟨hitem _ _, by simp [emission]⟩
  | guardExit sess way =>
      cases hexec
      exact hexit _ _ _
  | startDownload sess ended taskId total =>
      dsimp only [LoopStmt.exec] at hexec
      split at hexec <;> cases hexec
      all_goals simp [leaveProgram, emission]
  | _ =>
      dsimp only [LoopStmt.exec] at hexec
      repeat' split at hexec
      all_goals cases hexec
      all_goals simp [emission]

/-- What leads to a push with an origin. -/
theorem emits_of_front {choice : Choice} {s : Shared} {st : Stmt} {out : NativeOutcome}
    (hexec : st.exec choice s = some out) {k : Stmt} (hk : k ∈ out.front)
    {a : TsEvent × Origin} (ha : emission k = some a) : Emits s st a := by
  cases st with
  | write w =>
      cases hexec
      cases hk
  | handler h =>
      cases hexec
      exact emits_of_handler hk ha
  | eventLoop l =>
      rw [not_emission_of_loop hexec k hk] at ha
      cases ha
  -- A call pushes no event with an origin.
  | call c =>
      cases hexec
      have hcalls := calls_of_call s c k hk
      cases k with
      | write w =>
          cases w <;> try cases ha
          rename_i e origin
          cases origin with
          | none => cases ha
          | some o => cases e <;> exact hcalls.elim
      | _ => cases ha
  | task t =>
      -- The timer of a file list pushes what was collected.
      cases t with
      | finalizeFtList code timer =>
          dsimp only [Stmt.exec, TaskStmt.exec] at hexec
          split at hexec
          · cases hexec
            cases hk
          · rename_i p hp
            cases hexec
            rw [List.mem_singleton.mp hk] at ha
            cases ha
            exact .listing hp
      | _ =>
          dsimp only [Stmt.exec, TaskStmt.exec, finishProgram] at hexec
          repeat' split at hexec
          all_goals cases hexec
          all_goals simp only [List.mem_cons, List.not_mem_nil, or_false] at hk
          all_goals
            repeat' rcases hk with rfl | hk
            all_goals cases ha

/-- A new thread does not begin with one. -/
theorem not_emission_of_spawn {choice : Choice} {s : Shared} {st : Stmt} {out : NativeOutcome}
    (hexec : st.exec choice s = some out) :
    ∀ t ∈ out.spawn, ∀ k ∈ t.prog, emission k = none := by
  cases st with
  | write w =>
      cases hexec
      simp
  | handler h =>
      cases hexec
      cases h <;> dsimp only [HandlerStmt.exec]
      all_goals repeat' split
      all_goals simp [emission]
  | eventLoop l =>
      cases l with
      | sendWithResult sess reply =>
          dsimp only [Stmt.exec, LoopStmt.exec, Shared.sendWithResult] at hexec
          repeat' split at hexec
          all_goals cases hexec
          all_goals simp
      | _ =>
          dsimp only [Stmt.exec, LoopStmt.exec] at hexec
          repeat' split at hexec
          all_goals cases hexec
          all_goals simp [emission]
  | call c =>
      cases hexec
      cases c <;> dsimp only [CallStmt.exec]
      all_goals repeat' split
      all_goals simp [emission]
  | task t =>
      cases t <;> dsimp only [Stmt.exec, TaskStmt.exec] at hexec
      all_goals repeat' split at hexec
      all_goals cases hexec
      all_goals simp [emission]

/-- What is recorded after a statement. -/
theorem emitted_of_exec {choice : Choice} {s : Shared} {st : Stmt} {out : NativeOutcome}
    (hexec : st.exec choice s = some out) :
    out.shared.history.emitted = s.history.emitted ++ (emission st).toList := by
  cases st with
  | write w =>
      cases hexec
      exact emitted_of_write s w
  | handler h =>
      cases hexec
      obtain ⟨_, _, _, _, _, _, heq⟩ := handler_frame s h
      rw [heq]
      exact (List.append_nil _).symm
  | eventLoop l =>
      obtain ⟨_, _, _, _, _, _, _, _, _, _, _, _, heq, _, _⟩ := loop_frame hexec
      rw [heq]
      exact (List.append_nil _).symm
  | call c =>
      cases hexec
      obtain ⟨_, _, _, _, _, _, _, _, heq, _, _⟩ := call_frame s c
      rw [heq]
      exact (List.append_nil _).symm
  | task t =>
      obtain ⟨_, _, _, _, heq⟩ := task_frame hexec
      rw [heq]
      exact (List.append_nil _).symm

/-! ### Steps -/

/-- What is emitted after a step was emitted before, or the step's statement leads to it. -/
theorem emits_of_step {P P' : Machine} {label : NativeLabel} (h : native.next label P = some P')
    {a : TsEvent × Origin} (ha : Emitted P' a) :
    Emitted P a ∨ ∃ i choice th st rest, label = .run i choice ∧ P.threads[i]? = some th ∧
      th.prog = st :: rest ∧ Emits P.shared st a := by
  cases label with
  | run i choice =>
      obtain ⟨th, st, rest, out, hth, hprog, hexec, rfl⟩ := Pool.next_run h
      have hmem : th ∈ P.threads := List.mem_of_getElem? hth
      -- It was pushed before, or it is still in the program of a thread.
      rcases ha with hshared | ⟨t, ht, k, hk, hka⟩
      · dsimp only at hshared
        rw [emitted_of_exec hexec] at hshared
        rcases List.mem_append.mp hshared with hold | hnew
        · exact .inl (.inl hold)
        · refine .inl (.inr ⟨th, hmem, st, ?_, Option.mem_toList.mp hnew⟩)
          rw [hprog]
          exact List.mem_cons_self
      · rcases Pool.mem_set_append ht with hold | rfl | hnew
        · exact .inl (.inr ⟨t, hold, k, hk, hka⟩)
        · rcases List.mem_append.mp hk with hfront | hrest
          · exact .inr ⟨i, choice, th, st, rest, rfl, hth, hprog, emits_of_front hexec hfront hka⟩
          · refine .inl (.inr ⟨th, hmem, k, ?_, hka⟩)
            rw [hprog]
            exact .tail _ hrest
        · rw [not_emission_of_spawn hexec t hnew k hk] at hka
          cases hka
  | env event =>
      obtain ⟨s, spawn, henv, rfl⟩ := Pool.next_env h
      have hnone : s.history.emitted = P.shared.history.emitted ∧
          ∀ t ∈ spawn, ∀ k ∈ t.prog, emission k = none := by
        rcases happening_cases henv with ⟨c, _, rfl, rfl⟩ | ⟨_, _, rfl, rfl⟩ | ⟨_, _, _, rfl, rfl⟩
        · constructor
          · unfold Shared.noteRequest
            split <;> rfl
          · intro t ht k hk
            obtain rfl := List.mem_singleton.mp ht
            cases c <;> simp only [Call.program] at hk
            all_goals try split at hk
            all_goals simp only [List.mem_cons, List.not_mem_nil, or_false] at hk
            all_goals
              repeat' rcases hk with rfl | hk
              all_goals rfl
        · exact ⟨rfl, fun t ht => absurd ht List.not_mem_nil⟩
        · exact ⟨rfl, fun t ht => absurd ht List.not_mem_nil⟩
      rcases ha with hshared | ⟨t, ht, k, hk, hka⟩
      · dsimp only at hshared
        rw [hnone.1] at hshared
        exact .inl (.inl hshared)
      · rcases List.mem_append.mp ht with hold | hnew
        · exact .inl (.inr ⟨t, hold, k, hk, hka⟩)
        · rw [hnone.2 t hnew k hk] at hka
          cases hka

end Nek0.Proofs.Native
