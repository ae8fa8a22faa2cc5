import Nek0.Native.Machine

/-!
# `Nek0.Proofs.Native.Frames`: what a statement leaves alone

One equation for each kind of statement names the fields of the shared state that the statement can
change. Everything else follows by rewriting with the equation. A write is its own equation:
`Write.apply` computes.
-/

set_option autoImplicit false

namespace Nek0.Proofs.Native

open Nek0.Lib
open Nek0.Native

/-- A progress event, or none. -/
theorem maybePublishFtProgress_frame (s : Shared) (taskId : TaskId) (force : Bool) :
    ∃ ftTasks events, s.maybePublishFtProgress taskId force =
        { s with ftTasks := ftTasks, pendingEvents := s.pendingEvents ++ events } ∧
      ∀ e ∈ events, ∃ done, e = .ftProgress taskId done := by
  unfold Shared.maybePublishFtProgress
  split
  · exact ⟨s.ftTasks, [], by simp, by simp⟩
  · rename_i task _
    split
    · exact ⟨_, [.ftProgress taskId task.done], rfl, by simp⟩
    · exact ⟨s.ftTasks, [], by simp, by simp⟩

/-- The progress of a download touches the tasks and appends events. -/
theorem downloadProgress_frame (s : Shared) (taskId : TaskId) (done : UInt64) :
    ∃ ftTasks events, (Write.downloadProgress taskId done).apply s =
        { s with ftTasks := ftTasks, pendingEvents := s.pendingEvents ++ events } ∧
      ∀ e ∈ events, ∃ done, e = .ftProgress taskId done := by
  obtain ⟨ftTasks, events, heq, hevents⟩ := maybePublishFtProgress_frame { s with
    ftTasks := Table.modify taskId (fun t => { t with done := done }) s.ftTasks } taskId false
  exact ⟨ftTasks, events, heq, hevents⟩

/-- So does the progress of an upload. -/
theorem uploadProgress_frame (s : Shared) (taskId : TaskId) (n : UInt64) :
    ∃ ftTasks events, (Write.uploadProgress taskId n).apply s =
        { s with ftTasks := ftTasks, pendingEvents := s.pendingEvents ++ events } ∧
      ∀ e ∈ events, ∃ done, e = .ftProgress taskId done := by
  obtain ⟨ftTasks, events, heq, hevents⟩ := maybePublishFtProgress_frame { s with
    ftTasks := Table.modify taskId (fun t => { t with done := t.done + n }) s.ftTasks } taskId false
  exact ⟨ftTasks, events, heq, hevents⟩

/-- A write leaves the generation, the numbering and the clock alone. -/
theorem write_frame (s : Shared) (w : Write) :
    (w.apply s).connectionGeneration = s.connectionGeneration ∧
      (w.apply s).ftTaskSeq = s.ftTaskSeq ∧ (w.apply s).ftClientFt = s.ftClientFt ∧
      (w.apply s).now = s.now := by
  cases w with
  | downloadProgress taskId done =>
      obtain ⟨_, _, heq, _⟩ := downloadProgress_frame s taskId done
      rw [heq]
      exact ⟨rfl, rfl, rfl, rfl⟩
  | uploadProgress taskId n =>
      obtain ⟨_, _, heq, _⟩ := uploadProgress_frame s taskId n
      rw [heq]
      exact ⟨rfl, rfl, rfl, rfl⟩
  | _ =>
      dsimp only [Write.apply]
      repeat' split
      all_goals exact ⟨rfl, rfl, rfl, rfl⟩

/-- A handler statement changes the pending operations, the pending move and the tasks. -/
theorem handler_frame (s : Shared) (h : HandlerStmt) :
    ∃ permOps ftOps ftTaskByRc ftLists pendingMove ftTasks, (h.exec s).shared =
      { s with
          permOps := permOps
          ftOps := ftOps
          ftTaskByRc := ftTaskByRc
          ftLists := ftLists
          pendingMove := pendingMove
          ftTasks := ftTasks } := by
  cases h <;> simp only [HandlerStmt.exec]
  all_goals repeat' split
  all_goals exact ⟨_, _, _, _, _, _, rfl⟩

/-- A send changes the connection and the record of the sends. -/
theorem sendWithResult_frame (s : Shared) (con : Nat) (reply : Reply) (failure : Option String) :
    ∃ conns sends moves, (s.sendWithResult con reply failure).shared =
      { s with conns := conns, history := { s.history with sends := sends, moves := moves } } := by
  simp only [Shared.sendWithResult]
  repeat' split
  all_goals exact ⟨_, _, _, rfl⟩

/-- Only progress events were added. -/
def AddsProgress (before after : List TsEvent) : Prop :=
  ∃ events, after = before ++ events ∧ ∀ e ∈ events, ∃ taskId done, e = .ftProgress taskId done

theorem addsProgress_refl (events : List TsEvent) : AddsProgress events events :=
  ⟨[], (List.append_nil _).symm, by simp⟩

/-- A statement of the event loop changes what the loop owns, the stash, the own id, the
numbering of the transfers and the progress of a task. -/
theorem loop_frame {choice : Choice} {s : Shared} {l : LoopStmt} {out : NativeOutcome}
    (hexec : l.exec choice s = some out) :
    ∃ connectionStash ownClientId ftClientFt ftTasks pendingEvents queues conns userExits sends
      moves yielded passed, out.shared =
        { s with
            connectionStash := connectionStash
            ownClientId := ownClientId
            ftClientFt := ftClientFt
            ftTasks := ftTasks
            pendingEvents := pendingEvents
            queues := queues
            conns := conns
            history := { s.history with
              userExits := userExits
              sends := sends
              moves := moves
              yielded := yielded
              passed := passed } } ∧
        AddsProgress s.pendingEvents pendingEvents ∧
        (connectionStash = s.connectionStash ∨ ∃ g, l = .takeStash g) := by
  cases l with
  | ownClient sess c =>
      cases hexec
      refine ⟨s.connectionStash, (s.ownClientIdOrCache sess.con).1.ownClientId, s.ftClientFt,
        s.ftTasks, s.pendingEvents, s.queues, s.conns, s.history.userExits, s.history.sends,
        s.history.moves, s.history.yielded, s.history.passed, ?_, addsProgress_refl _, .inl rfl⟩
      simp only [Shared.ownClientIdOrCache]
      repeat' split
      all_goals rfl
  | sendWithResult sess reply =>
      -- Of a sent command only the connection and the history of the sends remain.
      have hframe := fun failure => sendWithResult_frame s sess.con reply failure
      dsimp only [LoopStmt.exec] at hexec
      split at hexec
      all_goals
        cases hexec
        obtain ⟨_, _, _, heq⟩ := hframe _
        exact ⟨_, _, _, _, _, _, _, _, _, _, _, _, heq, addsProgress_refl _, .inl rfl⟩
  -- A download that starts can report its progress.
  | startDownload sess ended taskId total =>
      dsimp only [LoopStmt.exec] at hexec
      split at hexec
      · cases hexec
        obtain ⟨ftTasks, events, heq, hevents⟩ := maybePublishFtProgress_frame s taskId true
        refine ⟨_, _, _, ftTasks, _, _, _, _, _, _, _, _, heq, ⟨events, rfl, ?_⟩, .inl rfl⟩
        intro e he
        exact ⟨taskId, hevents e he⟩
      · cases hexec
        exact ⟨_, _, _, _, _, _, _, _, _, _, _, _, rfl, addsProgress_refl _, .inl rfl⟩
  -- Only this statement takes the stash.
  | takeStash g =>
      dsimp only [LoopStmt.exec] at hexec
      split at hexec <;> cases hexec
      all_goals
        exact ⟨_, _, _, _, _, _, _, _, _, _, _, _, rfl, addsProgress_refl _, .inr ⟨g, rfl⟩⟩
  | _ =>
      dsimp only [LoopStmt.exec] at hexec
      repeat' split at hexec
      all_goals cases hexec
      all_goals exact ⟨_, _, _, _, _, _, _, _, _, _, _, _, rfl, addsProgress_refl _, .inl rfl⟩

/-- A send appends the command to the queue of `COMMAND_TX`, or it does nothing. -/
theorem trySend_frame (s : Shared) (c : Command) :
    ((s.trySend c).1 = s ∧ (s.trySend c).2 = false) ∨
      ∃ g, s.commandTx = some g ∧ (s.queues g).receiving = true ∧ (s.trySend c).2 = true ∧
        (s.trySend c).1 =
          s.setQueue g { s.queues g with commands := (s.queues g).commands ++ [c] } := by
  unfold Shared.trySend
  split
  · exact .inl ⟨rfl, rfl⟩
  · rename_i g _
    dsimp only
    split
    · exact .inr ⟨g, by assumption, by assumption, rfl, rfl⟩
    · exact .inl ⟨rfl, rfl⟩

/-- The queues after an update of one. -/
theorem queues_setQueue (s : Shared) (g g' : Nat) (q : CommandQueue) :
    (s.setQueue g q).queues g' = if g' = g then q else s.queues g' :=
  Function.update_apply s.queues g q g'

/-- The connection after its update. -/
@[simp] theorem conns_setConn_self (s : Shared) (con : Nat) (c : Conn) :
    (s.setConn con c).conns con = c := by
  simp only [Shared.setConn, Function.update_self]

@[simp] theorem conns_recordYield (s : Shared) (con : Nat) (it : StreamItem) :
    (s.recordYield con it).conns = s.conns := rfl

@[simp] theorem conns_recordPassed (s : Shared) (con : Nat) (it : StreamItem) :
    (s.recordPassed con it).conns = s.conns := rfl

/-- The queued events are discarded, or they stay. -/
def Discards (before after : Shared) : Prop :=
  (after.pendingEvents = before.pendingEvents ∧
      after.history.discarded = before.history.discarded) ∨
    (after.pendingEvents = [] ∧
      after.history.discarded = before.history.discarded ++ before.pendingEvents)

/-- A call statement changes what `ts_connect` accepts, the queues, the stash and the numbering of
the tasks. It discards the queued events, or leaves them. -/
theorem call_frame (s : Shared) (c : CallStmt) :
    ∃ connecting pendingEvents connectionStash ftTaskSeq queues attempts taskIds discarded,
      (c.exec s).shared =
        { s with
            connecting := connecting
            pendingEvents := pendingEvents
            connectionStash := connectionStash
            ftTaskSeq := ftTaskSeq
            queues := queues
            history := { s.history with
              attempts := attempts
              taskIds := taskIds
              discarded := discarded } } ∧
        Discards s (c.exec s).shared ∧
        (connectionStash = s.connectionStash ∨ c = .disconnectStashed) := by
  -- A send only adds to a queue.
  have hsend : ∀ cmd, ∃ queues, (s.trySend cmd).1 = { s with queues := queues } := by
    intro cmd
    rcases trySend_frame s cmd with ⟨heq, _⟩ | ⟨g, _, _, _, heq⟩
    · exact ⟨s.queues, heq⟩
    · exact ⟨_, heq⟩
  cases c with
  -- A connection that is accepted discards the events that wait.
  | connect =>
      dsimp only [CallStmt.exec]
      split
      · exact ⟨_, _, _, _, _, _, _, _, rfl, .inl ⟨rfl, rfl⟩, .inl rfl⟩
      · exact ⟨_, _, _, _, _, _, _, _, rfl, .inr ⟨rfl, rfl⟩, .inl rfl⟩
  | sendDisconnect =>
      obtain ⟨_, heq⟩ := hsend .disconnect
      dsimp only [CallStmt.exec]
      exact ⟨_, _, _, _, _, _, _, _, heq, .inl ⟨by rw [heq], by rw [heq]⟩, .inl rfl⟩
  | sendCommand cmd =>
      obtain ⟨_, heq⟩ := hsend cmd
      dsimp only [CallStmt.exec]
      exact ⟨_, _, _, _, _, _, _, _, heq, .inl ⟨by rw [heq], by rw [heq]⟩, .inl rfl⟩
  | sendTransfer taskId t =>
      obtain ⟨_, heq⟩ := hsend (t.command taskId)
      dsimp only [CallStmt.exec]
      exact ⟨_, _, _, _, _, _, _, _, heq, .inl ⟨by rw [heq], by rw [heq]⟩, .inl rfl⟩
  -- Besides the loop only this call takes the stash.
  | disconnectStashed =>
      dsimp only [CallStmt.exec]
      split
      all_goals exact ⟨_, _, _, _, _, _, _, _, rfl, .inl ⟨rfl, rfl⟩, .inr rfl⟩
  | _ =>
      dsimp only [CallStmt.exec]
      exact ⟨_, _, _, _, _, _, _, _, rfl, .inl ⟨rfl, rfl⟩, .inl rfl⟩

/-- A task statement changes a connection, the generation and its queue, or the listings. -/
theorem task_frame {choice : Choice} {s : Shared} {t : TaskStmt} {out : NativeOutcome}
    (hexec : t.exec choice s = some out) :
    ∃ connectionGeneration ftLists queues conns, out.shared =
      { s with
          connectionGeneration := connectionGeneration
          ftLists := ftLists
          queues := queues
          conns := conns } := by
  cases t
  all_goals
    dsimp only [TaskStmt.exec] at hexec
    repeat' split at hexec
    all_goals cases hexec
    all_goals exact ⟨_, _, _, _, rfl⟩

/-! ### Counting events -/

section
variable (p : TsEvent → Bool)

/-- How many events that satisfy `p` were pushed: they are queued, returned or discarded. -/
def eventCount (s : Shared) : Nat :=
  s.pendingEvents.countP p + s.history.returned.countP p + s.history.discarded.countP p

/-- The events that satisfy `p` and that a statement pushes as such. -/
def pushes : Stmt → Nat
  | .write (.push e _) => if p e then 1 else 0
  | .write (.endSession reason) => if p (.disconnected reason) then 1 else 0
  | _ => 0

end

/-- The events that are pushed together with a change of the state. -/
def isNotice : TsEvent → Bool
  | .connected _ _ => true
  | .channelsUpdated => true
  | .error _ => true
  | .ftStarted _ _ _ _ => true
  | .ftProgress _ _ => true
  | _ => false

/-- Progress events are not counted. -/
theorem AddsProgress.countP {p : TsEvent → Bool} (hp : ∀ e, isNotice e = true → p e = false)
    {before after : List TsEvent} (h : AddsProgress before after) :
    after.countP p = before.countP p := by
  obtain ⟨events, rfl, hevents⟩ := h
  rw [List.countP_append, Nat.add_eq_left, List.countP_eq_zero]
  intro e he
  obtain ⟨_, _, rfl⟩ := hevents e he
  simp [hp (.ftProgress _ _) rfl]

/-- A write adds the event that it pushes. -/
theorem eventCount_of_write {p : TsEvent → Bool} (hp : ∀ e, isNotice e = true → p e = false)
    (s : Shared) (w : Write) :
    eventCount p (w.apply s) = eventCount p s + pushes p (.write w) := by
  have hconnected : ∀ serverName id, p (.connected serverName id) = false := fun _ _ => hp _ rfl
  have hchannels : p .channelsUpdated = false := hp _ rfl
  have herror : ∀ message, p (.error message) = false := fun _ => hp _ rfl
  have hstarted : ∀ id kind name total, p (.ftStarted id kind name total) = false :=
    fun _ _ _ _ => hp _ rfl
  cases w with
  | downloadProgress taskId done =>
      obtain ⟨_, events, heq, hevents⟩ := downloadProgress_frame s taskId done
      have hadds : AddsProgress s.pendingEvents (s.pendingEvents ++ events) :=
        ⟨events, rfl, fun e he => ⟨taskId, hevents e he⟩⟩
      simp only [heq, eventCount, hadds.countP hp]
      rfl
  | uploadProgress taskId n =>
      obtain ⟨_, events, heq, hevents⟩ := uploadProgress_frame s taskId n
      have hadds : AddsProgress s.pendingEvents (s.pendingEvents ++ events) :=
        ⟨events, rfl, fun e he => ⟨taskId, hevents e he⟩⟩
      simp only [heq, eventCount, hadds.countP hp]
      rfl
  | push e origin =>
      cases origin <;>
        simp [Write.apply, Shared.pushEvent, eventCount, pushes, List.countP_cons] <;> omega
  | pollEvents =>
      simp [Write.apply, eventCount, pushes]
      omega
  | _ =>
      dsimp only [Write.apply]
      repeat' split
      all_goals
        simp [Shared.pushEvent, eventCount, pushes, Shared.setQueue, Shared.setConn,
          List.countP_cons, hconnected, hchannels, herror, hstarted]
      all_goals omega

/-- A statement adds the event that it pushes. -/
theorem eventCount_of_exec {p : TsEvent → Bool} (hp : ∀ e, isNotice e = true → p e = false)
    {choice : Choice} {s : Shared} {st : Stmt} {out : NativeOutcome}
    (hexec : st.exec choice s = some out) :
    eventCount p out.shared = eventCount p s + pushes p st := by
  cases st with
  | write w =>
      cases hexec
      exact eventCount_of_write hp s w
  | handler h =>
      cases hexec
      obtain ⟨_, _, _, _, _, _, heq⟩ := handler_frame s h
      simp only [heq, eventCount, pushes, Nat.add_zero]
  | eventLoop l =>
      obtain ⟨_, _, _, _, _, _, _, _, _, _, _, _, heq, hadds, _⟩ := loop_frame hexec
      simp only [heq, eventCount, pushes, Nat.add_zero, hadds.countP hp]
  | call c =>
      cases hexec
      obtain ⟨_, _, _, _, _, _, _, _, heq, hdiscards, _⟩ := call_frame s c
      have hreturned : (c.exec s).shared.history.returned = s.history.returned := by
        rw [heq]
      simp only [eventCount, pushes, Nat.add_zero, hreturned]
      rcases hdiscards with ⟨hpending, hdiscarded⟩ | ⟨hpending, hdiscarded⟩
      · rw [hpending, hdiscarded]
      · rw [hpending, hdiscarded, List.countP_append, List.countP_nil]
        omega
  | task t =>
      obtain ⟨_, _, _, _, heq⟩ := task_frame hexec
      simp only [heq, eventCount, pushes, Nat.add_zero]

end Nek0.Proofs.Native
