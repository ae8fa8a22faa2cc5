import Nek0.Proofs.Native.Sessions

/-!
# `Nek0.Proofs.Native.ConnectionLoss`: the pending operations at a loss

`Handles` says that the event loop handles a loss of the connection between two states, while the
other threads go on: a temporary disconnect, or the end of the session. `lost` are the operations
that were waiting for an answer. `Answered` says what the loss must do: each of them gets exactly
one failure event, and the tables are empty afterwards.

`answersLoss` is the condition under which this is so (`answered_of_run`). At a temporary
disconnect only `PERM_OPS` may have entries, at the end of a session no table may, and no command
with a token may be dropped with its queue. The code answers the tokens of `PERM_OPS` at a temporary
disconnect. It drops all others without an event, and it never clears `FT_TASK_BY_RC`.
-/

set_option autoImplicit false

namespace Nek0.Proofs.Native

open Nek0.Lib
open Nek0.Native

/-! ### Operations that wait for an answer -/

/-- An operation that waits for an event with its token. -/
inductive Waiting where
  | permOp (token : String)
  | ftOp (token : String)
  | ftListing (token : String)
  deriving DecidableEq, Repr

/-- The event tells that the operation has failed. -/
def Waiting.failedBy : Waiting → TsEvent → Bool
  | .permOp token, .permOp t ok _ => t == token && !ok
  | .ftOp token, .ftOp t ok _ => t == token && !ok
  | .ftListing token, .ftListing t _ error => t == token && error.isSome
  | _, _ => false

/-- The operations in the tables. -/
def registered (s : Shared) : List Waiting :=
  (Table.values s.permOps).map (fun op => .permOp op.value) ++
    (Table.values s.ftOps).map (fun op => .ftOp op.value) ++
    (Table.values s.ftLists).map (fun p => .ftListing p.token)

/-- The operation that a command asks for, if it has a token. -/
def waitingFor : Command → Option Waiting
  | .moveChannel _ _ _ token => token.map .permOp
  | .kickClient _ _ _ token => token.map .permOp
  | .banClient _ _ _ token => token.map .permOp
  | .serverGroupAddClient _ _ token => some (.permOp token)
  | .serverGroupDelClient _ _ token => some (.permOp token)
  | .channelGroupSet _ _ _ token => some (.permOp token)
  | .channelGroupClear _ _ token => some (.permOp token)
  | .grantChannelPerm _ _ _ _ token => some (.permOp token)
  | .revokeChannelPerm _ _ _ token => some (.permOp token)
  | .grantServerPerm _ _ _ token => some (.permOp token)
  | .revokeServerPerm _ _ token => some (.permOp token)
  | .ftList _ _ _ token => some (.ftListing token)
  | .ftCreateDir _ _ _ token => some (.ftOp token)
  | .ftDelete _ _ _ token => some (.ftOp token)
  | _ => none

/-- The operations in the queue of generation `g`. -/
def queued (s : Shared) (g : Nat) : List Waiting := (s.queues g).commands.filterMap waitingFor

/-- Between `s` and `s'` each lost operation has got exactly one failure event, and in `s'` nothing
is pending any more. -/
structure Answered (lost : List Waiting) (s s' : Shared) : Prop where
  failures : ∀ w ∈ lost, eventCount w.failedBy s' = eventCount w.failedBy s + lost.count w
  ftLists : s'.ftLists = ∅
  ftOps : s'.ftOps = ∅
  permOps : s'.permOps = ∅
  ftTaskByRc : s'.ftTaskByRc = ∅

/-- From `P` to `P'` thread `i` handles a loss, with the other threads in between. -/
inductive Handles (ok : Machine → NativeLabel → Prop) (i : Nat) :
    List Waiting → Machine → Machine → Prop
  | temporary {P P₁ P' : Machine} {g : Nat} {sess : Session} {ended : Bool} {reason : String}
      {items : List StreamItem} {rest : List Stmt} {choice : Choice} :
      P.threads[i]? = some ⟨.eventLoop g, .eventLoop (.handle sess ended) :: rest⟩ →
      (P.shared.conns sess.con).handling = .disconnectedTemporarily reason :: items →
      ok P (.run i choice) → Pool.next nativeLanguage (.run i choice) P = some P₁ →
      Pool.Amid nativeLanguage ok i (itemProgram sess.con (.disconnectedTemporarily reason))
        P₁ P' →
      Handles ok i (registered P.shared) P P'
  | sessionEnd {P P₁ P' : Machine} {g : Nat} {sess : Session} {way : ExitWay} {rest : List Stmt}
      {choice : Choice} :
      P.threads[i]? = some ⟨.eventLoop g, .eventLoop (.guardExit sess way) :: rest⟩ →
      ok P (.run i choice) → Pool.next nativeLanguage (.run i choice) P = some P₁ →
      Pool.Amid nativeLanguage ok i (exitProgram P.shared sess way) P₁ P' →
      Handles ok i (registered P.shared ++ queued P.shared sess.generation) P P'

/-- The condition under which a loss answers everything. -/
def answersLoss (P : Machine) (st : Stmt) : Bool :=
  sequential P st &&
    match st with
    | .eventLoop (.handle sess _) =>
        match (P.shared.conns sess.con).handling with
        | .disconnectedTemporarily _ :: _ =>
            Table.isEmpty P.shared.ftLists && Table.isEmpty P.shared.ftOps &&
              Table.isEmpty P.shared.ftTaskByRc
        | _ => true
    | .eventLoop (.guardExit _ _) =>
        Table.isEmpty P.shared.ftLists && Table.isEmpty P.shared.ftOps &&
          Table.isEmpty P.shared.permOps && Table.isEmpty P.shared.ftTaskByRc
    | .write (.dropReceiver g) => (queued P.shared g).isEmpty
    | _ => true

theorem not_notice_of_failedBy (w : Waiting) (e : TsEvent) (h : isNotice e = true) :
    w.failedBy e = false := by
  cases w <;> cases e <;> first | rfl | cases h

/-! ### What the other threads do meanwhile -/

/-- A step that touches no table but `FT_LISTS`, answers no permission operation, and takes
nothing from the queue of generation `g`. -/
structure Quiet (g : Nat) (s s' : Shared) : Prop where
  permOps : s'.permOps = s.permOps
  ftOps : s'.ftOps = s.ftOps
  ftTaskByRc : s'.ftTaskByRc = s.ftTaskByRc
  ftLists : s.ftLists = ∅ → s'.ftLists = ∅
  failures : ∀ token, eventCount (Waiting.permOp token).failedBy s' =
    eventCount (Waiting.permOp token).failedBy s
  queued : ∀ w ∈ queued s g, w ∈ queued s' g

/-- The writes that touch these tables, answer a permission operation or drop a queue. -/
def disturbs : Write → Bool
  | .clearFtOps => true
  | .clearPermOps => true
  | .insertPermOp _ _ _ => true
  | .insertFtOp _ _ _ => true
  | .insertFtTaskByRc _ _ _ => true
  | .insertFtList _ _ _ _ _ => true
  | .push (.permOp _ _ _) _ => true
  | .dropReceiver _ => true
  | _ => false

/-- A write that does not disturb answers no operation. -/
theorem pushes_of_not_disturbs {w : Write} (hw : disturbs w = false) (token : String) :
    pushes (Waiting.permOp token).failedBy (.write w) = 0 := by
  cases w with
  | push e origin => cases e <;> first | rfl | cases hw
  | _ => rfl

/-- Any other write is quiet. -/
theorem quiet_of_write (g : Nat) (s : Shared) {w : Write} (hw : disturbs w = false) :
    Quiet g s (w.apply s) := by
  have hfailures : ∀ token, eventCount (Waiting.permOp token).failedBy (w.apply s) =
      eventCount (Waiting.permOp token).failedBy s := by
    intro token
    rw [eventCount_of_write (not_notice_of_failedBy _), pushes_of_not_disturbs hw, Nat.add_zero]
  cases w with
  | downloadProgress taskId done =>
      obtain ⟨_, _, heq, _⟩ := downloadProgress_frame s taskId done
      refine ⟨?_, ?_, ?_, ?_, hfailures, ?_⟩
      all_goals simp [heq, queued]
  | uploadProgress taskId n =>
      obtain ⟨_, _, heq, _⟩ := uploadProgress_frame s taskId n
      refine ⟨?_, ?_, ?_, ?_, hfailures, ?_⟩
      all_goals simp [heq, queued]
  | addListRows code rows sid =>
      refine ⟨rfl, rfl, rfl, ?_, hfailures, fun _ h => h⟩
      intro hempty
      simp [Write.apply, hempty]
  | clearFtLists => exact ⟨rfl, rfl, rfl, fun _ => rfl, hfailures, fun _ h => h⟩
  | _ =>
      first
        | exact Bool.noConfusion hw
        | refine ⟨?_, ?_, ?_, ?_, hfailures, ?_⟩
      all_goals
        dsimp only [Write.apply]
        repeat' split
        all_goals first
          | rfl
          | exact fun h => h
          | exact fun _ h => h

/-- Queueing a command loses none. -/
theorem queued_of_trySend (s : Shared) (c : Command) (g : Nat) :
    ∀ w ∈ queued s g, w ∈ queued (s.trySend c).1 g := by
  intro w hw
  rcases trySend_frame s c with ⟨heq, _⟩ | ⟨g', _, _, _, heq⟩
  · rw [heq]
    exact hw
  · rw [heq, queued, queues_setQueue]
    split
    · rename_i hg
      subst hg
      rw [List.filterMap_append]
      exact List.mem_append_left _ hw
    · exact hw

/-- A call is quiet. -/
theorem quiet_of_call (g : Nat) (s : Shared) (c : CallStmt) : Quiet g s (c.exec s).shared := by
  obtain ⟨_, _, _, _, _, _, _, _, heq, _⟩ := call_frame s c
  refine ⟨by rw [heq], by rw [heq], by rw [heq], by rw [heq]; exact fun h => h, ?_, ?_⟩
  · intro token
    have hexec : (Stmt.call c).exec .go s = some (c.exec s) := rfl
    exact eventCount_of_exec (not_notice_of_failedBy _) hexec
  · cases c with
    | sendDisconnect => exact queued_of_trySend s _ g
    | sendCommand c => exact queued_of_trySend s _ g
    | sendTransfer taskId t => exact queued_of_trySend s _ g
    | _ =>
        dsimp only [CallStmt.exec]
        repeat' split
        all_goals exact fun _ h => h

/-- `finish_ft_task` is quiet. -/
theorem quiet_of_finishFtTask (g : Nat) (s : Shared) (taskId : TaskId) (ok : Bool)
    (error : Option String) (origin : Option Origin) :
    Quiet g s ((HandlerStmt.finishFtTask taskId ok error origin).exec s).shared := by
  dsimp only [HandlerStmt.exec]
  split <;> exact ⟨rfl, rfl, rfl, fun h => h, fun _ => rfl, fun _ h => h⟩

/-- A task statement other than the advance is quiet. -/
theorem quiet_of_task (g : Nat) {choice : Choice} {s : Shared} {t : TaskStmt}
    {out : NativeOutcome} (hexec : t.exec choice s = some out)
    (ht : ∀ attempt serverName, t ≠ .advanceGeneration attempt serverName) :
    Quiet g s out.shared := by
  cases t with
  | advanceGeneration attempt serverName => exact absurd rfl (ht attempt serverName)
  | finalizeFtList code timer =>
      dsimp only [TaskStmt.exec] at hexec
      split at hexec <;> cases hexec
      · exact ⟨rfl, rfl, rfl, fun h => h, fun _ => rfl, fun _ h => h⟩
      · refine ⟨rfl, rfl, rfl, ?_, fun _ => rfl, fun _ h => h⟩
        intro hempty
        simp [hempty]
  | _ =>
      dsimp only [TaskStmt.exec] at hexec
      repeat' split at hexec
      all_goals cases hexec
      all_goals exact ⟨rfl, rfl, rfl, fun h => h, fun _ => rfl, fun _ h => h⟩

/-- Beside the loop only a dropped receiver touches what waits. -/
theorem disturbs_of_aside {w : Write} (h : Aside (.write w)) :
    disturbs w = false ∨ ∃ g, w = .dropReceiver g := by
  cases h with
  | calls hst =>
      cases w with
      | push e origin => cases e <;> first | exact .inl rfl | exact hst.elim
      | _ => first | exact .inl rfl | exact hst.elim
  | works hst =>
      cases w with
      | push e origin => cases e <;> first | exact .inl rfl | exact hst.elim
      | _ => first | exact .inl rfl | exact hst.elim
  | finalizes hst =>
      cases w with
      | push e origin => cases e <;> first | exact .inl rfl | exact hst.elim
      | _ => exact hst.elim
  | connecting hst => cases hst <;> exact .inl rfl
  | spent hst => cases w <;> first | exact .inl rfl | exact .inr ⟨_, rfl⟩ | cases hst

/-- The statements of threads that do not work on a session are quiet, but for a drop of the
queue. -/
theorem quiet_of_aside {g : Nat} {choice : Choice} {s : Shared} {st : Stmt} {out : NativeOutcome}
    (hexec : st.exec choice s = some out) (haside : Aside st)
    (hst : ∀ attempt serverName, st ≠ .task (.advanceGeneration attempt serverName))
    (hdrop : ∀ g', st = .write (.dropReceiver g') → queued s g' = []) : Quiet g s out.shared := by
  cases st with
  | task t => exact quiet_of_task g hexec (fun a n h => hst a n (by rw [h]))
  | call c =>
      cases hexec
      exact quiet_of_call g s c
  | handler h =>
      cases hexec
      -- The only handler that such a thread runs ends a transfer.
      have hfinish : ∃ taskId ok error origin, h = .finishFtTask taskId ok error origin := by
        cases haside with
        | calls hst => cases h <;> first | exact ⟨_, _, _, _, rfl⟩ | exact hst.elim
        | works hst => cases h <;> first | exact ⟨_, _, _, _, rfl⟩ | exact hst.elim
        | finalizes hst => exact hst.elim
        | connecting hst => cases hst
        | spent hst => cases hst
      obtain ⟨taskId, ok, error, origin, rfl⟩ := hfinish
      exact quiet_of_finishFtTask g s taskId ok error origin
  | eventLoop l =>
      cases haside with
      | calls hst => exact hst.elim
      | works hst => exact hst.elim
      | finalizes hst => exact hst.elim
      | connecting hst => cases hst
      | spent hst => cases hst
  | write w =>
      cases hexec
      by_cases hw : disturbs w = false
      · exact quiet_of_write g s hw
      · -- Only a drop of the queue is left.
        obtain ⟨g', rfl⟩ := (disturbs_of_aside haside).resolve_left hw
        have hnone := hdrop g' rfl
        refine ⟨rfl, rfl, rfl, fun h => h, fun _ => rfl, ?_⟩
        intro k hk
        by_cases hg : g = g'
        · subst hg
          rw [hnone] at hk
          cases hk
        · simpa only [queued, Write.apply, Shared.setQueue, Function.update_of_ne hg] using hk

/-- While thread `i` works on a session, the steps of the others are quiet. -/
theorem quiet_of_other {g i : Nat} {P P' : Machine} {t : NativeThread} {label : NativeLabel}
    (hrun : RunUnder (fun P _ => answersLoss P) P) (hth : P.threads[i]? = some t)
    (hw : working t = true) (hne : ∀ choice, label ≠ .run i choice)
    (hok : Pool.checks (fun P _ => answersLoss P) P label = true)
    (hnext : Pool.next nativeLanguage label P = some P') : Quiet g P.shared P'.shared := by
  cases label with
  | run j choice =>
      obtain ⟨u, st, rest, out, hu, hprog, hexec, rfl⟩ := Pool.next_run hnext
      have hji : j ≠ i := by
        rintro rfl
        exact hne choice rfl
      have hsolo := solo_of_run (fun _ _ _ h => (Bool.and_eq_true_iff.mp h).1) hrun
      have hidle := idle_of_working hsolo hji hth hu hw
      have hu' : u = ⟨u.owner, st :: rest⟩ := by rw [← hprog]
      have hshaped := shaped_of_run hrun u (List.mem_of_getElem? hu)
      have hcond : answersLoss P st = true := Pool.cond_of_checks hok hu hprog
      rw [hu'] at hidle hshaped
      refine quiet_of_aside hexec (aside_of_idle hshaped hidle) ?_ ?_
      · rintro attempt serverName rfl
        have hall : ∀ v ∈ P.threads, working v = false := by
          simpa [answersLoss, sequential] using hcond
        rw [hall t (List.mem_of_getElem? hth)] at hw
        cases hw
      · rintro g' rfl
        simpa [answersLoss, sequential] using hcond
  | env event =>
      obtain ⟨s, spawn, henv, rfl⟩ := Pool.next_env hnext
      rcases happening_cases henv with ⟨c, _, rfl, _⟩ | ⟨_, _, rfl, _⟩ | ⟨_, _, _, rfl, _⟩
      · unfold Shared.noteRequest
        split <;> exact ⟨rfl, rfl, rfl, fun h => h, fun _ => rfl, fun _ h => h⟩
      · exact ⟨rfl, rfl, rfl, fun h => h, fun _ => rfl, fun _ h => h⟩
      · exact ⟨rfl, rfl, rfl, fun h => h, fun _ => rfl, fun _ h => h⟩

/-! ### A temporary disconnect -/

/-- The answer that `drainPermOps` gives to a permission operation. -/
def failPermOp (op : Awaiting String) : Stmt :=
  .write (.push (.permOp op.value false (some "connection lost")) none)

/-- How often a token is among the operations. -/
def tokenCount (token : String) (ops : List (Awaiting String)) : Nat :=
  (ops.map (·.value)).count token

/-- The permission operations `lost` are still in the table, or what is left to push answers
them. -/
inductive Draining (lost : List (Awaiting String)) (before s : Shared) : List Stmt → Prop
  | registered (con : Nat) (reason : String) {prog : List Stmt} :
      prog <:+ itemProgram con (.disconnectedTemporarily reason) →
      .handler .drainPermOps ∈ prog → Table.values s.permOps = lost →
      (∀ token, eventCount (Waiting.permOp token).failedBy s =
        eventCount (Waiting.permOp token).failedBy before) →
      Draining lost before s prog
  | answering (ops : List (Awaiting String)) (message : String) {prog : List Stmt} :
      prog <:+ [.write (.push (.error message) none)] → s.permOps = ∅ →
      (∀ token, eventCount (Waiting.permOp token).failedBy s + tokenCount token ops =
        eventCount (Waiting.permOp token).failedBy before + tokenCount token lost) →
      Draining lost before s (ops.map failPermOp ++ prog)

/-- A quiet step does not disturb this. -/
theorem Draining.quiet {lost : List (Awaiting String)} {before s s' : Shared} {prog : List Stmt}
    {g : Nat} (h : Draining lost before s prog) (hquiet : Quiet g s s') :
    Draining lost before s' prog := by
  cases h with
  | registered con reason hprog hdrain hlost hcount =>
      refine .registered con reason hprog hdrain (by rw [hquiet.permOps, hlost]) ?_
      intro token
      rw [hquiet.failures, hcount]
  | answering ops message hprog hempty hcount =>
      refine .answering ops message hprog (by rw [hquiet.permOps, hempty]) ?_
      intro token
      rw [hquiet.failures, hcount]

/-- The entries that a temporary disconnect does not answer are not there. -/
structure NoneUnanswered (s : Shared) : Prop where
  ftLists : s.ftLists = ∅
  ftOps : s.ftOps = ∅
  ftTaskByRc : s.ftTaskByRc = ∅

/-- A quiet step leaves the tables empty. -/
theorem NoneUnanswered.quiet {g : Nat} {s s' : Shared} (h : NoneUnanswered s)
    (hquiet : Quiet g s s') : NoneUnanswered s' where
  ftLists := hquiet.ftLists h.ftLists
  ftOps := by rw [hquiet.ftOps, h.ftOps]
  ftTaskByRc := by rw [hquiet.ftTaskByRc, h.ftTaskByRc]

/-- A step of the event loop goes on with the draining. -/
theorem draining_step {lost : List (Awaiting String)} {before s : Shared} {choice : Choice}
    {st : Stmt} {rest : List Stmt} {out : NativeOutcome}
    (h : Draining lost before s (st :: rest)) (hnone : NoneUnanswered s)
    (hexec : st.exec choice s = some out) :
    Draining lost before out.shared (out.front ++ rest) ∧ NoneUnanswered out.shared := by
  -- The program is registered, about to drain the table, or answering what it has drained.
  generalize hprog : st :: rest = prog at h
  cases h with
  | registered con reason hsuffix hdrain hlost hcount =>
      subst hprog
      simp only [itemProgram, List.suffix_cons_iff, List.cons.injEq, List.suffix_nil] at hsuffix
      -- Two statements stand in front of the draining.
      rcases hsuffix with ⟨rfl, rfl⟩ | ⟨rfl, rfl⟩ | ⟨rfl, rfl⟩ | h
      · cases hexec
        refine ⟨?_, ⟨rfl, hnone.ftOps, hnone.ftTaskByRc⟩⟩
        exact .registered con reason (by simp [itemProgram])
          (by simp) hlost hcount
      -- The table is drained: each operation is to be answered by one push.
      · cases hexec
        refine ⟨?_, ⟨hnone.ftLists, hnone.ftOps, hnone.ftTaskByRc⟩⟩
        simp only [HandlerStmt.exec, hlost]
        refine .answering lost ("Temp disconnected: " ++ reason) List.suffix_rfl rfl ?_
        intro token
        exact congrArg (· + tokenCount token lost) (hcount token)
      · simp at hdrain
      · simp at h
  -- One answer after the other, and then the event of the disconnect itself.
  | @answering ops message tail hsuffix hempty hcount =>
      cases ops with
      | nil =>
          rw [List.map_nil, List.nil_append] at hprog
          subst hprog
          simp only [List.suffix_cons_iff, List.cons.injEq, List.suffix_nil] at hsuffix
          rcases hsuffix with ⟨rfl, rfl⟩ | h
          · cases hexec
            refine ⟨.answering [] message List.nil_suffix hempty ?_,
              ⟨hnone.ftLists, hnone.ftOps, hnone.ftTaskByRc⟩⟩
            intro token
            rw [← hcount token, eventCount_of_write (not_notice_of_failedBy _)]
            rfl
          · cases h
      | cons op ops =>
          obtain ⟨rfl, rfl⟩ := List.cons.inj hprog
          cases hexec
          refine ⟨.answering ops message hsuffix hempty ?_,
            ⟨hnone.ftLists, hnone.ftOps, hnone.ftTaskByRc⟩⟩
          intro token
          rw [← hcount token, eventCount_of_write (not_notice_of_failedBy _)]
          -- The push counts for the token of its operation, and for no other.
          by_cases htoken : op.value = token
          · simp [pushes, Waiting.failedBy, tokenCount, htoken]
            omega
          · simp [pushes, Waiting.failedBy, tokenCount, htoken]

/-- When the program of a temporary disconnect is done, all permission operations are answered. -/
theorem answered_of_temporary {P P₁ P' : Machine} {i g : Nat} {sess : Session} {ended : Bool}
    {reason : String} {items : List StreamItem} {rest : List Stmt} {choice : Choice}
    (hrun : RunUnder (fun P _ => answersLoss P) P)
    (hth : P.threads[i]? = some ⟨.eventLoop g, .eventLoop (.handle sess ended) :: rest⟩)
    (hitem : (P.shared.conns sess.con).handling = .disconnectedTemporarily reason :: items)
    (hok : Pool.checks (fun P _ => answersLoss P) P (.run i choice : NativeLabel) = true)
    (hnext : Pool.next nativeLanguage (.run i choice) P = some P₁)
    (hamid : Pool.Amid nativeLanguage
      (fun P label => Pool.checks (fun P _ => answersLoss P) P label = true) i
      (itemProgram sess.con (.disconnectedTemporarily reason)) P₁ P') :
    Answered (registered P.shared) P.shared P'.shared := by
  have hcond : answersLoss P (.eventLoop (.handle sess ended)) = true :=
    Pool.cond_of_checks hok hth rfl
  have hrun₁ := hrun.step hok hnext
  obtain ⟨th, st, rest', out, hth', hprog, hexec, hP₁⟩ := Pool.next_run hnext
  obtain rfl : th = ⟨.eventLoop g, .eventLoop (.handle sess ended) :: rest⟩ := by
    rw [hth] at hth'
    exact (Option.some.inj hth').symm
  obtain ⟨rfl, rfl⟩ := List.cons.inj hprog
  -- Before the disconnect is handled, the other tables are empty.
  have hnone : NoneUnanswered P.shared := by
    simp only [answersLoss, hitem, Bool.and_eq_true, Table.isEmpty_iff] at hcond
    exact ⟨hcond.2.1.1, hcond.2.1.2, hcond.2.2⟩
  have hout : out =
      { shared :=
          (P.shared.setConn sess.con
            { P.shared.conns sess.con with handling := items }).recordPassed
            sess.con (.disconnectedTemporarily reason)
        front := itemProgram sess.con (.disconnectedTemporarily reason) ++
          [.eventLoop (.handle sess ended)] } := by
    simp only [nativeLanguage, Stmt.exec, LoopStmt.exec, hitem, Option.some.injEq] at hexec
    exact hexec.symm
  subst hout
  have hthread : P₁.threads[i]? =
      some ⟨.eventLoop g, itemProgram sess.con (.disconnectedTemporarily reason) ++
        .eventLoop (.handle sess ended) :: rest⟩ := by
    rw [hP₁]
    exact (Pool.getElem?_self hth).trans (by simp)
  -- The invariant: the operations are in the table, or their answers are still to be pushed.
  have hend := hamid.invariant hthread
    (R := fun prog Q => RunUnder (fun P _ => answersLoss P) Q ∧
      Draining (Table.values P.shared.permOps) P.shared Q.shared prog ∧ NoneUnanswered Q.shared)
    (by
      rw [hP₁] at hrun₁ ⊢
      exact ⟨hrun₁, .registered sess.con reason List.suffix_rfl (by simp [itemProgram]) rfl
        fun _ => rfl, hnone.ftLists, hnone.ftOps, hnone.ftTaskByRc⟩)
    (by
      rintro Q Q₁ choice st rest out _ ⟨hQ, hdrain, hnone⟩ hok hnext hexec hshared
      rw [hshared]
      exact ⟨hQ.step hok hnext, draining_step hdrain hnone hexec⟩)
    (by
      rintro Q Q₁ label st rest hthread ⟨hQ, hdrain, hnone⟩ hne hok hnext
      have hquiet := quiet_of_other (g := g) hQ hthread
        (List.any_eq_true.mpr ⟨.eventLoop (.handle sess ended), by simp, rfl⟩) hne hok hnext
      exact ⟨hQ.step hok hnext, hdrain.quiet hquiet, hnone.quiet hquiet⟩)
  obtain ⟨_, hdrain, hgone⟩ := hend
  generalize hnil : ([] : List Stmt) = prog at hdrain
  cases hdrain with
  | registered _ _ _ hmem =>
      subst hnil
      cases hmem
  | @answering ops _ tail _ hempty hcount =>
      obtain ⟨hops, rfl⟩ := List.nil_eq_append_iff.mp hnil
      obtain rfl := List.map_eq_nil_iff.mp hops
      refine ⟨?_, hgone.ftLists, hgone.ftOps, hempty, hgone.ftTaskByRc⟩
      -- Only permission operations were registered, and each of them was counted.
      intro w hw
      have hregistered : registered P.shared =
          (Table.values P.shared.permOps).map fun op => .permOp op.value := by
        simp [registered, hnone.ftLists, hnone.ftOps]
      rw [hregistered] at hw ⊢
      obtain ⟨op, _, rfl⟩ := List.mem_map.mp hw
      have hinj : Function.Injective Waiting.permOp := fun _ _ h => Waiting.permOp.inj h
      rw [show (fun op : Awaiting String => Waiting.permOp op.value) =
        Waiting.permOp ∘ (·.value) from rfl, ← List.map_map, List.count_map_of_injective _ _ hinj]
      exact hcount op.value

/-! ### The end of a session -/

/-- The pending operations are gone, and what was queued at the exit check is still queued. -/
structure Ending (g : Nat) (before : Shared) (prog : List Stmt) (s : Shared) : Prop where
  none : NoneUnanswered s
  permOps : s.permOps = ∅
  queued : queued before g = [] ∨
    (.write (.dropReceiver g) ∈ prog ∧ ∀ w ∈ queued before g, w ∈ queued s g)

/-- A quiet step keeps the end of the session. -/
theorem Ending.quiet {g : Nat} {before s s' : Shared} {prog : List Stmt}
    (h : Ending g before prog s) (hquiet : Quiet g s s') : Ending g before prog s' where
  none := h.none.quiet hquiet
  permOps := by rw [hquiet.permOps, h.permOps]
  queued := h.queued.imp_right fun ⟨hdrop, hsub⟩ =>
    ⟨hdrop, fun w hw => hquiet.queued w (hsub w hw)⟩

/-- A write of the exit leaves the tables empty. -/
theorem ending_step {g : Nat} {before s : Shared} {choice : Choice} {st : Stmt}
    {rest : List Stmt} {out : NativeOutcome} (h : Ending g before (st :: rest) s)
    (hst : Leaves g st) (hdrop : ∀ g', st = .write (.dropReceiver g') → queued s g' = [])
    (hexec : st.exec choice s = some out) : Ending g before (out.front ++ rest) out.shared := by
  obtain ⟨w, rfl, rfl⟩ := leaves_step hexec hst
  obtain ⟨⟨hlists, hops, hrc⟩, hperm, hqueued⟩ := h
  by_cases hw : w = .dropReceiver g
  · subst hw
    have hnone := hdrop g rfl
    refine ⟨⟨hlists, hops, hrc⟩, hperm, .inl ?_⟩
    rcases hqueued with hnil | ⟨_, hsub⟩
    · exact hnil
    · rw [hnone] at hsub
      exact List.eq_nil_iff_forall_not_mem.mpr fun w hw => List.not_mem_nil (hsub w hw)
  · have hstays : queued before g = [] ∨
        (.write (.dropReceiver g) ∈ rest ∧ ∀ w ∈ queued before g, w ∈ queued s g) := by
      refine hqueued.imp_right ?_
      rintro ⟨hmem, hsub⟩
      rcases List.mem_cons.mp hmem with heq | hrest
      · exact absurd (Stmt.write.inj heq).symm hw
      · exact ⟨hrest, hsub⟩
    cases w with
    | push e origin => cases origin <;> exact ⟨⟨hlists, hops, hrc⟩, hperm, hstays⟩
    | dropReceiver g' =>
        obtain rfl : g' = g := hst
        exact absurd rfl hw
    | clearFtLists => exact ⟨⟨rfl, hops, hrc⟩, hperm, hstays⟩
    | clearFtOps => exact ⟨⟨hlists, rfl, hrc⟩, hperm, hstays⟩
    | clearPermOps => exact ⟨⟨hlists, hops, hrc⟩, rfl, hstays⟩
    | _ => first | exact hst.elim | exact ⟨⟨hlists, hops, hrc⟩, hperm, hstays⟩

/-- An exit ends with the store to `EVENT_LOOP_ALIVE`. -/
theorem setEventLoopAlive_mem {s : Shared} {sess : Session} {way : ExitWay} {st : Stmt}
    {rest : List Stmt} (h : st :: rest <:+ exitProgram s sess way) :
    .write (.setEventLoopAlive false) ∈ st :: rest := by
  have hlast : (exitProgram s sess way).getLast? = some (.write (.setEventLoopAlive false)) := by
    simp [exitProgram, leaveProgram]
  obtain ⟨front, heq⟩ := h
  rw [← heq, List.getLast?_append_of_ne_nil _ (List.cons_ne_nil st rest)] at hlast
  exact List.mem_of_getLast? hlast

/-- When the exit is done, nothing was lost. -/
theorem answered_of_sessionEnd {P P₁ P' : Machine} {i g : Nat} {sess : Session} {way : ExitWay}
    {rest : List Stmt} {choice : Choice} (hrun : RunUnder (fun P _ => answersLoss P) P)
    (hth : P.threads[i]? = some ⟨.eventLoop g, .eventLoop (.guardExit sess way) :: rest⟩)
    (hok : Pool.checks (fun P _ => answersLoss P) P (.run i choice : NativeLabel) = true)
    (hnext : Pool.next nativeLanguage (.run i choice) P = some P₁)
    (hamid : Pool.Amid nativeLanguage
      (fun P label => Pool.checks (fun P _ => answersLoss P) P label = true) i
      (exitProgram P.shared sess way) P₁ P') :
    Answered (registered P.shared ++ queued P.shared sess.generation) P.shared P'.shared := by
  have hcond : answersLoss P (.eventLoop (.guardExit sess way)) = true :=
    Pool.cond_of_checks hok hth rfl
  have hrun₁ := hrun.step hok hnext
  have hshaped := shaped_of_run hrun _ (List.mem_of_getElem? hth)
  obtain ⟨th, st, rest', out, hth', hprog, hexec, hP₁⟩ := Pool.next_run hnext
  obtain rfl : th = ⟨.eventLoop g, .eventLoop (.guardExit sess way) :: rest⟩ := by
    rw [hth] at hth'
    exact (Option.some.inj hth').symm
  obtain ⟨rfl, rfl⟩ := List.cons.inj hprog
  cases hexec
  -- When the session ends the tables are empty: the condition says so.
  simp only [answersLoss, sequential, Bool.true_and, Bool.and_eq_true, Table.isEmpty_iff] at hcond
  obtain ⟨⟨⟨hlists, hops⟩, hperm⟩, hrc⟩ := hcond
  have hthread : P₁.threads[i]? = some ⟨.eventLoop g, exitProgram P.shared sess way ++ rest⟩ := by
    rw [hP₁]
    exact Pool.getElem?_self hth
  -- The invariant: the queue loses nothing, because nothing that waits is in it.
  have hend := hamid.invariant hthread
    (R := fun prog Q => RunUnder (fun P _ => answersLoss P) Q ∧
      prog <:+ exitProgram P.shared sess way ∧
      Ending sess.generation P.shared prog Q.shared)
    (by
      rw [hP₁] at hrun₁ ⊢
      exact ⟨hrun₁, List.suffix_rfl, ⟨⟨hlists, hops, hrc⟩, hperm,
        .inr ⟨List.mem_append_right _ List.mem_cons_self, fun _ h => h⟩⟩⟩)
    (by
      rintro Q Q₁ choice st rest out hthread ⟨hQ, hsuffix, hending⟩ hok hnext hexec hshared
      have hst := leaves_of_exitProgram P.shared sess way st (hsuffix.subset List.mem_cons_self)
      have hcond : answersLoss Q st = true := Pool.cond_of_checks hok hthread rfl
      have hstep := ending_step hending hst (by
        rintro g' rfl
        simpa [answersLoss, sequential] using hcond) hexec
      obtain ⟨w, rfl, rfl⟩ := leaves_step hexec hst
      rw [hshared]
      exact ⟨hQ.step hok hnext, (List.suffix_cons _ rest).trans hsuffix, hstep⟩)
    (by
      rintro Q Q₁ label st rest hthread ⟨hQ, hsuffix, hending⟩ hne hok hnext
      have hquiet := quiet_of_other (g := sess.generation) hQ hthread
        (List.any_eq_true.mpr ⟨_, List.mem_append_left _ (setEventLoopAlive_mem hsuffix), rfl⟩)
        hne hok hnext
      exact ⟨hQ.step hok hnext, hsuffix, hending.quiet hquiet⟩)
  obtain ⟨_, _, hgone, hgonePerm, hqueued⟩ := hend
  have hnil : queued P.shared sess.generation = [] := by
    rcases hqueued with hnil | ⟨hmem, _⟩
    · exact hnil
    · cases hmem
  refine ⟨?_, hgone.ftLists, hgone.ftOps, hgonePerm, hgone.ftTaskByRc⟩
  have hregistered : registered P.shared = [] := by
    rw [registered, hlists, hops, hperm]
    rfl
  intro w hw
  rw [hregistered, hnil] at hw
  cases hw

/-! ### Both losses -/

/-- In every run under the condition, every loss that the event loop handles answers every
operation that was waiting. -/
theorem answered_of_run {P P' : Machine} {i : Nat} {lost : List Waiting}
    (hrun : RunUnder (fun P _ => answersLoss P) P)
    (hloss : Handles (fun P label => Pool.checks (fun P _ => answersLoss P) P label = true) i lost
      P P') : Answered lost P.shared P'.shared := by
  cases hloss with
  | temporary hth hitem hok hnext hamid =>
      exact answered_of_temporary hrun hth hitem hok hnext hamid
  | sessionEnd hth hok hnext hamid => exact answered_of_sessionEnd hrun hth hok hnext hamid

/-- A command is sent in session 1, and then the link is lost for a while. -/
def lostAfter (call : Call) (calls : Nat) : List NativeLabel :=
  publishSteps 0 ++ startSteps 0 ++ [.env (.call call)] ++ List.replicate calls (.run 3 .go) ++
    iterateSteps 2 ++ List.replicate 3 (.run 2 .go) ++
    [.run 2 (.incoming (.lost "timeout")), .run 2 (.incoming .timeout)]

/-- A permission operation is answered. -/
theorem answered_permOp : ∃ P P' : Machine,
    registered P.shared = [.permOp "t"] ∧ Answered (registered P.shared) P.shared P'.shared := by
  obtain ⟨P, hrun, hobs⟩ := exists_run (fun P _ => answersLoss P)
    (lostAfter (.queueCommand (.serverGroupAddClient 6 2 "t")) 2)
    (fun P => (P.threads[2]?, (P.shared.conns 1).handling, registered P.shared,
      Pool.checks (fun P _ => answersLoss P) P (.run 2 .go : NativeLabel),
      ((Pool.next nativeLanguage (.run 2 .go) P).bind fun P₁ =>
        Pool.alone nativeLanguage (Pool.checks fun P _ => answersLoss P) 2 [.go, .go, .go, .go]
          (itemProgram 1 (.disconnectedTemporarily "timeout")) P₁).isSome))
    (a := (some ⟨.eventLoop 1, [.eventLoop (.handle ⟨1, 1⟩ false)]⟩,
      [.disconnectedTemporarily "timeout"], [.permOp "t"], true, true)) rfl
  simp only [Prod.mk.injEq, Option.isSome_iff_exists, Option.bind_eq_some_iff] at hobs
  obtain ⟨hth, hitem, hlost, hok, P', P₁, hnext, halone⟩ := hobs
  exact ⟨P, P', hlost, answered_of_run hrun (.temporary hth hitem hok hnext (.of_alone halone))⟩

/-- A listing is dropped without an event. -/
theorem not_answered :
    ¬ ∀ (P P' : Machine) (i : Nat) (lost : List Waiting), native.Reachable P →
      Handles (fun _ _ => True) i lost P P' → Answered lost P.shared P'.shared := by
  intro hall
  obtain ⟨P, hrun, hobs⟩ := exists_run (fun _ _ _ => true)
    (lostAfter (.queueFtCommand (.ftList 5 "/" none "t")) 3)
    (fun P => (P.threads[2]?, (P.shared.conns 1).handling, registered P.shared,
      eventCount (Waiting.ftListing "t").failedBy P.shared,
      (((Pool.next nativeLanguage (.run 2 .go) P).bind fun P₁ =>
        Pool.alone nativeLanguage (fun _ _ => true) 2 [.go, .go, .go]
          (itemProgram 1 (.disconnectedTemporarily "timeout")) P₁).map fun P' =>
            eventCount (Waiting.ftListing "t").failedBy P'.shared)))
    (a := (some ⟨.eventLoop 1, [.eventLoop (.handle ⟨1, 1⟩ false)]⟩,
      [.disconnectedTemporarily "timeout"], [.ftListing "t"], 0, some 0)) rfl
  simp only [Prod.mk.injEq, Option.map_eq_some_iff, Option.bind_eq_some_iff] at hobs
  obtain ⟨hth, hitem, hlost, hbefore, P', ⟨P₁, hnext, halone⟩, hafter⟩ := hobs
  have h := hall P P' 2 _ hrun.reachable
    (.temporary hth hitem trivial hnext (by simpa using Pool.Amid.of_alone halone))
  have hcount := h.failures (.ftListing "t") (by rw [hlost]; exact List.mem_singleton_self _)
  rw [hbefore, hafter, hlost] at hcount
  cases hcount

end Nek0.Proofs.Native
