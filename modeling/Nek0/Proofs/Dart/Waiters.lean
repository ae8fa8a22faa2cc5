import Nek0.Dart.Notifier

/-!
# `Nek0.Proofs.Dart.Waiters`: what a disconnect releases

When the session is over, whoever waits for an answer should be told. `FtTransferService` has a
branch for `disconnected` that does this, but the notifier passes on only the events of the
transfers. So the listings, the path operations and the transfers wait on, and the `disconnected`
event releases the permission operations alone, and these only if the notifier is not connecting.
`released_iff` says when that is enough.
-/

set_option autoImplicit false

namespace Nek0.Proofs.Dart

open Nek0.Lib (Table)
open Nek0.Dart
open Nek0.Native (TsEvent)

/-- Nobody waits for the transfer service. -/
structure FtReleased (s : FtTransferService) : Prop where
  lists : ∀ c ∈ Table.values s.pendingLists, c.isCompleted = true
  ops : ∀ c ∈ Table.values s.pendingOps, c.isCompleted = true
  waiters : ∀ c ∈ Table.values s.taskWaiters, c.isCompleted = true
  jobs : ∀ j ∈ s.jobs, j.2.isActive = false
  aggregates : ∀ folder ∈ s.aggregates, (s.folders folder).isOpen = false

/-- Nobody waits. -/
structure Released (n : Notifier) : Prop where
  transfers : FtReleased n.transfers
  permissions : ∀ c ∈ Table.values n.permCompleters, c.isCompleted = true

/-- Nobody had to be released: there is no waiting call, no active job and no open folder. While the
notifier is connecting, there is no permission operation either. -/
structure NobodyWaits (n : Notifier) : Prop where
  lists : n.transfers.pendingLists = ∅
  ops : n.transfers.pendingOps = ∅
  waiters : n.transfers.taskWaiters = ∅
  jobs : ∀ j ∈ n.transfers.jobs, j.2.isActive = false
  aggregates : ∀ folder ∈ n.transfers.aggregates, (n.transfers.folders folder).isOpen = false
  permissions : n.state.connecting = true → n.permCompleters = ∅

/-! ### Completers that wait -/

/-- Every completer in the table is waited for. -/
def Waiting {K : Type} [DecidableEq K] (t : Table K Completer) : Prop :=
  ∀ k c, t.lookup k = some c → c.isCompleted = false

section
variable {K : Type} [DecidableEq K] {t : Table K Completer}

theorem waiting_empty : Waiting (∅ : Table K Completer) := by
  intro k c h
  cases h

/-- A new waiter waits. -/
theorem waiting_insert (h : Waiting t) (k : K) : Waiting (t.insert k ⟨false⟩) := by
  intro k' c hc
  by_cases hk : k' = k
  · subst hk
    rw [AList.lookup_insert] at hc
    obtain rfl := Option.some.inj hc
    rfl
  · rw [AList.lookup_insert_ne hk] at hc
    exact h k' c hc

/-- Removing one leaves the others waiting. -/
theorem waiting_erase (h : Waiting t) (k : K) : Waiting (t.erase k) := by
  intro k' c hc
  by_cases hk : k' = k
  · subst hk
    rw [AList.lookup_erase] at hc
    cases hc
  · rw [AList.lookup_erase_ne hk] at hc
    exact h k' c hc

/-- Then nothing is pending only if nothing is there. -/
theorem completed_iff (h : Waiting t) :
    (∀ c ∈ Table.values t, c.isCompleted = true) ↔ t = ∅ := by
  rw [← Table.values_eq_nil_iff, List.eq_nil_iff_forall_not_mem]
  refine forall_congr' fun c => ⟨fun hc hmem => ?_, fun hc hmem => (hc hmem).elim⟩
  obtain ⟨k, hk⟩ := (Table.mem_values_iff t c).mp hmem
  have hwaits := h k c hk
  rw [hc hmem] at hwaits
  cases hwaits

end

/-- All completers of the service are waited for. -/
structure FtWaiting (s : FtTransferService) : Prop where
  lists : Waiting s.pendingLists
  ops : Waiting s.pendingOps
  waiters : Waiting s.taskWaiters

/-- Rows and folders are something else. -/
theorem ftWaiting_rows {s : FtTransferService} (h : FtWaiting s) :
    (∀ id job, FtWaiting (s.putIfAbsent id job)) ∧ (∀ id job, FtWaiting (s.putJob id job)) ∧
      (∀ id f, FtWaiting (s.updateAggregate id f)) := by
  refine ⟨?_, ?_, ?_⟩
  · intro id job
    unfold FtTransferService.putIfAbsent
    split <;> exact ⟨h.lists, h.ops, h.waiters⟩
  · intro id job
    unfold FtTransferService.putJob
    split <;> exact ⟨h.lists, h.ops, h.waiters⟩
  · intro id f
    unfold FtTransferService.updateAggregate
    split <;> exact ⟨h.lists, h.ops, h.waiters⟩

theorem ftWaiting_waitTask {s : FtTransferService} (h : FtWaiting s) (id : Nek0.Native.TaskId) :
    FtWaiting (s.waitTask id) :=
  ⟨h.lists, h.ops, waiting_insert h.waiters id⟩

/-- A call of the service takes completers out, or puts new ones in. -/
theorem ftWaiting_call {s : FtTransferService} (h : FtWaiting s) (c : FtTransferService.Call) :
    FtWaiting (s.call c) := by
  cases c with
  -- A request that could not be queued leaves no completer behind.
  | listDirectory token queued =>
      cases queued with
      | false => exact h
      | true => exact ⟨waiting_insert h.lists token, h.ops, h.waiters⟩
  | listSettled token => exact ⟨waiting_erase h.lists token, h.ops, h.waiters⟩
  | pathOp token queued =>
      cases queued with
      | false => exact h
      | true => exact ⟨h.lists, waiting_insert h.ops token, h.waiters⟩
  | opSettled token => exact ⟨h.lists, waiting_erase h.ops token, h.waiters⟩
  | transferFile kind name id =>
      dsimp only [FtTransferService.call, FtTransferService.transferFile]
      split
      · exact h
      · exact ftWaiting_waitTask ((ftWaiting_rows h).1 id _) id
  | waitSettled id => exact ⟨h.lists, h.ops, waiting_erase h.waiters id⟩
  | trackHiddenTask name id => exact ftWaiting_waitTask ((ftWaiting_rows h).1 id _) id
  | folderStep folder name total id =>
      dsimp only [FtTransferService.call, FtTransferService.folderStep]
      split
      · exact ⟨h.lists, h.ops, h.waiters⟩
      · refine ftWaiting_waitTask ((ftWaiting_rows ?_).2.1 id _) id
        exact ⟨h.lists, h.ops, h.waiters⟩
  | hiddenSettled id | newAggregate kind label totalBytes | stepFailed folder
  | closeAggregate folder | cancel taskId | clearFinished => exact ⟨h.lists, h.ops, h.waiters⟩

/-- So does an event of a transfer. -/
theorem ftWaiting_handleEvent {s : FtTransferService} (h : FtWaiting s) {e : TsEvent}
    (he : ∀ reason, e ≠ .disconnected reason) : FtWaiting (s.handleEvent e) := by
  cases e with
  | disconnected reason => exact (he reason rfl).elim
  | ftListing token entries error => exact ⟨waiting_erase h.lists token, h.ops, h.waiters⟩
  | ftOp token ok error => exact ⟨h.lists, waiting_erase h.ops token, h.waiters⟩
  | ftStarted id kind name total => exact ⟨h.lists, h.ops, h.waiters⟩
  | ftProgress id transferred =>
      refine (ftWaiting_rows (s := s.updateJob id _) ?_).2.2 id _
      exact ⟨h.lists, h.ops, h.waiters⟩
  | ftDone id ok transferred error =>
      have hrows : FtWaiting ({ s.updateJob id fun job =>
          { job with
              transferred := transferred
              error := error
              state := if ok then .done
                else if error = some "canceled" then .canceled else .error } with
          taskWaiters := s.taskWaiters.erase id } : FtTransferService) :=
        ⟨h.lists, h.ops, waiting_erase h.waiters id⟩
      have hupdated := (ftWaiting_rows hrows).2.2 id fun fp => fp.stepDone ok error
      exact ⟨hupdated.lists, hupdated.ops, hupdated.waiters⟩
  | _ => exact h

/-! ### The notifier -/

/-- All completers are waited for. -/
structure AllWaiting (n : Notifier) : Prop where
  transfers : FtWaiting n.transfers
  permissions : Waiting n.permCompleters

theorem AllWaiting.of_eq {n n' : Notifier} (h : AllWaiting n)
    (htransfers : n'.transfers = n.transfers)
    (hpermissions : n'.permCompleters = n.permCompleters) : AllWaiting n' :=
  ⟨htransfers ▸ h.transfers, hpermissions ▸ h.permissions⟩

/-- The microphone is something else. -/
theorem tables_updateMicState (n : Notifier) :
    n.updateMicState.transfers = n.transfers ∧
      n.updateMicState.permCompleters = n.permCompleters := by
  unfold Notifier.updateMicState
  dsimp only
  repeat' split
  all_goals exact ⟨rfl, rfl⟩

theorem tables_stopAudio (n : Notifier) :
    n.stopAudio.transfers = n.transfers ∧ n.stopAudio.permCompleters = n.permCompleters := by
  unfold Notifier.stopAudio
  split <;> exact ⟨rfl, rfl⟩

/-- After an event every completer that is left is waited for. -/
theorem allWaiting_handleEvent {n : Notifier} (h : AllWaiting n) (started : Bool) (e : TsEvent) :
    AllWaiting (n.handleEvent started e) := by
  cases e with
  | connected serverName clientId =>
      exact h.of_eq (tables_updateMicState _).1 (tables_updateMicState _).2
  | disconnected reason =>
      dsimp only [Notifier.handleEvent, Notifier.onDisconnected]
      split
      · exact h
      · refine ⟨?_, waiting_empty⟩
        show FtWaiting n.stopAudio.transfers
        rw [(tables_stopAudio n).1]
        exact h.transfers
  | error message =>
      dsimp only [Notifier.handleEvent, Notifier.onError]
      split <;> exact ⟨h.transfers, h.permissions⟩
  | permOp token ok error => exact ⟨h.transfers, waiting_erase h.permissions token⟩
  | ftListing _ _ _ | ftStarted _ _ _ _ | ftProgress _ _ | ftDone _ _ _ _ | ftOp _ _ _ =>
      refine ⟨?_, h.permissions⟩
      dsimp only [Notifier.handleEvent]
      exact ftWaiting_handleEvent h.transfers (by simp)
  | _ => exact ⟨h.transfers, h.permissions⟩

/-- So it is after every step of the notifier. -/
theorem allWaiting_step {n n' : Notifier} {e : Notifier.Event} (h : AllWaiting n)
    (hstep : n.step e = some n') : AllWaiting n' := by
  cases e with
  -- `disconnect` and the `disconnected` event empty no table of the transfers.
  | disconnect =>
      obtain rfl := Option.some.inj hstep
      split
      · exact h.of_eq (tables_stopAudio n).1 (tables_stopAudio n).2
      · exact h
  | connectReturned accepted =>
      dsimp only [Notifier.step, Notifier.connectReturned] at hstep
      repeat' split at hstep
      all_goals cases hstep
      all_goals exact ⟨h.transfers, h.permissions⟩
  | togglePttMode | setPttPressed pressed | toggleInputMute | setAwayAndFullMute away muted =>
      obtain rfl := Option.some.inj hstep
      exact h.of_eq (tables_updateMicState _).1 (tables_updateMicState _).2
  | toggleAway =>
      obtain rfl := Option.some.inj hstep
      unfold Notifier.toggleAway
      split
      · exact h
      · exact h.of_eq (tables_updateMicState _).1 (tables_updateMicState _).2
  | permOp queued =>
      obtain rfl := Option.some.inj hstep
      unfold Notifier.permOp
      repeat' split
      · exact h
      · exact ⟨h.transfers, waiting_insert h.permissions _⟩
      · exact ⟨h.transfers, h.permissions⟩
  | permTimeout token =>
      obtain rfl := Option.some.inj hstep
      exact ⟨h.transfers, waiting_erase h.permissions token⟩
  | transfers c =>
      obtain rfl := Option.some.inj hstep
      exact ⟨ftWaiting_call h.transfers c, h.permissions⟩
  | _ =>
      dsimp only [Notifier.step] at hstep
      repeat' split at hstep
      all_goals cases hstep
      all_goals exact ⟨h.transfers, h.permissions⟩

/-- And in every state that is reached. -/
theorem allWaiting_of_reachable {n : Notifier} (hreach : Notifier.system.Reachable n) :
    AllWaiting n := by
  refine hreach.invariant ?_ ?_
  · rintro n rfl
    exact ⟨⟨waiting_empty, waiting_empty, waiting_empty⟩, waiting_empty⟩
  · intro n n' e h _ hnext
    simp only [Notifier.system, Notifier.next] at hnext
    split at hnext
    · exact allWaiting_step h hnext
    · split at hnext
      · rename_i rest _ _ _
        obtain rfl := Option.some.inj hnext
        exact allWaiting_handleEvent (n := { n with inbox := rest })
          ⟨h.transfers, h.permissions⟩ _ _
      · cases hnext

/-! ### The `disconnected` event -/

/-- In every reachable state, the `disconnected` event leaves nobody waiting exactly if nobody had
to be released. -/
theorem released_iff {n : Notifier} (hreach : Notifier.system.Reachable n) (started : Bool)
    (reason : String) :
    Released (n.handleEvent started (.disconnected reason)) ↔ NobodyWaits n := by
  have hwaiting := allWaiting_of_reachable hreach
  -- The handler does not touch the transfers,
  have htransfers : (n.handleEvent started (.disconnected reason)).transfers = n.transfers := by
    dsimp only [Notifier.handleEvent, Notifier.onDisconnected, Notifier.stopAudio]
    repeat' split
    all_goals rfl
  -- and it completes the permissions only outside of an attempt.
  have hpermissions : (n.handleEvent started (.disconnected reason)).permCompleters =
      if n.state.connecting then n.permCompleters else ∅ := by
    dsimp only [Notifier.handleEvent, Notifier.onDisconnected]
    split <;> rfl
  constructor
  -- All completers in the tables are waited for, so a table is completed only if it is empty.
  · rintro ⟨hreleased, hpending⟩
    rw [htransfers] at hreleased
    rw [hpermissions] at hpending
    refine ⟨(completed_iff hwaiting.transfers.lists).mp hreleased.lists,
      (completed_iff hwaiting.transfers.ops).mp hreleased.ops,
      (completed_iff hwaiting.transfers.waiters).mp hreleased.waiters,
      hreleased.jobs, hreleased.aggregates, ?_⟩
    intro hconnecting
    rw [if_pos hconnecting] at hpending
    exact (completed_iff hwaiting.permissions).mp hpending
  · intro h
    constructor
    · rw [htransfers]
      exact ⟨(completed_iff hwaiting.transfers.lists).mpr h.lists,
        (completed_iff hwaiting.transfers.ops).mpr h.ops,
        (completed_iff hwaiting.transfers.waiters).mpr h.waiters, h.jobs, h.aggregates⟩
    · rw [hpermissions]
      by_cases hconnecting : n.state.connecting = true
      · rw [if_pos hconnecting, h.permissions hconnecting]
        simp
      · rw [if_neg hconnecting]
        simp

/-- A session, with one more event on the isolate, and then the batch with its end. -/
def sessionEnds (e : Notifier.Event) : List Notifier.Event :=
  [.connect, .connectReturned true, .poll [.connected "server" 1], .handle true, e,
    .poll [.disconnected "closed"]]

/-- A permission operation is released. -/
theorem released_permOp : ∃ n : Notifier, Table.isEmpty n.permCompleters = false ∧
    Released (n.handleEvent true (.disconnected "closed")) := by
  obtain ⟨n, hreach, hobs⟩ := Nek0.Lib.System.Run.exists_of_exec Notifier.system
    (fun _ _ => True) (fun _ _ => true) (sessionEnds (.permOp true))
    (fun n => (Table.isEmpty n.permCompleters, Table.isEmpty n.transfers.pendingLists,
      Table.isEmpty n.transfers.pendingOps, Table.isEmpty n.transfers.taskWaiters,
      n.transfers.jobs, n.transfers.aggregates, n.state.connecting))
    (fun _ _ _ => trivial) (.start rfl) (a := (false, true, true, true, [], [], false)) rfl
  simp only [Prod.mk.injEq, Table.isEmpty_iff] at hobs
  obtain ⟨hperms, hlists, hops, hwaiters, hjobs, haggregates, hconnecting⟩ := hobs
  refine ⟨n, hperms, (released_iff hreach true "closed").mpr ⟨hlists, hops, hwaiters, ?_, ?_, ?_⟩⟩
  · simp [hjobs]
  · simp [haggregates]
  · simp [hconnecting]

/-- A listing is not. -/
theorem not_released : ¬ ∀ (n : Notifier) (started : Bool) (reason : String),
    Notifier.system.Reachable n → Released (n.handleEvent started (.disconnected reason)) := by
  intro hall
  obtain ⟨n, hreach, hobs⟩ := Nek0.Lib.System.Run.exists_of_exec Notifier.system
    (fun _ _ => True) (fun _ _ => true) (sessionEnds (.transfers (.listDirectory "t" true)))
    (fun n => Table.isEmpty n.transfers.pendingLists) (fun _ _ _ => trivial) (.start rfl)
    (a := false) rfl
  have hnobody := (released_iff hreach true "closed").mp (hall n true "closed" hreach)
  rw [hnobody.lists] at hobs
  cases hobs

end Nek0.Proofs.Dart
