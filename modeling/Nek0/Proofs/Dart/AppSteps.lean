import Nek0.Dart.App
import Nek0.Proofs.Native.Attempts

/-!
# `Nek0.Proofs.Dart.AppSteps`: the steps of the app

`AppStep` says what each event does, with its guards. The native side of the app runs as it does on
its own (`machine_of_run`), and no thread of it has a statement of a call that only the notifier
makes (`quiet_of_run`).
-/

set_option autoImplicit false

namespace Nek0.Proofs.Dart

open Nek0.Lib
open Nek0.Dart
open Nek0.Native
open Nek0.Proofs.Native

/-- An event on the isolate that has nothing to do with the session. -/
def isControl : Notifier.Event → Bool
  | .connect => false
  | .connectReturned _ => false
  | .disconnect => false
  | .poll _ => false
  | .handle _ => false
  | _ => true

/-- What an event does to the app. -/
inductive AppStep (a : App) : AppEvent → App → Prop where
  | native {label : NativeLabel} {P : Machine} :
      ofNotifier label = false → native.next label a.machine = some P →
        AppStep a (.native label) { a with machine := P }
  | connect : a.asking = none → a.notifier.inbox = [] →
      AppStep a (.notifier .connect) { a with notifier := a.notifier.connect }
  | accepted {P : Machine} : a.asking = none → a.notifier.inbox = [] → 0 < a.notifier.connects →
      a.accepts = true → callAtOnce .tsConnect a.machine = some P →
        AppStep a .connectReturned
          { a with
              notifier := a.notifier.connectReturned true
              machine := P
              history := { a.history with requested := false, connectedSince := false } }
  | refused {P : Machine} : a.asking = none → a.notifier.inbox = [] → a.accepts = false →
      callAtOnce .tsConnect a.machine = some P →
        AppStep a .connectReturned
          { a with notifier := a.notifier.connectReturned false, machine := P }
  | poll {P : Machine} : a.asking = none → a.notifier.inbox = [] → a.notifier.polling = true →
      callAtOnce .tsPollEvents a.machine = some P →
        AppStep a .poll
          { a with
              notifier := { a.notifier with inbox := a.machine.shared.pendingEvents }
              machine := P }
  | disconnect {P : Machine} : a.asking = none → a.notifier.inbox = [] →
      a.notifier.asksDisconnect = true →
      native.next (.env (.call .tsDisconnect)) a.machine = some P →
        AppStep a .disconnect
          { a with
              machine := P
              asking := some a.machine.threads.length
              history := { a.history with requested := true } }
  | ignored : a.notifier.asksDisconnect = false → AppStep a .disconnect a
  | disconnectReturned {i : Nat} {owner : Owner} : a.asking = some i →
      a.machine.threads[i]? = some ⟨owner, []⟩ →
        AppStep a .disconnectReturned
          { a with notifier := a.notifier.disconnectReturned, asking := none }
  | handle {started : Bool} {event : TsEvent} {rest : List TsEvent} : a.asking = none →
      a.notifier.inbox = event :: rest →
        AppStep a (.notifier (.handle started))
          { a with
              notifier := ({ a.notifier with inbox := rest } : Notifier).handleEvent started event
              history := a.history.handle event }
  | control {e : Notifier.Event} {n : Notifier} : isControl e = true → a.notifier.inbox = [] →
      a.notifier.step e = some n → AppStep a (.notifier e) { a with notifier := n }

/-- While a batch is handled, nothing else happens on the isolate. -/
theorem step_of_next {n n' : Notifier} {e : Notifier.Event} (he : ∀ started, e ≠ .handle started)
    (h : Notifier.next e n = some n') : n.inbox = [] ∧ n.step e = some n' := by
  unfold Notifier.next at h
  split at h
  · rename_i hinbox
    exact ⟨hinbox, h⟩
  · split at h
    · exact absurd rfl (he _)
    · cases h

/-- What it does to the app that `ts_connect` has returned. -/
theorem appStep_of_connectReturned {a a' : App} (hfree : a.asking = none)
    (h : a.connectReturned = some a') : AppStep a .connectReturned a' := by
  obtain ⟨n, hn, h⟩ := Option.bind_eq_some_iff.mp h
  obtain ⟨P, hP, rfl⟩ := Option.map_eq_some_iff.mp h
  obtain ⟨hinbox, hstep⟩ := step_of_next (by simp) hn
  simp only [Notifier.step, Option.ite_none_right_eq_some] at hstep
  obtain ⟨hwaits, hn⟩ := hstep
  cases hn
  cases haccepts : a.accepts with
  | true => exact .accepted hfree hinbox hwaits haccepts hP
  | false => exact .refused hfree hinbox haccepts hP

/-- What it does that the notifier takes a step by itself. -/
theorem appStep_of_notify {a a' : App} {e : Notifier.Event} (hfree : a.asking = none)
    (h : a.notify e = some a') : AppStep a (.notifier e) a' := by
  cases e
  case connect =>
    obtain ⟨n, hn, rfl⟩ := Option.map_eq_some_iff.mp h
    obtain ⟨hinbox, hstep⟩ := step_of_next (by simp) hn
    cases hstep
    exact .connect hfree hinbox
  case handle started =>
    simp only [App.notify] at h
    split at h
    · cases h
    · rename_i event rest hinbox
      obtain ⟨n, hn, rfl⟩ := Option.map_eq_some_iff.mp h
      simp only [Notifier.next, hinbox] at hn
      cases hn
      exact .handle hfree hinbox
  case connectReturned => cases h
  case poll => cases h
  case disconnect => cases h
  all_goals
    obtain ⟨n, hn, rfl⟩ := Option.map_eq_some_iff.mp h
    obtain ⟨hinbox, hstep⟩ := step_of_next (by simp) hn
    exact .control rfl hinbox hstep

/-- Every step of the app is one of the cases of `AppStep`. -/
theorem appStep_of_next {a a' : App} {e : AppEvent} (h : App.next e a = some a') :
    AppStep a e a' := by
  cases e with
  | native label =>
      simp only [App.next] at h
      split at h
      · cases h
      · rename_i hlabel
        obtain ⟨P, hP, rfl⟩ := Option.map_eq_some_iff.mp h
        exact .native (by simpa using hlabel) hP
  | disconnectReturned =>
      simp only [App.next, App.disconnectReturned] at h
      split at h
      · cases h
      · rename_i i hasking
        split at h
        · rename_i hdone
          cases h
          exact .disconnectReturned hasking hdone
        · cases h
  | connectReturned =>
      simp only [App.next, Option.ite_none_left_eq_some] at h
      exact appStep_of_connectReturned (by simpa using h.1) h.2
  | poll =>
      simp only [App.next, Option.ite_none_left_eq_some] at h
      obtain ⟨hfree, h⟩ := h
      obtain ⟨n, hn, h⟩ := Option.bind_eq_some_iff.mp h
      obtain ⟨P, hP, rfl⟩ := Option.map_eq_some_iff.mp h
      -- The app polls only when the last batch has been handled.
      obtain ⟨hinbox, hstep⟩ := step_of_next (by simp) hn
      simp only [Notifier.step, Option.ite_none_right_eq_some] at hstep
      obtain ⟨hpolling, hn⟩ := hstep
      cases hn
      exact .poll (by simpa using hfree) hinbox hpolling hP
  | disconnect =>
      simp only [App.next, Option.ite_none_left_eq_some, App.disconnect] at h
      obtain ⟨hfree, hinbox, h⟩ := h
      split at h
      · rename_i hasks
        obtain ⟨P, hP, rfl⟩ := Option.map_eq_some_iff.mp h
        exact .disconnect (by simpa using hfree) (by simpa using hinbox) hasks hP
      · rename_i hasks
        cases h
        exact .ignored (by simpa using hasks)
  | notifier e =>
      simp only [App.next, Option.ite_none_left_eq_some] at h
      exact appStep_of_notify (by simpa using h.1) h.2

/-! ### Calls -/

/-- A call starts a thread. -/
theorem native_call {c : Call} {P P' : Machine} (h : native.next (.env (.call c)) P = some P') :
    P' = ⟨P.shared.noteRequest c, P.threads ++ [⟨.call, c.program⟩]⟩ := by
  cases h
  rfl

/-- Such a call executes its statement. -/
theorem callAtOnce_spec {c : Call} {k : Stmt} (hprog : c.program = [k])
    (hrequest : c.isRequest = false) {P P' : Machine} (h : callAtOnce c P = some P') :
    ∃ out, k.exec .go P.shared = some out ∧ P'.shared = out.shared ∧
      P'.threads = P.threads ++ [⟨.call, out.front⟩] ++ out.spawn := by
  obtain ⟨P₁, henv, hrun⟩ := Option.bind_eq_some_iff.mp h
  obtain rfl := native_call henv
  obtain ⟨th, st', rest, out, hth, hprog', hout, rfl⟩ := Pool.next_run hrun
  obtain rfl : ⟨.call, [k]⟩ = th := by
    rw [← hprog]
    simpa using hth
  obtain ⟨rfl, rfl⟩ := List.cons.inj hprog'
  have hsame : P.shared.noteRequest c = P.shared := by simp [Shared.noteRequest, hrequest]
  rw [hsame] at hout
  exact ⟨out, hout, rfl, by simp⟩

/-- An accepted `ts_connect`. -/
theorem callAtOnce_accepted {a : App} {P : Machine} (haccepts : a.accepts = true)
    (h : callAtOnce .tsConnect a.machine = some P) :
    P.shared = a.machine.shared.acceptConnect ∧
      P.threads = a.machine.threads ++ [⟨.call, []⟩] ++
        [⟨.connect (a.machine.shared.history.attempts + 1),
          [.task (.handshake (a.machine.shared.history.attempts + 1))]⟩] := by
  obtain ⟨out, hexec, hshared, hthreads⟩ := callAtOnce_spec (k := .call .connect) rfl rfl h
  have hidle : ¬ (a.machine.shared.connecting || a.machine.shared.connected) = true := by
    simpa [App.accepts] using haccepts
  cases hexec
  rw [CallStmt.exec, if_neg hidle] at hshared hthreads
  exact ⟨hshared, hthreads⟩

/-- A refused one. -/
theorem callAtOnce_refused {a : App} {P : Machine} (haccepts : a.accepts = false)
    (h : callAtOnce .tsConnect a.machine = some P) :
    P.shared = a.machine.shared ∧ P.threads = a.machine.threads ++ [⟨.call, []⟩] := by
  obtain ⟨out, hexec, hshared, hthreads⟩ := callAtOnce_spec (k := .call .connect) rfl rfl h
  have hbusy : (a.machine.shared.connecting || a.machine.shared.connected) = true := by
    rwa [App.accepts, Bool.not_eq_false'] at haccepts
  cases hexec
  rw [CallStmt.exec, if_pos hbusy] at hshared hthreads
  exact ⟨hshared, by simpa using hthreads⟩

/-- `ts_poll_events`. -/
theorem callAtOnce_poll {P P' : Machine} (h : callAtOnce .tsPollEvents P = some P') :
    P'.shared = Write.pollEvents.apply P.shared ∧ P'.threads = P.threads ++ [⟨.call, []⟩] := by
  obtain ⟨out, hexec, hshared, hthreads⟩ := callAtOnce_spec (k := .write .pollEvents) rfl rfl h
  cases hexec
  exact ⟨hshared, by simpa using hthreads⟩

/-! ### The native side of the app -/

/-- The native side of the app runs as on its own. -/
theorem reachable_of_step {a a' : App} {e : AppEvent} (hreach : native.Reachable a.machine)
    (h : AppStep a e a') : native.Reachable a'.machine := by
  have honce : ∀ {c : Call} {P : Machine}, callAtOnce c a.machine = some P →
      native.Reachable P := by
    intro c P hP
    obtain ⟨P₁, henv, hrun⟩ := Option.bind_eq_some_iff.mp hP
    exact (hreach.step trivial henv).step trivial hrun
  cases h with
  | native _ hP => exact hreach.step trivial hP
  | accepted _ _ _ _ hP => exact honce hP
  | refused _ _ _ hP => exact honce hP
  | poll _ _ _ hP => exact honce hP
  | disconnect _ _ _ hP => exact hreach.step trivial hP
  | _ => exact hreach

/-- The native machine of a run of the app is one that the machine's own steps reach. -/
theorem machine_of_run {ok : App → AppEvent → Prop} {a : App} (hrun : App.system.Run ok a) :
    native.Reachable a.machine := by
  refine hrun.invariant (P := fun a => native.Reachable a.machine) ?_ ?_
  · rintro a rfl
    exact .start ⟨rfl, rfl⟩
  · intro a a' e hreach _ hnext
    exact reachable_of_step hreach (appStep_of_next hnext)

/-- No thread has a statement of a call that only the notifier makes. -/
def Quiet (P : Machine) : Prop := ∀ t ∈ P.threads, ∀ st ∈ t.prog, isNotifierStmt st = false

/-- More threads without such a statement. -/
theorem Quiet.append {P P' : Machine} (h : Quiet P) {threads : List NativeThread}
    (hthreads : P'.threads = P.threads ++ threads)
    (hnew : ∀ t ∈ threads, ∀ st ∈ t.prog, isNotifierStmt st = false) : Quiet P' := by
  intro t ht
  rw [hthreads] at ht
  rcases List.mem_append.mp ht with hold | hmem
  · exact h t hold
  · exact hnew t hmem

/-- A native step that is not a call of the notifier. -/
theorem quiet_of_native {P P' : Machine} {label : NativeLabel} (hquiet : Quiet P)
    (hshaped : ∀ t ∈ P.threads, Shaped t) (hlabel : ofNotifier label = false)
    (h : native.next label P = some P') : Quiet P' := by
  cases label with
  | run i choice =>
      obtain ⟨th, st, rest, out, hth, hprog, hexec, rfl⟩ := Pool.next_run h
      have hmem := List.mem_of_getElem? hth
      have hth' : th = ⟨th.owner, st :: rest⟩ := by rw [← hprog]
      intro t ht
      rcases Pool.mem_set_append ht with hold | rfl | hnew
      -- The thread goes on: what is in front of its program are steps of the statement it has run.
      · exact hquiet t hold
      · intro k hk
        rcases List.mem_append.mp hk with hfront | hrest
        · exact not_isNotifierStmt_of_step hexec (hth' ▸ hshaped th hmem) k hfront
        · exact hquiet th hmem k (by rw [hprog]; exact .tail _ hrest)
      · exact fun k hk => (resolves_of_spawn hexec t hnew k hk).1
  | env event =>
      obtain ⟨s, spawn, henv, rfl⟩ := Pool.next_env h
      refine hquiet.append rfl ?_
      -- Something from outside starts a call, or queues nothing that a thread would run.
      rcases happening_cases henv with ⟨c, rfl, _, rfl⟩ | ⟨_, _, _, rfl⟩ | ⟨_, _, _, _, rfl⟩
      · intro t ht
        rw [List.mem_singleton.mp ht]
        cases c
        case queueCommand c =>
          simp only [Call.program]
          split <;> simp [isNotifierStmt]
        case queueFtCommand c =>
          simp only [Call.program]
          split <;> simp [isNotifierStmt]
        case tsConnect => cases hlabel
        case tsPollEvents => cases hlabel
        all_goals simp [Call.program, isNotifierStmt]
      · simp
      · simp

/-- In a run of the app only the notifier itself makes its calls. -/
theorem quiet_of_run {ok : App → AppEvent → Prop} {a : App} (hrun : App.system.Run ok a) :
    Quiet a.machine := by
  refine hrun.invariant_of (P := fun a => Quiet a.machine) (fun a h => machine_of_run h) ?_ ?_
  · rintro a rfl t ht
    cases ht
  · intro a a' e hreach _ hquiet _ hnext
    cases appStep_of_next hnext with
    | native hlabel hP => exact quiet_of_native hquiet (shaped_of_run hreach) hlabel hP
    | accepted _ _ _ haccepts hP =>
        refine hquiet.append ((callAtOnce_accepted haccepts hP).2.trans
          (List.append_assoc _ _ _)) ?_
        simp [isNotifierStmt]
    | refused _ _ haccepts hP =>
        exact hquiet.append (callAtOnce_refused haccepts hP).2 (by simp)
    | poll _ _ _ hP => exact hquiet.append (callAtOnce_poll hP).2 (by simp)
    | disconnect _ _ _ hP =>
        obtain rfl := native_call hP
        exact hquiet.append rfl (by simp [Call.program, isNotifierStmt])
    | _ => exact hquiet

/-- What a native step does to the attempt. -/
theorem progress_of_native {P P' : Machine} {label : NativeLabel} (hreach : native.Reachable P)
    (hquiet : Quiet P) (h : native.next label P = some P') : Progress P.shared P'.shared := by
  cases label with
  | run i choice =>
      obtain ⟨th, st, rest, out, hth, hprog, hexec, rfl⟩ := Pool.next_run h
      have hmem := List.mem_of_getElem? hth
      have hst : st ∈ th.prog := by
        rw [hprog]
        exact List.mem_cons_self
      have hth' : th = ⟨th.owner, st :: rest⟩ := by rw [← hprog]
      exact progress_of_exec hexec (hth' ▸ shaped_of_run hreach th hmem) (hquiet th hmem st hst)
        (connecting_of_openAttempts (openAttempts_of_run hreach) hmem hst)
  | env event =>
      obtain ⟨s, spawn, henv, rfl⟩ := Pool.next_env h
      rcases happening_cases henv with ⟨c, _, rfl, _⟩ | ⟨_, _, rfl, _⟩ | ⟨_, _, _, rfl, _⟩
      · unfold Shared.noteRequest
        split
        · exact .of_eq ⟨[], (List.append_nil _).symm⟩ rfl id
        · exact .of_eq ⟨[], (List.append_nil _).symm⟩ rfl id
      · exact .of_eq ⟨[], (List.append_nil _).symm⟩ rfl id
      · exact .of_eq ⟨[], (List.append_nil _).symm⟩ rfl id

end Nek0.Proofs.Dart
