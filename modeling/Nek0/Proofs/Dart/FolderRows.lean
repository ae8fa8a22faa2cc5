import Nek0.Dart.TransferRuns

/-!
# `Nek0.Proofs.Dart.FolderRows`: the folder transfers of the service

The folder transfers depend on a part of the service only: the `FolderProgress` objects, how many
were made, and which of them have a row (`FolderRows`). `FolderRows.move` says what a step does to
this part, and `rows_of_next` that it is right. The rest is about `move`: `Kept` are the facts about
the numbers of the objects that every step keeps.
-/

set_option autoImplicit false

namespace Nek0.Proofs.Dart

open Nek0.Dart
open Nek0.Native (TaskId TransferKind TsEvent)

/-- The folder transfers, and the numbers of those that are shown. -/
structure FolderRows where
  folders : Nat → FolderProgress
  made : Nat
  shown : List Nat

/-- The folder transfers of the service. -/
def rowsOf (s : FtTransferService) : FolderRows := ⟨s.folders, s.foldersMade, s.aggregates⟩

namespace FolderRows

/-- Changes one folder transfer. -/
def update (v : FolderRows) (folder : Nat) (f : FolderProgress → FolderProgress) : FolderRows :=
  { v with folders := Function.update v.folders folder (f (v.folders folder)) }

/-- Changes the first folder transfer that is shown and has the task as a step. -/
def updateStep (v : FolderRows) (id : TaskId) (f : FolderProgress → FolderProgress) : FolderRows :=
  match v.shown.find? fun folder => (v.folders folder).stepIds.contains id with
  | none => v
  | some folder => v.update folder f

/-- A folder transfer begins. -/
def add (v : FolderRows) (kind : TransferKind) (label : String) (totalBytes : Nat) :
    FolderRows where
  folders := Function.update v.folders v.made (.new kind label totalBytes (-(1 + v.shown.length)))
  made := v.made + 1
  shown := v.shown ++ [v.made]

/-- The shown folder transfers with this row are canceled. -/
def cancel (v : FolderRows) (taskId : Int) : FolderRows :=
  { v with
      folders := fun folder =>
        if v.shown.contains folder && (v.folders folder).rowTaskId == taskId then
          { v.folders folder with canceled := true }
        else v.folders folder }

/-- Only the folder transfers that are running stay. -/
def clear (v : FolderRows) : FolderRows :=
  { v with shown := v.shown.filter fun folder => (v.folders folder).isRunning }

/-- A step is started. -/
def started (id : TaskId) (fp : FolderProgress) : FolderProgress :=
  { fp with stepIds := fp.stepIds ++ [id], steps := fp.steps + 1 }

/-- A step failed. -/
def failed (fp : FolderProgress) : FolderProgress := { fp with error := true }

/-- No more steps. -/
def closed (fp : FolderProgress) : FolderProgress := { fp with collecting := false }

/-- What a step does to the folder transfers. -/
def move : TransferRun.Step → FolderRows → FolderRows
  | .call (.newAggregate kind label totalBytes), v => v.add kind label totalBytes
  | .call (.folderStep folder _ _ id), v => v.update folder (if id = 0 then failed else started id)
  | .call (.stepFailed folder), v => v.update folder failed
  | .call (.closeAggregate folder), v => v.update folder closed
  | .call (.cancel taskId), v => v.cancel taskId
  | .call .clearFinished, v => v.clear
  | .event (.ftProgress id transferred), v =>
    v.updateStep id fun fp => fp.stepProgress id transferred
  | .event (.ftDone id ok _ error), v => v.updateStep id fun fp => fp.stepDone ok error
  | _, v => v

end FolderRows

open FolderRows

/-! ### The rows of the service -/

variable {s : FtTransferService} {v : FolderRows}

theorem rowsOf_putIfAbsent (id : TaskId) (job : TransferJob) :
    rowsOf (s.putIfAbsent id job) = rowsOf s := by
  unfold FtTransferService.putIfAbsent
  split <;> rfl

theorem rowsOf_putJob (id : TaskId) (job : TransferJob) : rowsOf (s.putJob id job) = rowsOf s := by
  unfold FtTransferService.putJob
  split <;> rfl

/-- Changing the row of a step's folder is changing the step of the rows. -/
theorem rowsOf_updateAggregate (id : TaskId) (f : FolderProgress → FolderProgress) :
    rowsOf (s.updateAggregate id f) = (rowsOf s).updateStep id f := by
  have hshown : (rowsOf s).shown.find? (fun folder =>
      ((rowsOf s).folders folder).stepIds.contains id) =
        s.aggregates.find? fun folder => (s.folders folder).stepIds.contains id := rfl
  unfold FtTransferService.updateAggregate FolderRows.updateStep
  rw [hshown]
  cases s.aggregates.find? fun folder => (s.folders folder).stepIds.contains id with
  | none => rfl
  | some folder => rfl

/-- A folder step changes the row of its folder. -/
theorem rowsOf_folderStep (folder : Nat) (name : String) (total : UInt64) (id : TaskId) :
    rowsOf (s.folderStep folder name total id) =
      (rowsOf s).update folder (if id = 0 then failed else started id) := by
  unfold FtTransferService.folderStep
  by_cases hid : id = 0
  · rw [if_pos hid, if_pos hid]
    rfl
  · rw [if_neg hid, if_neg hid]
    exact rowsOf_putJob _ _

/-- A call moves the rows as the rows' own step does. -/
theorem rowsOf_call (c : FtTransferService.Call) :
    rowsOf (s.call c) = (rowsOf s).move (.call c) := by
  cases c with
  | listDirectory token queued => cases queued <;> rfl
  | pathOp token queued => cases queued <;> rfl
  | transferFile kind name id =>
      show rowsOf (s.transferFile kind name id) = rowsOf s
      unfold FtTransferService.transferFile
      split
      · rfl
      · exact rowsOf_putIfAbsent _ _
  | trackHiddenTask name id => exact rowsOf_putIfAbsent _ _
  | folderStep folder name total id => exact rowsOf_folderStep folder name total id
  | _ => rfl

/-- So does an event. -/
theorem rowsOf_event {e : TsEvent} (he : isTransferEvent e = true) :
    rowsOf (s.handleEvent e) = (rowsOf s).move (.event e) := by
  cases e with
  | ftProgress id transferred => exact rowsOf_updateAggregate _ _
  | ftDone id ok transferred error => exact rowsOf_updateAggregate _ _
  | ftListing _ _ _ => rfl
  | ftStarted _ _ _ _ => rfl
  | ftOp _ _ _ => rfl
  | _ => cases he

/-- What a step does to the folder transfers is `move`. -/
theorem rows_of_next {step : TransferRun.Step} {r r' : TransferRun}
    (h : TransferRun.next step r = some r') :
    rowsOf r'.service = (rowsOf r.service).move step := by
  cases step with
  | call c =>
      obtain ⟨-, rfl⟩ := TransferRun.next_call h
      exact rowsOf_call c
  | event e =>
      obtain ⟨he, rfl⟩ := TransferRun.next_event h
      exact rowsOf_event he
  | goesOn id =>
      obtain ⟨-, rfl⟩ := TransferRun.next_goesOn h
      rfl
  | timeout id =>
      obtain ⟨-, rfl⟩ := TransferRun.next_timeout h
      rfl

/-! ### What a step keeps -/

@[simp] theorem update_shown (folder : Nat) (f : FolderProgress → FolderProgress) :
    (v.update folder f).shown = v.shown := rfl

@[simp] theorem update_made (folder : Nat) (f : FolderProgress → FolderProgress) :
    (v.update folder f).made = v.made := rfl

/-- The new folder transfer. -/
theorem add_folders_made (kind : TransferKind) (label : String) (totalBytes : Nat) :
    (v.add kind label totalBytes).folders v.made =
      .new kind label totalBytes (-(1 + v.shown.length)) := by
  show Function.update v.folders v.made _ v.made = _
  rw [Function.update_self]

/-- One folder transfer that is shown and has the task as a step is changed, or there is none. -/
theorem updateStep_cases (v : FolderRows) (id : TaskId) (f : FolderProgress → FolderProgress) :
    (v.updateStep id f = v ∧ ∀ folder ∈ v.shown, id ∉ (v.folders folder).stepIds) ∨
      ∃ folder ∈ v.shown,
        id ∈ (v.folders folder).stepIds ∧ v.updateStep id f = v.update folder f := by
  unfold FolderRows.updateStep
  cases hfind : v.shown.find? fun folder => (v.folders folder).stepIds.contains id with
  | none =>
      refine .inl ⟨rfl, fun folder hmem => ?_⟩
      simpa using List.find?_eq_none.mp hfind folder hmem
  | some folder =>
      refine .inr ⟨folder, List.mem_of_find?_eq_some hfind, ?_, rfl⟩
      simpa using List.find?_some hfind

@[simp] theorem updateStep_shown (id : TaskId) (f : FolderProgress → FolderProgress) :
    (v.updateStep id f).shown = v.shown := by
  rcases updateStep_cases v id f with ⟨heq, -⟩ | ⟨folder, -, -, heq⟩
  · rw [heq]
  · rw [heq, update_shown]

@[simp] theorem updateStep_made (id : TaskId) (f : FolderProgress → FolderProgress) :
    (v.updateStep id f).made = v.made := by
  rcases updateStep_cases v id f with ⟨heq, -⟩ | ⟨folder, -, -, heq⟩
  · rw [heq]
  · rw [heq, update_made]

section Fields

variable {α : Type} (φ : FolderProgress → α) (f : FolderProgress → FolderProgress)

/-- A field that the change keeps is kept everywhere. -/
theorem update_field (folder g : Nat) (hf : ∀ fp, φ (f fp) = φ fp) :
    φ ((v.update folder f).folders g) = φ (v.folders g) := by
  show φ (Function.update v.folders folder (f (v.folders folder)) g) = φ (v.folders g)
  by_cases hg : g = folder
  · subst hg
    rw [Function.update_self, hf]
  · rw [Function.update_of_ne hg]

/-- A change to a step's row that leaves a field alone leaves it alone in all rows. -/
theorem updateStep_field (id : TaskId) (g : Nat) (hf : ∀ fp, φ (f fp) = φ fp) :
    φ ((v.updateStep id f).folders g) = φ (v.folders g) := by
  rcases updateStep_cases v id f with ⟨heq, -⟩ | ⟨folder, -, -, heq⟩
  · rw [heq]
  · rw [heq, update_field φ f folder g hf]

omit f in
/-- Canceling leaves a field alone that it does not concern. -/
theorem cancel_field (taskId : Int) (g : Nat) (hf : ∀ fp, φ { fp with canceled := true } = φ fp) :
    φ ((v.cancel taskId).folders g) = φ (v.folders g) := by
  show φ (if _ then _ else _) = _
  split
  · exact hf _
  · rfl

end Fields

@[simp] theorem stepProgress_rowTaskId (fp : FolderProgress) (id : TaskId) (transferred : UInt64) :
    (fp.stepProgress id transferred).rowTaskId = fp.rowTaskId := by
  unfold FolderProgress.stepProgress
  dsimp only
  split <;> rfl

/-- The shown folder transfers were made, and each is shown once. -/
structure Listed (v : FolderRows) : Prop where
  nodup : v.shown.Nodup
  made : ∀ folder ∈ v.shown, folder < v.made

/-- Every step keeps the rows listed. -/
theorem Listed.move (h : Listed v) (step : TransferRun.Step) : Listed (v.move step) := by
  have hsame : ∀ v' : FolderRows, v'.shown = v.shown → v'.made = v.made → Listed v' := by
    intro v' hshown hmade
    exact ⟨hshown ▸ h.nodup, fun folder hmem => hmade ▸ h.made folder (hshown ▸ hmem)⟩
  -- A new row has the next number, which no row that is shown has.
  have hadd : ∀ kind label totalBytes, Listed (v.add kind label totalBytes) := by
    intro kind label totalBytes
    constructor
    · refine List.nodup_append.mpr ⟨h.nodup, List.nodup_singleton _, fun a ha b hb => ?_⟩
      have := h.made a ha
      have := List.mem_singleton.mp hb
      omega
    · intro folder hmem
      rcases List.mem_append.mp hmem with hmem | hmem
      · exact Nat.lt_succ_of_lt (h.made folder hmem)
      · rw [List.mem_singleton.mp hmem]
        exact Nat.lt_succ_self _
  -- All other steps show what was shown before, or less.
  cases step with
  | call c =>
      cases c with
      | newAggregate kind label totalBytes => exact hadd kind label totalBytes
      | clearFinished =>
          exact ⟨h.nodup.filter _, fun folder hmem => h.made folder (List.mem_filter.mp hmem).1⟩
      | _ => exact hsame _ rfl rfl
  | event e =>
      cases e with
      | ftProgress id transferred => exact hsame _ (updateStep_shown _ _) (updateStep_made _ _)
      | ftDone id ok transferred error => exact hsame _ (updateStep_shown _ _) (updateStep_made _ _)
      | _ => exact h
  | goesOn id => exact h
  | timeout id => exact h

end Nek0.Proofs.Dart
