import Nek0.Lib.Observer
import Nek0.Proofs.Dart.FolderRows

/-!
# `Nek0.Proofs.Dart.RowIds`: the rows of folder transfers

A folder transfer gets the row −(1 + n) when n others are shown. While rows are only added, each
gets a number of its own. But `clearFinished` takes rows out of the middle. After that n is smaller,
and a new row may get the number of one that is still shown (`not_ownRows`). Then `cancel` stops
both.

`beginObserver` notes with how many others each folder transfer began. When a new one begins, none
of those that are shown may have begun with as many others as there are now (`isFresh`). This is
about what was begun and cleared: the row numbers do not occur in it. In a run under this condition
every row is that of one folder transfer, and of no single transfer (`ownRows_of_run`). The
invariant is that a row has the number with which its folder transfer began (`RowIds`).
-/

set_option autoImplicit false

namespace Nek0.Proofs.Dart

open Nek0.Lib
open Nek0.Dart
open Nek0.Native (TaskId TransferKind TsEvent)

/-- The rows of the folder transfers that are shown. -/
def rowIds (v : FolderRows) : List Int := v.shown.map fun folder => (v.folders folder).rowTaskId

/-- Each folder transfer that is shown has a row of its own, and `cancel` stops its steps alone. -/
structure OwnRows (s : FtTransferService) : Prop where
  distinct : (s.aggregates.map fun folder => (s.folders folder).rowTaskId).Nodup
  apart : ∀ folder ∈ s.aggregates, ∀ id job, (id, job) ∈ s.jobs →
    (s.folders folder).rowTaskId ≠ (id.toNat : Int)
  cancels : ∀ folder ∈ s.aggregates,
    s.cancelRequests (s.folders folder).rowTaskId = (s.folders folder).stepIds
  flags : ∀ folder ∈ s.aggregates, ∀ other,
    ((s.cancel (s.folders folder).rowTaskId).folders other).canceled =
      (decide (other = folder) || (s.folders other).canceled)

/-- Notes how many folder transfers were shown when each one began. -/
def beginObserver : Observer TransferRun TransferRun.Step (Nat → Nat) where
  start := fun _ => 0
  see := fun step r begun =>
    match step with
    | .call (.newAggregate _ _ _) =>
      Function.update begun r.service.foldersMade r.service.aggregates.length
    | _ => begun

/-- When a folder transfer begins, none that is shown began with as many others. -/
def isFresh (p : TransferRun × (Nat → Nat)) : TransferRun.Step → Bool
  | .call (.newAggregate _ _ _) => p.1.service.aggregates.all fun folder =>
      p.2 folder != p.1.service.aggregates.length
  | _ => true

/-- What holds of the rows. -/
structure RowIds (v : FolderRows) (begun : Nat → Nat) : Prop where
  listed : Listed v
  distinct : (rowIds v).Nodup
  /-- A row has the number with which it began. -/
  numbered : ∀ folder ∈ v.shown, (v.folders folder).rowTaskId = -(1 + begun folder)

variable {v v' : FolderRows} {begun : Nat → Nat}

/-- Nothing changes for the rows where their numbers stay. -/
theorem RowIds.of_eq (h : RowIds v begun) (hlisted : Listed v') (hshown : v'.shown = v.shown)
    (hrow : ∀ g, (v'.folders g).rowTaskId = (v.folders g).rowTaskId) : RowIds v' begun := by
  have hids : rowIds v' = rowIds v := by
    unfold rowIds
    rw [hshown]
    exact List.map_congr_left fun g _ => hrow g
  refine ⟨hlisted, hids ▸ h.distinct, fun folder hmem => ?_⟩
  rw [hrow]
  exact h.numbered folder (hshown ▸ hmem)

/-- A new row. -/
theorem RowIds.add {kind : TransferKind} {label : String} {totalBytes : Nat} (h : RowIds v begun)
    (hlisted : Listed (v.add kind label totalBytes))
    (hfresh : ∀ folder ∈ v.shown, begun folder ≠ v.shown.length) :
    RowIds (v.add kind label totalBytes) (Function.update begun v.made v.shown.length) := by
  have hne : ∀ folder ∈ v.shown, folder ≠ v.made := fun folder hmem =>
    Nat.ne_of_lt (h.listed.made folder hmem)
  -- The rows before it keep their ids.
  have hold : ∀ folder ∈ v.shown, ((v.add kind label totalBytes).folders folder).rowTaskId =
      (v.folders folder).rowTaskId := by
    intro folder hmem
    show (Function.update v.folders v.made _ folder).rowTaskId = _
    rw [Function.update_of_ne (hne folder hmem)]
  have hnew : ((v.add kind label totalBytes).folders v.made).rowTaskId = -(1 + v.shown.length) := by
    rw [add_folders_made]
    rfl
  have hids : rowIds (v.add kind label totalBytes) = rowIds v ++ [-(1 + v.shown.length : Int)] := by
    show (v.shown ++ [v.made]).map _ = _
    rw [List.map_append, List.map_singleton, hnew]
    exact congrArg (· ++ _) (List.map_congr_left hold)
  refine ⟨hlisted, ?_, ?_⟩
  -- No shown row was begun when as many rows were shown as now, so the new id is new.
  · rw [hids]
    refine List.nodup_append.mpr ⟨h.distinct, List.nodup_singleton _, fun a ha b hb => ?_⟩
    obtain ⟨folder, hmem, rfl⟩ := List.mem_map.mp ha
    rw [List.mem_singleton.mp hb, h.numbered folder hmem]
    have := hfresh folder hmem
    omega
  · intro folder hmem
    cases List.mem_append.mp hmem with
    | inl hmem =>
        rw [hold folder hmem, Function.update_of_ne (hne folder hmem)]
        exact h.numbered folder hmem
    | inr hmem => rw [List.mem_singleton.mp hmem, hnew, Function.update_self]

/-- Fewer rows. -/
theorem RowIds.clear (h : RowIds v begun) (hlisted : Listed v.clear) : RowIds v.clear begun := by
  refine ⟨hlisted, ?_, fun folder hmem => h.numbered folder (List.mem_filter.mp hmem).1⟩
  exact h.distinct.sublist (List.filter_sublist.map _)

/-- The step lemma: the record and the rows go on together. -/
theorem rowIds_move {step : TransferRun.Step} {r : TransferRun}
    (h : RowIds (rowsOf r.service) begun) (hfresh : isFresh (r, begun) step = true) :
    RowIds ((rowsOf r.service).move step) (beginObserver.see step r begun) := by
  have hlisted := h.listed.move step
  cases step with
  | call c =>
      cases c with
      -- Only a new row takes an id, and only clearing gives one back.
      | newAggregate kind label totalBytes =>
          refine h.add hlisted fun folder hmem => ?_
          exact bne_iff_ne.mp (List.all_eq_true.mp hfresh folder hmem)
      | clearFinished => exact h.clear hlisted
      | folderStep folder name total id =>
          refine h.of_eq hlisted rfl fun g => update_field FolderProgress.rowTaskId _ folder g ?_
          intro fp
          split <;> rfl
      | stepFailed folder =>
          refine h.of_eq hlisted rfl fun g =>
            update_field FolderProgress.rowTaskId FolderRows.failed folder g fun _ => rfl
      | closeAggregate folder =>
          refine h.of_eq hlisted rfl fun g =>
            update_field FolderProgress.rowTaskId FolderRows.closed folder g fun _ => rfl
      | cancel taskId =>
          refine h.of_eq hlisted rfl fun g =>
            cancel_field FolderProgress.rowTaskId taskId g fun _ => rfl
      | _ => exact h
  | event e =>
      cases e with
      | ftProgress id transferred =>
          refine h.of_eq hlisted (updateStep_shown _ _) fun g =>
            updateStep_field FolderProgress.rowTaskId _ id g fun fp => ?_
          exact stepProgress_rowTaskId fp id transferred
      | ftDone id ok transferred error =>
          refine h.of_eq hlisted (updateStep_shown _ _) fun g => updateStep_field
            FolderProgress.rowTaskId (fun fp => fp.stepDone ok error) id g fun _ => rfl
      | _ => exact h
  | goesOn id => exact h
  | timeout id => exact h

/-! ### What follows from the numbers -/

variable {s : FtTransferService}

theorem rowTaskId_inj (h : RowIds (rowsOf s) begun) {f g : Nat} (hf : f ∈ s.aggregates)
    (hg : g ∈ s.aggregates) (heq : (s.folders f).rowTaskId = (s.folders g).rowTaskId) : f = g :=
  List.inj_on_of_nodup_map h.distinct hf hg heq

/-- No task has the number of a row. -/
theorem RowIds.negative (h : RowIds (rowsOf s) begun) {folder : Nat}
    (hmem : folder ∈ s.aggregates) :
    (s.folders folder).rowTaskId < 0 := by
  have hnumber : (s.folders folder).rowTaskId = _ := h.numbered folder hmem
  omega

/-- Ids that tell the rows apart make each handle find its own row. -/
theorem ownRows_of_rowIds (h : RowIds (rowsOf s) begun) : OwnRows s where
  distinct := h.distinct
  apart folder hmem id job _ := by
    have := h.negative hmem
    omega
  cancels folder hmem := by
    have hneg := h.negative hmem
    -- No task has a negative number, and no other folder transfer has this one.
    have hjobs : s.jobs.filter (fun j => (j.1.toNat : Int) == (s.folders folder).rowTaskId &&
        j.2.isActive) = [] := by
      refine List.filter_eq_nil_iff.mpr fun j _ hj => ?_
      have := eq_of_beq (Bool.and_eq_true_iff.mp hj).1
      omega
    have hfolders : s.aggregates.filter (fun g =>
        (s.folders g).rowTaskId == (s.folders folder).rowTaskId) = [folder] := by
      have hsame : s.aggregates.filter (fun g =>
          (s.folders g).rowTaskId == (s.folders folder).rowTaskId) =
            s.aggregates.filter (· == folder) := by
        refine List.filter_congr fun g hg => ?_
        rw [Bool.eq_iff_iff, beq_iff_eq, beq_iff_eq]
        exact ⟨rowTaskId_inj h hg hmem, fun heq => heq ▸ rfl⟩
      have hcount : s.aggregates.count folder = 1 := List.count_eq_one_of_mem h.listed.nodup hmem
      rw [hsame, List.filter_beq, hcount]
      rfl
    rw [FtTransferService.cancelRequests, hjobs, hfolders]
    simp
  flags folder hmem other := by
    show (if _ then _ else _ : FolderProgress).canceled = _
    by_cases hother : other = folder
    · subst hother
      simp [hmem]
    · have hno : ¬(s.aggregates.contains other &&
          (s.folders other).rowTaskId == (s.folders folder).rowTaskId) = true := by
        intro hboth
        obtain ⟨hin, heq⟩ := Bool.and_eq_true_iff.mp hboth
        exact hother (rowTaskId_inj h (by simpa using hin) hmem (eq_of_beq heq))
      rw [if_neg hno, decide_eq_false hother, Bool.false_or]

/-- In a run in which no folder transfer begins with as many others as one that is shown did, each
folder transfer has a row of its own. -/
theorem ownRows_of_run {p : TransferRun × (Nat → Nat)}
    (hrun :
      (TransferRun.system.observed beginObserver).Run (fun p step => isFresh p step = true) p) :
    OwnRows p.1.service := by
  have h : RowIds (rowsOf p.1.service) p.2 := by
    refine hrun.invariant (P := fun p => RowIds (rowsOf p.1.service) p.2) ?_ ?_
    · rintro ⟨r, begun⟩ ⟨rfl, -⟩
      exact ⟨⟨List.nodup_nil, by simp [rowsOf, FtTransferService.initial]⟩, List.nodup_nil,
        by simp [rowsOf, FtTransferService.initial]⟩
    · intro p p' step h hfresh hnext
      obtain ⟨hstep, hsee⟩ := System.next_observed hnext
      rw [rows_of_next hstep, hsee]
      exact rowIds_move h hfresh
  exact ownRows_of_rowIds h

/-- Two folder transfers begin. The second one starts a step. -/
def twoFolders : List TransferRun.Step :=
  [.call (.newAggregate .download "a" 0), .call (.newAggregate .download "b" 0),
    .call (.folderStep 1 "x" 0 5)]

/-- The first one ends and is cleared, and a third one begins. -/
def thirdFolder : List TransferRun.Step :=
  [.call (.closeAggregate 0), .call .clearFinished, .call (.newAggregate .download "c" 0)]

/-- The rows of two folder transfers. -/
theorem ownRows_two : ∃ r : TransferRun, OwnRows r.service ∧
    rowIds (rowsOf r.service) = [-1, -2] := by
  obtain ⟨p, hrun, hrows⟩ := System.Run.exists_of_exec (TransferRun.system.observed beginObserver)
    (fun p step => isFresh p step = true) isFresh twoFolders
    (fun p => rowIds (rowsOf p.1.service))
    (s := ({ service := .initial, settled := [] }, beginObserver.start)) (a := [-1, -2])
    (fun _ _ h => h) (.start ⟨rfl, rfl⟩) rfl
  exact ⟨p.1, ownRows_of_run hrun, hrows⟩

/-- The third folder transfer gets the row of the second, which is still running. -/
theorem not_ownRows : ¬ ∀ r : TransferRun, TransferRun.system.Reachable r → OwnRows r.service := by
  intro hall
  obtain ⟨r, hrun, hrows⟩ := System.Run.exists_of_exec TransferRun.system (fun _ _ => True)
    (fun _ _ => true) (twoFolders ++ thirdFolder) (fun r => rowIds (rowsOf r.service))
    (s := { service := .initial, settled := [] }) (a := [-2, -2]) (fun _ _ _ => trivial)
    (.start rfl) rfl
  have hdistinct : (rowIds (rowsOf r.service)).Nodup := (hall r hrun).distinct
  rw [hrows] at hdistinct
  exact absurd hdistinct (by decide)

end Nek0.Proofs.Dart
