import Nek0.Proofs.Dart.FolderSteps

/-!
# `Nek0.Proofs.Dart.ShownTransfers`: folder transfers that go on

A folder transfer is open from `_newAggregate` until `_closeAggregate`, unless it is canceled. It
should be shown for that time. But `isRunning` compares the steps that are done with those that were
started: before the first step, and between two steps, they are equal. Then `clearFinished` drops
the row of an open folder transfer (`not_visible`), and `hasActiveJobs` does not see it.

`keepsOpen` is the condition that `clearFinished` comes only while every open folder transfer has a
step that is under way: its `ft_done` event has not been handled. In a run under this condition
every open folder transfer is shown, and `hasActiveJobs` says if a step of a folder transfer or a
single transfer is under way (`visible_iff_of_run`).
-/

set_option autoImplicit false

namespace Nek0.Proofs.Dart

open Nek0.Lib
open Nek0.Dart
open Nek0.Native (TaskId TransferKind TsEvent)

/-- Between `_newAggregate` and `_closeAggregate`, and not canceled. -/
def goesOn (fp : FolderProgress) : Bool := fp.collecting && !fp.canceled

/-- A step was started, and its `ft_done` event was not handled. -/
def stepUnderWay (m : StepRecord) (fp : FolderProgress) : Bool :=
  fp.stepIds.any fun id => !m.isDone id

/-- `clearFinished` comes only while every open folder transfer has a step under way. -/
def keepsOpen (p : TransferRun × StepRecord) : TransferRun.Step → Bool
  | .call .clearFinished => (List.range p.1.service.foldersMade).all fun f =>
      !goesOn (p.1.service.folders f) || stepUnderWay p.2 (p.1.service.folders f)
  | _ => true

/-- The folder transfer has a row, and the service has active jobs. -/
def Visible (s : FtTransferService) (f : Nat) : Prop :=
  f ∈ s.aggregates ∧ s.hasActiveJobs = true

/-- A single transfer is active, or a step of a folder transfer that has a row is under way. -/
def Busy (p : TransferRun × StepRecord) : Prop :=
  (∃ j ∈ p.1.service.jobs, j.2.isActive = true ∧ j.2.visible = true) ∨
    ∃ g ∈ p.1.service.aggregates, (p.1.service.folders g).canceled = false ∧
      stepUnderWay p.2 (p.1.service.folders g) = true

/-! ### The counters -/

/-- The counters say how many steps were started, and how many are done. -/
def CountsSteps (m : StepRecord) (fp : FolderProgress) : Prop :=
  fp.steps = fp.stepIds.length ∧ fp.doneSteps = fp.stepIds.countP m.isDone

/-- One id more is counted once. -/
theorem countP_or_eq {α : Type} [DecidableEq α] {l : List α} {q : α → Bool} {a : α}
    (hnodup : l.Nodup) (hmem : a ∈ l) (hq : q a = false) :
    l.countP (fun x => q x || x == a) = l.countP q + 1 := by
  have hsame : ∀ {l : List α}, a ∉ l → l.countP (fun x => q x || x == a) = l.countP q := by
    intro l hnot
    refine List.countP_congr fun x hx => ?_
    have hne : x ≠ a := fun h => hnot (h ▸ hx)
    simp [hne]
  induction l with
  | nil => cases hmem
  | cons b l ih =>
      obtain ⟨hb, hl⟩ := List.nodup_cons.mp hnodup
      rw [List.countP_cons, List.countP_cons]
      rcases List.mem_cons.mp hmem with rfl | hmem
      · rw [hsame hb]
        simp [hq]
      · have hne : b ≠ a := fun h => hb (h ▸ hmem)
        rw [ih hl hmem]
        simp only [beq_eq_false_iff_ne.mpr hne, Bool.or_false]
        omega

/-- The counters keep their meaning, whatever a call or an event does. -/
theorem countsSteps_rule : StepRule (fun _ _ _ => True) CountsSteps where
  new _ _ _ _ _ := ⟨rfl, rfl⟩
  same m m' fp fp' _ hfinals hsame h := by
    have hdone : m'.isDone = m.isDone := by
      funext id
      simp [StepRecord.isDone, hfinals]
    rw [CountsSteps, hsame.steps, hsame.stepIds, hsame.doneSteps, hdone]
    exact h
  -- A step that starts is counted as started. It is not done, since its id is new.
  started m fp id hnew _ h := by
    have hdone : m.isDone id = false := (isNew_iff.mp hnew).2.2
    refine ⟨?_, ?_⟩
    · show fp.steps + 1 = (fp.stepIds ++ [id]).length
      rw [List.length_append, List.length_singleton, h.1]
    · show fp.doneSteps = (fp.stepIds ++ [id]).countP m.isDone
      rw [List.countP_append, h.2]
      simp [hdone]
  event m fp e hnodup honce _ h := by
    cases e with
    -- Progress changes the bytes only.
    | ftProgress id transferred =>
        show CountsSteps _ (if id ∈ fp.stepIds then fp.stepProgress id transferred else fp)
        split
        · unfold FolderProgress.stepProgress
          dsimp only
          split
          · exact h
          · exact h
        · exact h
    -- The first end of a step counts it as done. For the other folders it is not their step.
    | ftDone id result transferred error =>
        have hdone := honce id result transferred error rfl
        have hsee : (m.seeEvent (.ftDone id result transferred error)).isDone =
            fun x => m.isDone x || x == id := by
          funext x
          exact isDone_seeEvent id x result transferred error
        show CountsSteps _ (if id ∈ fp.stepIds then fp.stepDone result error else fp)
        split
        · next hmem =>
            refine ⟨h.1, ?_⟩
            show fp.doneSteps + 1 = fp.stepIds.countP _
            rw [hsee, countP_or_eq hnodup hmem hdone, h.2]
        · next hnot =>
            refine ⟨h.1, ?_⟩
            rw [hsee, h.2]
            refine List.countP_congr fun x hx => ?_
            have hne : x ≠ id := fun heq => hnot (heq ▸ hx)
            simp [hne]
    | _ => exact h

/-- A folder transfer is running just if it is not canceled and a step is under way. -/
theorem isRunning_iff {m : StepRecord} {fp : FolderProgress} (h : CountsSteps m fp) :
    fp.isRunning = true ↔ fp.canceled = false ∧ stepUnderWay m fp = true := by
  have hcount : fp.doneSteps < fp.steps ↔ stepUnderWay m fp = true := by
    rw [h.1, h.2, List.countP_eq_length_filter, List.length_filter_lt_length_iff_exists,
      stepUnderWay, List.any_eq_true]
    simp
  rw [FolderProgress.isRunning, Bool.and_eq_true, decide_eq_true_iff, hcount]
  simp

/-! ### Open folder transfers -/

variable {v : FolderRows} {f : Nat}

/-- An open folder transfer was open before the step. -/
theorem goesOn_of_move {step : TransferRun.Step} (hf : f < v.made)
    (h : goesOn ((v.move step).folders f) = true) : goesOn (v.folders f) = true := by
  -- If a change opens no row, then neither does the update of one row,
  have hupdate : ∀ (g : Nat) (u : FolderProgress → FolderProgress),
      (∀ fp, goesOn (u fp) = true → goesOn fp = true) →
        goesOn ((v.update g u).folders f) = true → goesOn (v.folders f) = true := by
    intro g u hu hopen
    have hopen : goesOn (Function.update v.folders g (u (v.folders g)) f) = true := hopen
    by_cases hfg : f = g
    · subst hfg
      rw [Function.update_self] at hopen
      exact hu _ hopen
    · rwa [Function.update_of_ne hfg] at hopen
  -- nor that of the row which a step belongs to.
  have hsteps : ∀ (id : TaskId) (u : FolderProgress → FolderProgress),
      (∀ fp, goesOn (u fp) = true → goesOn fp = true) →
        goesOn ((v.updateStep id u).folders f) = true → goesOn (v.folders f) = true := by
    intro id u hu hopen
    rcases updateStep_cases v id u with ⟨heq, -⟩ | ⟨g, -, -, heq⟩
    · rwa [heq] at hopen
    · rw [heq] at hopen
      exact hupdate g u hu hopen
  cases step with
  | call c =>
      cases c with
      | newAggregate kind label totalBytes =>
          have hne : f ≠ v.made := Nat.ne_of_lt hf
          have h : goesOn (Function.update v.folders v.made _ f) = true := h
          rwa [Function.update_of_ne hne] at h
      | folderStep g name total id =>
          refine hupdate g _ (fun fp hopen => ?_) h
          split at hopen
          · exact hopen
          · exact hopen
      | stepFailed g => exact hupdate g FolderRows.failed (fun fp hopen => hopen) h
      | closeAggregate g =>
          refine hupdate g FolderRows.closed (fun fp hopen => ?_) h
          cases hopen
      | cancel taskId =>
          have h : goesOn (if _ then _ else _) = true := h
          split at h
          · simp [goesOn] at h
          · exact h
      | _ => exact h
  | event e =>
      cases e with
      | ftProgress id transferred =>
          refine hsteps id _ (fun fp hopen => ?_) h
          unfold FolderProgress.stepProgress at hopen
          dsimp only at hopen
          split at hopen
          · exact hopen
          · exact hopen
      | ftDone id result transferred error =>
          exact hsteps id (fun fp => fp.stepDone result error) (fun fp hopen => hopen) h
      | _ => exact h
  | goesOn id => exact h
  | timeout id => exact h

/-- What was made and shown before a step is shown after it, unless it is cleared. -/
theorem shown_of_move {step : TransferRun.Step} (hf : f ∈ v.shown)
    (hclear : step = .call .clearFinished → (v.folders f).isRunning = true) :
    f ∈ (v.move step).shown := by
  cases step with
  | call c =>
      cases c with
      | newAggregate kind label totalBytes => exact List.mem_append_left _ hf
      | clearFinished => exact List.mem_filter.mpr ⟨hf, hclear rfl⟩
      | _ => exact hf
  | event e =>
      rw [shown_of_event]
      exact hf
  | goesOn id => exact hf
  | timeout id => exact hf

/-- What was made by a step was made before, or it is a new row. -/
theorem made_of_move {step : TransferRun.Step} (hf : f < (v.move step).made) :
    f < v.made ∨ f ∈ (v.move step).shown := by
  cases step with
  | call c =>
      rcases made_of_call (v := v) c with hmade | ⟨kind, label, totalBytes, -, heq⟩
      · exact .inl (hmade ▸ hf)
      · rw [heq] at hf ⊢
        rcases Nat.lt_succ_iff_lt_or_eq.mp hf with hlt | rfl
        · exact .inl hlt
        · exact .inr (List.mem_append_right _ (List.mem_singleton_self _))
  | event e =>
      rw [made_of_event] at hf
      exact .inl hf
  | goesOn id => exact .inl hf
  | timeout id => exact .inl hf

/-- The runs of the condition. -/
abbrev OpenRun (p : TransferRun × StepRecord) : Prop :=
  (TransferRun.system.observed stepObserver).Run
    (fun p step => eachOnce p step = true ∧ keepsOpen p step = true) p

theorem countsSteps_of_run {p : TransferRun × StepRecord} (hrun : OpenRun p) :
    ∀ g ∈ p.1.service.aggregates, CountsSteps p.2 (p.1.service.folders g) :=
  (countsSteps_rule.of_run (fun _ _ h => ⟨h.1, fun _ _ _ _ => trivial⟩) hrun).2

/-- Every open folder transfer has a row. -/
theorem shown_of_openRun {p : TransferRun × StepRecord} (hrun : OpenRun p) :
    ∀ f < p.1.service.foldersMade, goesOn (p.1.service.folders f) = true →
      f ∈ p.1.service.aggregates := by
  refine hrun.invariant_of (P := fun p => ∀ f < p.1.service.foldersMade,
    goesOn (p.1.service.folders f) = true → f ∈ p.1.service.aggregates)
    (fun p hp => countsSteps_of_run hp) ?_ ?_
  · rintro ⟨r, m⟩ ⟨rfl, rfl⟩ f hf
    exact absurd hf (Nat.not_lt_zero f)
  · intro p p' step hcounts _ hshown hok hnext f hf hopen
    have hrows := rows_of_next (System.next_observed hnext).1
    have hf : f < (rowsOf p'.1.service).made := hf
    have hopen : goesOn ((rowsOf p'.1.service).folders f) = true := hopen
    show f ∈ (rowsOf p'.1.service).shown
    rw [hrows] at hf hopen ⊢
    rcases made_of_move hf with hold | hnew
    · have hopenOld := goesOn_of_move hold hopen
      refine shown_of_move (hshown f hold hopenOld) ?_
      -- The row stays because a step is under way.
      rintro rfl
      have hstep := List.all_eq_true.mp hok.2 f (List.mem_range.mpr hold)
      have hopenOld' : goesOn (p.1.service.folders f) = true := hopenOld
      rw [hopenOld', Bool.not_true, Bool.false_or] at hstep
      refine (isRunning_iff (hcounts f (hshown f hold hopenOld))).mpr ⟨?_, hstep⟩
      have := (Bool.and_eq_true_iff.mp hopenOld').2
      simpa using this
    · exact hnew

/-- If rows are cleared only while the open folder transfers have steps under way, then these are
shown, and there are active jobs just if something is under way. -/
theorem visible_iff_of_run {p : TransferRun × StepRecord} (hrun : OpenRun p) (f : Nat)
    (hmade : f < p.1.service.foldersMade) (hopen : goesOn (p.1.service.folders f) = true) :
    f ∈ p.1.service.aggregates ∧ (Visible p.1.service f ↔ Busy p) := by
  have hshown := shown_of_openRun hrun f hmade hopen
  have hcounts := countsSteps_of_run hrun
  refine ⟨hshown, ?_⟩
  rw [Visible, and_iff_right hshown, FtTransferService.hasActiveJobs, Bool.or_eq_true, Busy,
    List.any_eq_true, List.any_eq_true]
  refine or_congr ?_ ?_
  · simp only [Bool.and_eq_true]
  · refine exists_congr fun g => and_congr_right fun hg => ?_
    exact isRunning_iff (hcounts g hg)

/-- A folder download starts its first step. -/
theorem visible_first : ∃ p : TransferRun × StepRecord, Busy p ∧
    0 ∈ p.1.service.aggregates ∧ (Visible p.1.service 0 ↔ Busy p) := by
  obtain ⟨p, hrun, hobs⟩ := System.Run.exists_of_exec (TransferRun.system.observed stepObserver)
    (fun p step => eachOnce p step = true ∧ keepsOpen p step = true)
    (fun p step => eachOnce p step && keepsOpen p step)
    [.call (.newAggregate .download "a" 0), .call (.folderStep 0 "x" 10 5), .call .clearFinished]
    (fun p => (p.1.service.foldersMade, goesOn (p.1.service.folders 0), p.1.service.aggregates,
      (p.1.service.folders 0).canceled, stepUnderWay p.2 (p.1.service.folders 0)))
    (s := (⟨.initial, []⟩, stepObserver.start)) (a := (1, true, [0], false, true))
    (fun p step h => by simpa using h) (.start ⟨rfl, rfl⟩) rfl
  simp only [Prod.mk.injEq] at hobs
  obtain ⟨hmade, hopen, hshown, hcanceled, hstep⟩ := hobs
  refine ⟨p, .inr ⟨0, by simp [hshown], hcanceled, hstep⟩, ?_⟩
  exact visible_iff_of_run hrun 0 (by omega) hopen

/-- A folder download whose row is cleared before its first step. -/
theorem not_visible : ¬ ∀ p : TransferRun × StepRecord,
    (TransferRun.system.observed stepObserver).Run (fun p step => eachOnce p step = true) p →
      ∀ f < p.1.service.foldersMade, goesOn (p.1.service.folders f) = true →
        Visible p.1.service f := by
  intro hall
  obtain ⟨p, hrun, hobs⟩ := System.Run.exists_of_exec (TransferRun.system.observed stepObserver)
    (fun p step => eachOnce p step = true) eachOnce
    [.call (.newAggregate .download "a" 0), .call .clearFinished]
    (fun p => (p.1.service.foldersMade, goesOn (p.1.service.folders 0), p.1.service.aggregates))
    (s := (⟨.initial, []⟩, stepObserver.start)) (a := (1, true, []))
    (fun _ _ h => h) (.start ⟨rfl, rfl⟩) rfl
  simp only [Prod.mk.injEq] at hobs
  obtain ⟨hmade, hopen, hshown⟩ := hobs
  have := (hall p hrun 0 (by omega) hopen).1
  rw [hshown] at this
  exact absurd this List.not_mem_nil

end Nek0.Proofs.Dart
