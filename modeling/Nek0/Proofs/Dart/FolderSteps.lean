import Nek0.Lib.Observer
import Nek0.Proofs.Dart.FolderRows
import Nek0.Proofs.Dart.WaitOutcomes

/-!
# `Nek0.Proofs.Dart.FolderSteps`: the steps of a folder transfer

A folder transfer that is shown has seen all that happened to its steps: it is shown from its
beginning, and never comes back when it was dropped. So its counters can be compared with the
`ft_progress` and `ft_done` events that were handled. `StepRecord` notes these.

`stepped_of_run` says that no task is a step of two folder transfers. From this,
`folder_of_event` and `folder_of_call` say what a step does to a folder transfer that is shown, and
`shown_of_run` is the rule for its invariants.
-/

set_option autoImplicit false

namespace Nek0.Proofs.Dart

open Nek0.Lib
open Nek0.Dart
open Nek0.Native (TaskId TransferKind TsEvent)

/-- What is noted of a run. -/
structure StepRecord where
  /-- The tasks that the calls were given. -/
  given : List TaskId
  /-- The `ft_progress` events. -/
  progress : List (TaskId × UInt64)
  /-- The `ft_done` events, with the bytes transferred. -/
  finals : List (TaskId × UInt64)

namespace StepRecord

/-- Notes an event. -/
def seeEvent (m : StepRecord) : TsEvent → StepRecord
  | .ftProgress id transferred => { m with progress := m.progress ++ [(id, transferred)] }
  | .ftDone id _ transferred _ => { m with finals := m.finals ++ [(id, transferred)] }
  | _ => m

/-- Notes a call. -/
def seeCall (m : StepRecord) (c : FtTransferService.Call) : StepRecord :=
  { m with given := m.given ++ waitsFor c }

/-- Was the `ft_done` event of the task handled? -/
def isDone (m : StepRecord) (id : TaskId) : Bool := (m.finals.lookup id).isSome

/-- Nothing is known of the task. -/
def isNew (m : StepRecord) (id : TaskId) : Bool :=
  !m.given.contains id && !(m.progress.any fun e => e.1 == id) && (m.finals.lookup id).isNone

end StepRecord

/-- Notes the calls and the events. -/
def stepObserver : Observer TransferRun TransferRun.Step StepRecord where
  start := { given := [], progress := [], finals := [] }
  see := fun step _ m =>
    match step with
    | .call c => m.seeCall c
    | .event e => m.seeEvent e
    | .goesOn _ => m
    | .timeout _ => m

/-- Each transfer has a task id of its own, no events before its start, and one `ft_done` event. -/
def eachOnce (p : TransferRun × StepRecord) : TransferRun.Step → Bool
  | .call c => (waitsFor c).all p.2.isNew
  | .event (.ftDone id _ _ _) => !p.2.isDone id
  | _ => true

/-- What an event does to a folder transfer that is shown. -/
def onEvent (fp : FolderProgress) : TsEvent → FolderProgress
  | .ftProgress id transferred =>
    if id ∈ fp.stepIds then fp.stepProgress id transferred else fp
  | .ftDone id ok _ error => if id ∈ fp.stepIds then fp.stepDone ok error else fp
  | _ => fp

/-- The steps and the counters are the same. -/
structure SameSteps (fp fp' : FolderProgress) : Prop where
  stepIds : fp'.stepIds = fp.stepIds
  steps : fp'.steps = fp.steps
  doneSteps : fp'.doneSteps = fp.doneSteps
  transferredBytes : fp'.transferredBytes = fp.transferredBytes
  stepSeen : fp'.stepSeen = fp.stepSeen

/-- The steps of the folder transfers. -/
structure Stepped (v : FolderRows) (m : StepRecord) : Prop where
  listed : Listed v
  given : ∀ f < v.made, ∀ id ∈ (v.folders f).stepIds, id ∈ m.given
  nodup : ∀ f < v.made, (v.folders f).stepIds.Nodup
  apart : ∀ f < v.made, ∀ g < v.made, ∀ id ∈ (v.folders f).stepIds,
    id ∈ (v.folders g).stepIds → f = g

variable {v : FolderRows} {m : StepRecord} {f : Nat}

theorem SameSteps.refl (fp : FolderProgress) : SameSteps fp fp := ⟨rfl, rfl, rfl, rfl, rfl⟩

/-! ### What a step does to a folder transfer -/

/-- An event comes to the folder transfer that has the step. -/
theorem folder_of_event (h : Stepped v m) (hf : f ∈ v.shown) (e : TsEvent) :
    (v.move (.event e)).folders f = onEvent (v.folders f) e := by
  have hupdate : ∀ (id : TaskId) (u : FolderProgress → FolderProgress),
      (v.updateStep id u).folders f = if id ∈ (v.folders f).stepIds then u (v.folders f)
        else v.folders f := by
    intro id u
    rcases updateStep_cases v id u with ⟨heq, hnone⟩ | ⟨g, hg, hid, heq⟩
    · rw [heq, if_neg (hnone f hf)]
    · rw [heq]
      show Function.update v.folders g (u (v.folders g)) f = _
      by_cases hfg : f = g
      · subst hfg
        rw [Function.update_self, if_pos hid]
      · rw [Function.update_of_ne hfg, if_neg]
        exact fun hid' => hfg (h.apart f (h.listed.made f hf) g (h.listed.made g hg) id hid' hid)
  cases e with
  | ftProgress id transferred => exact hupdate id _
  | ftDone id ok transferred error => exact hupdate id _
  | _ => rfl

/-- A call starts a step of the folder transfer, or leaves its steps. -/
theorem folder_of_call (c : FtTransferService.Call) (hf : f < v.made) :
    SameSteps (v.folders f) ((v.move (.call c)).folders f) ∨
      ∃ name total id, id ≠ 0 ∧ c = .folderStep f name total id ∧
        (v.move (.call c)).folders f = FolderRows.started id (v.folders f) := by
  -- An update of a row that keeps its steps keeps those of every row.
  have hupdate : ∀ (g : Nat) (u : FolderProgress → FolderProgress),
      (∀ fp, SameSteps fp (u fp)) → SameSteps (v.folders f) ((v.update g u).folders f) := by
    intro g u hu
    show SameSteps (v.folders f) (Function.update v.folders g (u (v.folders g)) f)
    by_cases hfg : f = g
    · subst hfg
      rw [Function.update_self]
      exact hu _
    · rw [Function.update_of_ne hfg]
      exact SameSteps.refl _
  cases c with
  | newAggregate kind label totalBytes =>
      left
      show SameSteps (v.folders f) (Function.update v.folders v.made _ f)
      rw [Function.update_of_ne (Nat.ne_of_lt hf)]
      exact SameSteps.refl _
  -- A step that could not be started has the task id 0, and is counted as failed.
  | folderStep g name total id =>
      by_cases hid : id = 0
      · left
        show SameSteps (v.folders f) ((v.update g (if id = 0 then FolderRows.failed
          else FolderRows.started id)).folders f)
        rw [if_pos hid]
        exact hupdate g _ fun fp => ⟨rfl, rfl, rfl, rfl, rfl⟩
      · show _ ∨ ∃ name' total' id', _
        by_cases hfg : f = g
        · subst hfg
          refine .inr ⟨name, total, id, hid, rfl, ?_⟩
          show Function.update v.folders f ((if id = 0 then FolderRows.failed
            else FolderRows.started id) (v.folders f)) f = _
          rw [Function.update_self, if_neg hid]
        · left
          show SameSteps (v.folders f) (Function.update v.folders g _ f)
          rw [Function.update_of_ne hfg]
          exact SameSteps.refl _
  | stepFailed g => exact .inl (hupdate g _ fun fp => ⟨rfl, rfl, rfl, rfl, rfl⟩)
  | closeAggregate g => exact .inl (hupdate g _ fun fp => ⟨rfl, rfl, rfl, rfl, rfl⟩)
  | cancel taskId =>
      left
      show SameSteps (v.folders f) (if _ then _ else _)
      split
      · exact ⟨rfl, rfl, rfl, rfl, rfl⟩
      · exact SameSteps.refl _
  | _ => exact .inl (SameSteps.refl _)

/-- Only `newAggregate` makes a row. -/
theorem made_of_call (c : FtTransferService.Call) :
    (v.move (.call c)).made = v.made ∨
      ∃ kind label totalBytes, c = .newAggregate kind label totalBytes ∧
      v.move (.call c) = v.add kind label totalBytes := by
  cases c with
  | newAggregate kind label totalBytes => exact .inr ⟨kind, label, totalBytes, rfl, rfl⟩
  | _ => exact .inl rfl

/-- A folder transfer that was made is an old one, or it has just begun. -/
theorem folder_cases (c : FtTransferService.Call) (hf : f < (v.move (.call c)).made) :
    f < v.made ∨ ∃ kind label totalBytes row,
      (v.move (.call c)).folders f = .new kind label totalBytes row := by
  rcases made_of_call (v := v) c with hmade | ⟨kind, label, totalBytes, -, heq⟩
  · exact .inl (hmade ▸ hf)
  · rw [heq] at hf ⊢
    rcases Nat.lt_succ_iff_lt_or_eq.mp hf with hlt | rfl
    · exact .inl hlt
    · exact .inr ⟨kind, label, totalBytes, _, add_folders_made kind label totalBytes⟩

/-- A step of a folder transfer was one before the call, or the call starts it. -/
theorem stepIds_of_call (c : FtTransferService.Call) (hf : f < (v.move (.call c)).made)
    {id : TaskId}
    (hid : id ∈ ((v.move (.call c)).folders f).stepIds) :
    f < v.made ∧ (id ∈ (v.folders f).stepIds ∨
      ∃ name total, id ≠ 0 ∧ c = .folderStep f name total id) := by
  rcases folder_cases c hf with hlt | ⟨kind, label, totalBytes, row, hnew⟩
  · refine ⟨hlt, ?_⟩
    rcases folder_of_call c hlt with hsame | ⟨name, total, id', hne, rfl, hstarted⟩
    · exact .inl (hsame.stepIds ▸ hid)
    · rw [hstarted] at hid
      rcases List.mem_append.mp hid with hid | hid
      · exact .inl hid
      · rw [List.mem_singleton.mp hid]
        exact .inr ⟨name, total, hne, rfl⟩
  · rw [hnew] at hid
    exact absurd hid List.not_mem_nil

theorem isNew_iff {id : TaskId} : m.isNew id = true ↔
    id ∉ m.given ∧ (∀ e ∈ m.progress, e.1 ≠ id) ∧ m.isDone id = false := by
  simp [StepRecord.isNew, StepRecord.isDone, and_assoc]

/-- A call keeps the rows in step with the record. -/
theorem Stepped.call (h : Stepped v m) (c : FtTransferService.Call)
    (hnew : ∀ id ∈ waitsFor c, m.isNew id = true) : Stepped (v.move (.call c)) (m.seeCall c) := by
  have hstarts : ∀ {f name total id}, id ≠ 0 → c = .folderStep f name total id → id ∉ m.given ∧
      id ∈ waitsFor c := by
    rintro f name total id hne rfl
    have hmem : id ∈ waitsFor (.folderStep f name total id) := by simp [waitsFor, hne]
    exact ⟨(isNew_iff.mp (hnew id hmem)).1, hmem⟩
  refine ⟨h.listed.move _, ?_, ?_, ?_⟩
  -- Every id of a step was handed out.
  · intro f hf id hid
    obtain ⟨hlt, hold | ⟨name, total, hne, hc⟩⟩ := stepIds_of_call c hf hid
    · exact List.mem_append_left _ (h.given f hlt id hold)
    · exact List.mem_append_right _ (hstarts hne hc).2
  -- No folder has an id twice, since a step that starts has a new one.
  · intro f hf
    rcases folder_cases c hf with hlt | ⟨kind, label, totalBytes, row, hbegun⟩
    · rcases folder_of_call c hlt with hsame | ⟨name, total, id, hne, hc, hstarted⟩
      · rw [hsame.stepIds]
        exact h.nodup f hlt
      · rw [hstarted]
        refine List.nodup_append.mpr ⟨h.nodup f hlt, List.nodup_singleton _, fun a ha b hb => ?_⟩
        rw [List.mem_singleton.mp hb]
        rintro rfl
        exact (hstarts hne hc).1 (h.given f hlt a ha)
    · rw [hbegun]
      exact List.nodup_nil
  -- And no two folders have one in common.
  · intro f hf g hg id hidf hidg
    obtain ⟨hltf, holdf⟩ := stepIds_of_call c hf hidf
    obtain ⟨hltg, holdg⟩ := stepIds_of_call c hg hidg
    -- Each of the two had the id before, or has just started it. Both cannot have started it anew.
    rcases holdf with holdf | ⟨name, total, hne, hc⟩
    · rcases holdg with holdg | ⟨name, total, hne, hc⟩
      · exact h.apart f hltf g hltg id holdf holdg
      · exact absurd (h.given f hltf id holdf) (hstarts hne hc).1
    · rcases holdg with holdg | ⟨name', total', hne', hc'⟩
      · exact absurd (h.given g hltg id holdg) (hstarts hne hc).1
      · rw [hc] at hc'
        exact (FtTransferService.Call.folderStep.inj hc').1

/-- Progress adds no step. -/
theorem stepIds_stepProgress (fp : FolderProgress) (id : TaskId) (transferred : UInt64) :
    (fp.stepProgress id transferred).stepIds = fp.stepIds := by
  unfold FolderProgress.stepProgress
  dsimp only
  split <;> rfl

/-- No event changes the steps. -/
theorem stepIds_of_event (e : TsEvent) (g : Nat) :
    ((v.move (.event e)).folders g).stepIds = (v.folders g).stepIds := by
  cases e with
  | ftProgress id transferred =>
      exact updateStep_field FolderProgress.stepIds _ id g fun fp => stepIds_stepProgress fp id _
  | ftDone id ok transferred error =>
      exact updateStep_field FolderProgress.stepIds _ id g fun fp => rfl
  | _ => rfl

/-- An event makes no row. -/
theorem made_of_event (e : TsEvent) : (v.move (.event e)).made = v.made := by
  cases e with
  | ftProgress id transferred => exact updateStep_made _ _
  | ftDone id ok transferred error => exact updateStep_made _ _
  | _ => rfl

/-- And it shows none. -/
theorem shown_of_event (e : TsEvent) : (v.move (.event e)).shown = v.shown := by
  cases e with
  | ftProgress id transferred => exact updateStep_shown _ _
  | ftDone id ok transferred error => exact updateStep_shown _ _
  | _ => rfl

/-- An event keeps the rows in step with the record. -/
theorem Stepped.event (h : Stepped v m) (e : TsEvent) :
    Stepped (v.move (.event e)) (m.seeEvent e) := by
  have hgiven : (m.seeEvent e).given = m.given := by
    cases e <;> rfl
  refine ⟨h.listed.move _, ?_, ?_, ?_⟩
  · intro f hf id hid
    rw [made_of_event] at hf
    rw [stepIds_of_event] at hid
    exact hgiven ▸ h.given f hf id hid
  · intro f hf
    rw [made_of_event] at hf
    rw [stepIds_of_event]
    exact h.nodup f hf
  · intro f hf g hg id hidf hidg
    rw [made_of_event] at hf hg
    rw [stepIds_of_event] at hidf hidg
    exact h.apart f hf g hg id hidf hidg

/-! ### Invariants of the folder transfers that are shown -/

/-- What makes `Q` an invariant of the folder transfers that are shown, if `ok` holds of the events.
-/
structure StepRule (ok : StepRecord → FolderProgress → TsEvent → Prop)
    (Q : StepRecord → FolderProgress → Prop) : Prop where
  new : ∀ m kind label totalBytes row, Q m (.new kind label totalBytes row)
  same : ∀ m m' fp fp', m'.progress = m.progress → m'.finals = m.finals → SameSteps fp fp' →
    Q m fp → Q m' fp'
  started : ∀ m fp id, m.isNew id = true → id ∉ fp.stepIds → Q m fp →
    Q m (FolderRows.started id fp)
  event : ∀ m fp e, fp.stepIds.Nodup → (∀ id ok n error, e = .ftDone id ok n error →
    m.isDone id = false) → ok m fp e → Q m fp → Q (m.seeEvent e) (onEvent fp e)

variable {ok : StepRecord → FolderProgress → TsEvent → Prop}
  {Q : StepRecord → FolderProgress → Prop}

/-- A row that a call shows was shown before, or is the one it has made. -/
theorem shown_of_call {c : FtTransferService.Call} (hf : f ∈ (v.move (.call c)).shown) :
    f ∈ v.shown ∨ ∃ kind label totalBytes row,
      (v.move (.call c)).folders f = .new kind label totalBytes row := by
  cases c with
  | newAggregate kind label totalBytes =>
      rcases List.mem_append.mp hf with hf | hf
      · exact .inl hf
      · rw [List.mem_singleton.mp hf]
        exact .inr ⟨kind, label, totalBytes, _, add_folders_made kind label totalBytes⟩
  | clearFinished => exact .inl (List.mem_filter.mp hf).1
  | _ => exact .inl hf

/-- A call keeps what the rule keeps, for each row that is shown. -/
theorem StepRule.call (hrule : StepRule ok Q) (h : Stepped v m)
    (hshown : ∀ f ∈ v.shown, Q m (v.folders f)) (c : FtTransferService.Call)
    (hnew : ∀ id ∈ waitsFor c, m.isNew id = true) :
    ∀ f ∈ (v.move (.call c)).shown, Q (m.seeCall c) ((v.move (.call c)).folders f) := by
  intro f hf
  rcases shown_of_call hf with hf | ⟨kind, label, totalBytes, row, hbegun⟩
  · have hlt := h.listed.made f hf
    rcases folder_of_call c hlt with hsame | ⟨name, total, id, hne, rfl, hstarted⟩
    · exact hrule.same m _ _ _ rfl rfl hsame (hshown f hf)
    · have hid : m.isNew id = true := hnew id (by simp [waitsFor, hne])
      have hnotMem : id ∉ (v.folders f).stepIds := fun hmem =>
        (isNew_iff.mp hid).1 (h.given f hlt id hmem)
      rw [hstarted]
      exact hrule.same m _ _ _ rfl rfl (SameSteps.refl _)
        (hrule.started m _ id hid hnotMem (hshown f hf))
  · rw [hbegun]
    exact hrule.new _ _ _ _ _

/-- So does an event. -/
theorem StepRule.onEvent (hrule : StepRule ok Q) (h : Stepped v m)
    (hshown : ∀ f ∈ v.shown, Q m (v.folders f)) (e : TsEvent)
    (honce : ∀ id ok n error, e = .ftDone id ok n error → m.isDone id = false)
    (hok : ∀ f ∈ v.shown, ok m (v.folders f) e) :
    ∀ f ∈ (v.move (.event e)).shown, Q (m.seeEvent e) ((v.move (.event e)).folders f) := by
  intro f hf
  rw [shown_of_event] at hf
  rw [folder_of_event h hf]
  exact hrule.event m _ e (h.nodup f (h.listed.made f hf)) honce (hok f hf) (hshown f hf)

/-- One step. -/
theorem StepRule.step (hrule : StepRule ok Q) {p p' : TransferRun × StepRecord}
    {step : TransferRun.Step} (h : Stepped (rowsOf p.1.service) p.2)
    (hshown : ∀ f ∈ p.1.service.aggregates, Q p.2 (p.1.service.folders f))
    (honce : eachOnce p step = true)
    (hok : ∀ e, step = .event e → ∀ f ∈ p.1.service.aggregates, ok p.2 (p.1.service.folders f) e)
    (hnext : (TransferRun.system.observed stepObserver).next step p = some p') :
    Stepped (rowsOf p'.1.service) p'.2 ∧
      ∀ f ∈ p'.1.service.aggregates, Q p'.2 (p'.1.service.folders f) := by
  obtain ⟨hstep, hsee⟩ := System.next_observed hnext
  have hrows := rows_of_next hstep
  have hgoal : ∀ v' : FolderRows, rowsOf p'.1.service = v' → (Stepped v' p'.2 ∧
      ∀ f ∈ v'.shown, Q p'.2 (v'.folders f)) → Stepped (rowsOf p'.1.service) p'.2 ∧
        ∀ f ∈ p'.1.service.aggregates, Q p'.2 (p'.1.service.folders f) := by
    rintro v' rfl h
    exact h
  refine hgoal _ hrows ?_
  rw [hsee]
  cases step with
  | call c =>
      have hnew : ∀ id ∈ waitsFor c, p.2.isNew id = true := fun id => List.all_eq_true.mp honce id
      exact ⟨h.call c hnew, hrule.call h hshown c hnew⟩
  | event e =>
      refine ⟨h.event e, hrule.onEvent h hshown e ?_ (hok e rfl)⟩
      rintro id ok n error rfl
      simpa [eachOnce] using honce
  | goesOn id => exact ⟨h, hshown⟩
  | timeout id => exact ⟨h, hshown⟩

/-- The rule for the invariants of the folder transfers that are shown. -/
theorem StepRule.of_run (hrule : StepRule ok Q)
    {okStep : TransferRun × StepRecord → TransferRun.Step → Prop}
    (hok : ∀ p step, okStep p step → eachOnce p step = true ∧
      ∀ e, step = .event e → ∀ f ∈ p.1.service.aggregates, ok p.2 (p.1.service.folders f) e)
    {p : TransferRun × StepRecord}
    (hrun : (TransferRun.system.observed stepObserver).Run okStep p) :
    Stepped (rowsOf p.1.service) p.2 ∧
      ∀ f ∈ p.1.service.aggregates, Q p.2 (p.1.service.folders f) := by
  refine hrun.invariant (P := fun p => Stepped (rowsOf p.1.service) p.2 ∧
    ∀ f ∈ p.1.service.aggregates, Q p.2 (p.1.service.folders f)) ?_ ?_
  · rintro ⟨r, m⟩ ⟨rfl, rfl⟩
    refine ⟨⟨⟨List.nodup_nil, ?_⟩, ?_, ?_, ?_⟩, ?_⟩
    · intro f hf
      exact absurd hf List.not_mem_nil
    · intro f hf
      exact absurd hf (Nat.not_lt_zero f)
    · intro f hf
      exact absurd hf (Nat.not_lt_zero f)
    · intro f hf
      exact absurd hf (Nat.not_lt_zero f)
    · intro f hf
      exact absurd hf List.not_mem_nil
  · intro p p' step h hstep hnext
    obtain ⟨honce, hevent⟩ := hok p step hstep
    exact hrule.step h.1 h.2 honce hevent hnext

/-- After an `ft_done` event, one more task is done. -/
theorem isDone_seeEvent (id x : TaskId) (result : Bool) (n : UInt64) (error : Option String) :
    (m.seeEvent (.ftDone id result n error)).isDone x = (m.isDone x || x == id) := by
  show ((m.finals ++ [(id, n)]).lookup x).isSome = ((m.finals.lookup x).isSome || x == id)
  rw [List.lookup_append]
  cases m.finals.lookup x with
  | some w => rfl
  | none =>
      by_cases hx : x = id
      · subst hx
        simp
      · simp [List.lookup, beq_eq_false_iff_ne.mpr hx]

end Nek0.Proofs.Dart
