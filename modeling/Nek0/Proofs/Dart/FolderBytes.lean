import Nek0.Proofs.Dart.FolderSteps

/-!
# `Nek0.Proofs.Dart.FolderBytes`: the bytes of a folder transfer

`_onProgress` adds to a folder transfer by how much a step is above its highest progress so far. The
final value of a step comes in its `ft_done` event, and `_onDone` does not look at it. Progress
events are throttled, so the last bytes of a step need not have been reported (`not_addsUp`).

`reports` is the condition that they have: the final value of a step is its highest progress, and no
later progress is higher. In a run under this condition the bytes of a folder transfer add up
(`addsUp_of_run`): each step counts once, with its final value when it is done and with its highest
progress before.
-/

set_option autoImplicit false

namespace Nek0.Proofs.Dart

open Nek0.Lib
open Nek0.Dart
open Nek0.Native (TaskId TransferKind TsEvent)

/-- The highest progress of the task. -/
def highest (m : StepRecord) (id : TaskId) : Nat :=
  ((m.progress.filter fun e => e.1 == id).map fun e => e.2.toNat).foldl max 0

/-- What the step counts: its final value, if it is done. -/
def counted (m : StepRecord) (id : TaskId) : Nat :=
  ((m.finals.lookup id).map UInt64.toNat).getD (highest m id)

/-- The bytes of a folder transfer add up. -/
structure AddsUp (m : StepRecord) (fp : FolderProgress) : Prop where
  counts : fp.transferredBytes = (fp.stepIds.map (counted m)).sum
  total : (∀ id ∈ fp.stepIds, m.isDone id = true) →
    fp.transferredBytes = (fp.stepIds.map fun id => ((m.finals.lookup id).getD 0).toNat).sum

/-- What an event says of a step agrees with its progress events. -/
def reports (m : StepRecord) (fp : FolderProgress) : TsEvent → Bool
  | .ftProgress id transferred =>
      !fp.stepIds.contains id || !m.isDone id || decide (transferred.toNat ≤ highest m id)
  | .ftDone id _ transferred _ => !fp.stepIds.contains id || transferred.toNat == highest m id
  | _ => true

/-- The events agree for each folder transfer that is shown. -/
def reportsAll (p : TransferRun × StepRecord) : TransferRun.Step → Bool
  | .event e => p.1.service.aggregates.all fun f => reports p.2 (p.1.service.folders f) e
  | _ => true

/-! ### The sums -/

/-- One summand grows. -/
theorem sum_map_add {α : Type} {l : List α} {g g' : α → Nat} {a : α} {d : Nat} (hnodup : l.Nodup)
    (hmem : a ∈ l) (ha : g' a = g a + d) (hother : ∀ b, b ≠ a → g' b = g b) :
    (l.map g').sum = (l.map g).sum + d := by
  induction l with
  | nil => cases hmem
  | cons b l ih =>
      obtain ⟨hb, hl⟩ := List.nodup_cons.mp hnodup
      rw [List.map_cons, List.map_cons, List.sum_cons, List.sum_cons]
      rcases List.mem_cons.mp hmem with rfl | hmem
      · have hrest : l.map g' = l.map g :=
          List.map_congr_left fun x hx => hother x fun h => hb (h ▸ hx)
        rw [hrest, ha]
        omega
      · have hne : b ≠ a := fun h => hb (h ▸ hmem)
        rw [ih hl hmem, hother b hne]
        omega

variable {m : StepRecord}

/-- A report raises what is highest for its task, and for no other. -/
theorem highest_seeProgress (id x : TaskId) (n : UInt64) :
    highest (m.seeEvent (.ftProgress id n)) x =
      if x = id then max (highest m id) n.toNat else highest m x := by
  show (((m.progress ++ [(id, n)]).filter fun e => e.1 == x).map fun e => e.2.toNat).foldl max 0 =
    _
  rw [List.filter_append, List.map_append, List.foldl_append]
  by_cases hx : x = id
  · subst hx
    rw [if_pos rfl]
    simp [highest]
  · have hne : (id == x) = false := beq_eq_false_iff_ne.mpr (Ne.symm hx)
    rw [if_neg hx]
    simp [highest, hne]

/-- A task without reports has nothing. -/
theorem highest_eq_zero {id : TaskId} (h : ∀ e ∈ m.progress, e.1 ≠ id) : highest m id = 0 := by
  have hnil : m.progress.filter (fun e => e.1 == id) = [] :=
    List.filter_eq_nil_iff.mpr fun e he heq => h e he (eq_of_beq heq)
  rw [highest, hnil]
  rfl

/-! ### What is seen of the steps -/

/-- What a folder transfer has seen of its steps. -/
structure SeesSteps (m : StepRecord) (fp : FolderProgress) : Prop where
  seen : ∀ id ∈ fp.stepIds, ((fp.stepSeen.lookup id).getD 0).toNat = highest m id
  unseen : ∀ id, id ∉ fp.stepIds → fp.stepSeen.lookup id = none
  bytes : fp.transferredBytes = (fp.stepIds.map (highest m)).sum
  finals : ∀ id ∈ fp.stepIds, ∀ w, m.finals.lookup id = some w → w.toNat = highest m id

/-- A row that changes neither its steps nor its counts keeps in step with the reports. -/
theorem SeesSteps.same {m' : StepRecord} {fp fp' : FolderProgress}
    (hprogress : m'.progress = m.progress) (hfinals : m'.finals = m.finals)
    (hsame : SameSteps fp fp') (h : SeesSteps m fp) : SeesSteps m' fp' := by
  have hhighest : highest m' = highest m := by
    funext id
    rw [highest, hprogress]
    rfl
  refine ⟨?_, ?_, ?_, ?_⟩
  · rw [hsame.stepIds, hsame.stepSeen, hhighest]
    exact h.seen
  · rw [hsame.stepIds, hsame.stepSeen]
    exact h.unseen
  · rw [hsame.stepIds, hsame.transferredBytes, hhighest]
    exact h.bytes
  · rw [hsame.stepIds, hfinals, hhighest]
    exact h.finals

/-- A step that is started has no reports yet. -/
theorem SeesSteps.started {fp : FolderProgress} {id : TaskId} (hnew : m.isNew id = true)
    (hnot : id ∉ fp.stepIds) (h : SeesSteps m fp) : SeesSteps m (FolderRows.started id fp) := by
  obtain ⟨-, hprogress, hdone⟩ := isNew_iff.mp hnew
  have hzero : highest m id = 0 := highest_eq_zero hprogress
  refine ⟨?_, ?_, ?_, ?_⟩
  · intro x hx
    show ((fp.stepSeen.lookup x).getD 0).toNat = highest m x
    rcases List.mem_append.mp hx with hx | hx
    · exact h.seen x hx
    · rw [List.mem_singleton.mp hx, h.unseen id hnot, hzero]
      rfl
  · intro x hx
    exact h.unseen x fun hmem => hx (List.mem_append_left _ hmem)
  · show fp.transferredBytes = ((fp.stepIds ++ [id]).map (highest m)).sum
    rw [List.map_append, List.sum_append, h.bytes]
    simp [hzero]
  · intro x hx w hw
    rcases List.mem_append.mp hx with hx | hx
    · exact h.finals x hx w hw
    · rw [List.mem_singleton.mp hx] at hw
      rw [StepRecord.isDone, hw] at hdone
      cases hdone

/-- Progress that changes no highest value of the steps changes nothing. -/
theorem SeesSteps.unchanged {m' : StepRecord} {fp : FolderProgress} (h : SeesSteps m fp)
    (hhighest : ∀ x ∈ fp.stepIds, highest m' x = highest m x) (hfinals : m'.finals = m.finals) :
    SeesSteps m' fp := by
  refine ⟨fun x hx => ?_, h.unseen, ?_, fun x hx w hw => ?_⟩
  · rw [hhighest x hx]
    exact h.seen x hx
  · rw [h.bytes]
    exact congrArg List.sum (List.map_congr_left fun x hx => (hhighest x hx).symm)
  · rw [hhighest x hx]
    exact h.finals x hx w (hfinals ▸ hw)

/-- A report of progress moves the row as it moves the record. -/
theorem SeesSteps.progress {fp : FolderProgress} {id : TaskId} {n : UInt64}
    (hnodup : fp.stepIds.Nodup) (hreports : reports m fp (.ftProgress id n) = true)
    (h : SeesSteps m fp) :
    SeesSteps (m.seeEvent (.ftProgress id n)) (onEvent fp (.ftProgress id n)) := by
  have hother : ∀ x, x ≠ id → highest (m.seeEvent (.ftProgress id n)) x = highest m x := by
    intro x hx
    rw [highest_seeProgress, if_neg hx]
  have hself : highest (m.seeEvent (.ftProgress id n)) id = max (highest m id) n.toNat := by
    rw [highest_seeProgress, if_pos rfl]
  show SeesSteps _ (if id ∈ fp.stepIds then fp.stepProgress id n else fp)
  split
  · next hmem =>
      have hprev := h.seen id hmem
      unfold FolderProgress.stepProgress
      dsimp only
      split
      · next hlt =>
          -- The step is above its highest progress, and so it is not done.
          have hlt' := UInt64.lt_iff_toNat_lt.mp hlt
          have hmax : highest (m.seeEvent (.ftProgress id n)) id = n.toNat := by
            rw [hself]
            omega
          have hnotDone : m.isDone id = false := by
            simp only [reports, List.contains_eq_mem, hmem, decide_true, Bool.not_true,
              Bool.false_or, Bool.or_eq_true, Bool.not_eq_true', decide_eq_true_eq] at hreports
            rcases hreports with hnot | hle
            · exact hnot
            · omega
          refine ⟨?_, ?_, ?_, ?_⟩
          · intro x hx
            by_cases hxid : x = id
            · subst hxid
              rw [List.lookup_cons_self, Option.getD_some, hmax]
            · rw [List.lookup_cons, beq_eq_false_iff_ne.mpr hxid, hother x hxid]
              exact h.seen x hx
          · intro x hx
            have hxid : x ≠ id := fun heq => hx (heq ▸ hmem)
            rw [List.lookup_cons, beq_eq_false_iff_ne.mpr hxid]
            exact h.unseen x hx
          · show fp.transferredBytes + (n - _).toNat = _
            rw [sum_map_add hnodup hmem (d := (n - (fp.stepSeen.lookup id).getD 0).toNat) ?_ hother,
              h.bytes]
            rw [hmax, UInt64.toNat_sub_of_le _ _ (UInt64.le_of_lt hlt), hprev]
            omega
          · intro x hx w hw
            by_cases hxid : x = id
            · subst hxid
              have hw : m.finals.lookup x = some w := hw
              rw [StepRecord.isDone, hw] at hnotDone
              cases hnotDone
            · rw [hother x hxid]
              exact h.finals x hx w hw
      · next hnotLt =>
          have hle : n.toNat ≤ highest m id := by
            have := UInt64.le_iff_toNat_le.mp (UInt64.not_lt.mp hnotLt)
            omega
          refine h.unchanged (fun x _ => ?_) rfl
          by_cases hxid : x = id
          · subst hxid
            rw [hself]
            omega
          · exact hother x hxid
  · next hnot =>
      exact h.unchanged (fun x hx => hother x fun heq => hnot (heq ▸ hx)) rfl

/-- So does the end of a step. -/
theorem SeesSteps.done {fp : FolderProgress} {id : TaskId} {result : Bool} {n : UInt64}
    {error : Option String} (hdone : m.isDone id = false)
    (hreports : reports m fp (.ftDone id result n error) = true) (h : SeesSteps m fp) :
    SeesSteps (m.seeEvent (.ftDone id result n error))
      (onEvent fp (.ftDone id result n error)) := by
  have hsame : SeesSteps (m.seeEvent (.ftDone id result n error)) fp := by
    refine ⟨h.seen, h.unseen, h.bytes, fun x hx w hw => ?_⟩
    have hw : (m.finals ++ [(id, n)]).lookup x = some w := hw
    show w.toNat = highest m x
    rw [List.lookup_append] at hw
    cases hfinal : m.finals.lookup x with
    | some w' =>
        rw [hfinal, Option.some_or, Option.some.injEq] at hw
        exact h.finals x hx w (hw ▸ hfinal)
    | none =>
        -- This is the event of the step itself.
        rw [hfinal, Option.none_or] at hw
        by_cases hxid : x = id
        · subst hxid
          rw [List.lookup_cons_self, Option.some.injEq] at hw
          simpa [reports, hx, hw] using hreports
        · rw [List.lookup_cons, beq_eq_false_iff_ne.mpr hxid] at hw
          cases hw
  show SeesSteps _ (if id ∈ fp.stepIds then fp.stepDone result error else fp)
  split
  · exact ⟨hsame.seen, hsame.unseen, hsame.bytes, hsame.finals⟩
  · exact hsame

/-- So the row is in step with the reports in every run that reports what it should. -/
theorem seesSteps_rule : StepRule (fun m fp e => reports m fp e = true) SeesSteps where
  new _ _ _ _ _ := ⟨fun _ h => absurd h List.not_mem_nil, fun _ _ => rfl, rfl,
    fun _ h => absurd h List.not_mem_nil⟩
  same _ _ _ _ hprogress hfinals hsame h := h.same hprogress hfinals hsame
  started _ _ _ hnew hnot h := h.started hnew hnot
  event m fp e hnodup honce hreports h := by
    cases e with
    | ftProgress id n => exact h.progress hnodup hreports
    | ftDone id result n error => exact h.done (honce id result n error rfl) hreports
    | _ => exact h

/-- So the bytes add up. -/
theorem addsUp_of_seesSteps {fp : FolderProgress} (h : SeesSteps m fp) : AddsUp m fp := by
  have hcounted : ∀ id ∈ fp.stepIds, counted m id = highest m id := by
    intro id hid
    unfold counted
    cases hfinal : m.finals.lookup id with
    | none => rfl
    | some w => exact h.finals id hid w hfinal
  refine ⟨?_, fun hdone => ?_⟩
  · rw [h.bytes]
    exact congrArg List.sum (List.map_congr_left fun id hid => (hcounted id hid).symm)
  · rw [h.bytes]
    refine congrArg List.sum (List.map_congr_left fun id hid => ?_)
    obtain ⟨w, hw⟩ := Option.isSome_iff_exists.mp (hdone id hid)
    rw [hw]
    exact (h.finals id hid w hw).symm

/-- In a run in which the progress events report each step to its end, the bytes of every folder
transfer that is shown add up. -/
theorem addsUp_of_run {p : TransferRun × StepRecord}
    (hrun : (TransferRun.system.observed stepObserver).Run
      (fun p step => eachOnce p step = true ∧ reportsAll p step = true) p) :
    ∀ f ∈ p.1.service.aggregates, AddsUp p.2 (p.1.service.folders f) := by
  have h := seesSteps_rule.of_run ?_ hrun
  · exact fun f hf => addsUp_of_seesSteps (h.2 f hf)
  · rintro p step ⟨honce, hall⟩
    refine ⟨honce, ?_⟩
    rintro e rfl f hf
    exact List.all_eq_true.mp hall f hf

/-- A folder download of one file, and the progress that was reported of its 10 bytes. -/
def downloadsTen (progress : UInt64) : List TransferRun.Step :=
  [.call (.newAggregate .download "a" 10), .call (.folderStep 0 "x" 10 5),
    .event (.ftProgress 5 progress), .event (.ftDone 5 true 10 none)]

/-- All of them. -/
theorem addsUp_ten : ∃ p : TransferRun × StepRecord,
    (∀ f ∈ p.1.service.aggregates, AddsUp p.2 (p.1.service.folders f)) ∧
      (p.1.service.folders 0).transferredBytes = 10 := by
  obtain ⟨p, hrun, hbytes⟩ := System.Run.exists_of_exec (TransferRun.system.observed stepObserver)
    (fun p step => eachOnce p step = true ∧ reportsAll p step = true)
    (fun p step => eachOnce p step && reportsAll p step) (downloadsTen 10)
    (fun p => (p.1.service.folders 0).transferredBytes) (s := (⟨.initial, []⟩, stepObserver.start))
    (a := 10) (fun p step h => by simpa using h) (.start ⟨rfl, rfl⟩) rfl
  exact ⟨p, addsUp_of_run hrun, hbytes⟩

/-- Four of them. The folder transfer stays at 4 bytes. -/
theorem not_addsUp : ¬ ∀ p : TransferRun × StepRecord,
    (TransferRun.system.observed stepObserver).Run (fun p step => eachOnce p step = true) p →
      ∀ f ∈ p.1.service.aggregates, AddsUp p.2 (p.1.service.folders f) := by
  intro hall
  obtain ⟨p, hrun, hobs⟩ := System.Run.exists_of_exec (TransferRun.system.observed stepObserver)
    (fun p step => eachOnce p step = true) eachOnce (downloadsTen 4)
    (fun p => (p.1.service.aggregates, (p.1.service.folders 0).transferredBytes,
      ((p.1.service.folders 0).stepIds.map (counted p.2)).sum))
    (s := (⟨.initial, []⟩, stepObserver.start)) (a := ([0], 4, 10))
    (fun _ _ h => h) (.start ⟨rfl, rfl⟩) rfl
  simp only [Prod.mk.injEq] at hobs
  obtain ⟨hshown, hbytes, hsum⟩ := hobs
  have := (hall p hrun 0 (by simp [hshown])).counts
  rw [hbytes, hsum] at this
  cases this

end Nek0.Proofs.Dart
