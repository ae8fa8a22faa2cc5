import Nek0.Audio.FrameTraffic
import Nek0.Lib.Slots

/-!
# `Nek0.Proofs.Audio.FrameBuffers`: frame buffers are conserved

Every frame buffer that was allocated for a client's ring is in just one place: a slot, the pool, or
the hands of whoever moves it. A swap into a slot drops what is there, so this rests on the slot
being empty (`Ready`): only the writer fills slots, and it has emptied this one.

A buffer is allocated only when the pool is empty and so is the slot that it goes to. The other
slots and the reader's hand hold at most 64 buffers then (`Conserved.allocate`).
-/

set_option autoImplicit false

namespace Nek0.Proofs.Audio

open Nek0.Audio
open Nek0.Lib.Slots
open Nek0.Lib.System (Run)
open Nek0.Native (Instant)

/-- The frame buffers in the slots and in the pool. -/
def held (r : FrameRing) : Multiset BufferId :=
  contents r.buffer.slots + (r.buffer.framePool : Multiset BufferId)

/-- With what is in the given hands, each allocated buffer is in one place, and there are at most
65. -/
structure Conserved (r : FrameRing) (hands : List BufferId) : Prop where
  once : held r + (hands : Multiset BufferId) = Multiset.range r.allocated
  bounded : r.allocated ≤ jitterSlots + 1

/-- The slot that the writer has emptied is still empty. -/
def Ready (r : FrameRing) (step : WriterStep) : Prop :=
  ∀ i, step.target = some i → r.buffer.slots i = none

/-! ### Moves -/

section Moves

variable {r r' : FrameRing} {i : Fin jitterSlots} {b : BufferId} {hands hands' : List BufferId}

/-- The order in which somebody holds buffers does not matter. -/
theorem Conserved.perm (h : Conserved r hands) (hperm : hands.Perm hands') : Conserved r hands' :=
  ⟨Multiset.coe_eq_coe.mpr hperm ▸ h.once, h.bounded⟩

/-- Other parts of the buffer do not matter. -/
theorem Conserved.congr (h : Conserved r hands) (hslots : r'.buffer.slots = r.buffer.slots)
    (hpool : r'.buffer.framePool = r.buffer.framePool) (halloc : r'.allocated = r.allocated) :
    Conserved r' hands := by
  have hheld : held r' = held r := by rw [held, held, hslots, hpool]
  refine ⟨?_, halloc ▸ h.bounded⟩
  rw [hheld, halloc]
  exact h.once

/-- A buffer that is taken out of its slot is in the hands of the taker. -/
theorem Conserved.take (h : Conserved r hands) (hslot : r.buffer.slots i = some b) :
    Conserved (r.swap i none) (b :: hands) := by
  have hout := contents_update r.buffer.slots i none
  rw [hslot, Option.toList_none, Option.toList_some, Multiset.coe_nil, Multiset.coe_singleton,
    add_zero] at hout
  refine ⟨?_, h.bounded⟩
  calc contents (Function.update r.buffer.slots i none) + (r.buffer.framePool : Multiset BufferId) +
        ((b :: hands : List BufferId) : Multiset BufferId)
      = contents (Function.update r.buffer.slots i none) + {b} + r.buffer.framePool + hands := by
        rw [← Multiset.cons_coe, ← Multiset.singleton_add]
        abel
    _ = Multiset.range r.allocated := by
        rw [hout]
        exact h.once

/-- A swap into an empty slot drops nothing. -/
theorem Conserved.put (h : Conserved r (b :: hands)) (hslot : r.buffer.slots i = none) :
    Conserved (r.swap i (some b)) hands := by
  have hin := contents_update r.buffer.slots i (some b)
  rw [hslot, Option.toList_none, Option.toList_some, Multiset.coe_nil, Multiset.coe_singleton,
    add_zero] at hin
  refine ⟨?_, h.bounded⟩
  calc contents (Function.update r.buffer.slots i (some b)) +
        (r.buffer.framePool : Multiset BufferId) + (hands : Multiset BufferId)
      = contents r.buffer.slots + r.buffer.framePool + ((b :: hands : List BufferId)) := by
        rw [hin, ← Multiset.cons_coe, ← Multiset.singleton_add]
        abel
    _ = Multiset.range r.allocated := h.once

/-- A buffer that goes back to the pool leaves the hands. -/
theorem Conserved.push (h : Conserved r (b :: hands)) : Conserved (r.push b) hands := by
  refine ⟨?_, h.bounded⟩
  calc contents r.buffer.slots + ((r.buffer.framePool ++ [b] : List BufferId)) +
        (hands : Multiset BufferId)
      = contents r.buffer.slots + r.buffer.framePool + ((b :: hands : List BufferId)) := by
        rw [← Multiset.coe_add, Multiset.coe_singleton, ← Multiset.cons_coe,
          ← Multiset.singleton_add]
        abel
    _ = Multiset.range r.allocated := h.once

/-- A buffer from the pool is in the hands of who took it. -/
theorem Conserved.pop {pool : List BufferId} (h : Conserved r hands)
    (hpool : r.buffer.framePool = b :: pool) :
    Conserved { r with buffer := { r.buffer with framePool := pool } } (b :: hands) := by
  refine ⟨?_, h.bounded⟩
  calc contents r.buffer.slots + (pool : Multiset BufferId) + ((b :: hands : List BufferId))
      = contents r.buffer.slots + r.buffer.framePool + (hands : Multiset BufferId) := by
        rw [hpool, ← Multiset.cons_coe, ← Multiset.cons_coe, ← Multiset.singleton_add,
          ← Multiset.singleton_add]
        abel
    _ = Multiset.range r.allocated := h.once

/-- A buffer is allocated while at most one is in somebody else's hands, the pool is empty and there
is room in the ring: so there were at most 64. -/
theorem Conserved.allocate (h : Conserved r hands) (hhands : hands.length ≤ 1)
    (hpool : r.buffer.framePool = []) (hslot : r.buffer.slots i = none) :
    Conserved { r with allocated := r.allocated + 1 } (r.allocated :: hands) := by
  refine ⟨?_, ?_⟩
  · show held r + (r.allocated ::ₘ (hands : Multiset BufferId)) = Multiset.range (r.allocated + 1)
    rw [Multiset.range_succ, Multiset.add_cons, h.once]
  · have hcard := congrArg Multiset.card h.once
    have hroom := card_contents_lt hslot
    rw [held, hpool, Multiset.card_add, Multiset.card_add, Multiset.card_range, Multiset.coe_card,
      Multiset.coe_card, List.length_nil] at hcard
    rw [Fintype.card_fin] at hroom
    show r.allocated + 1 ≤ jitterSlots + 1
    omega

end Moves

/-! ### Steps -/

section Steps

variable {r : FrameRing} {rest : List BufferId}

/-- What a step leaves to the next one. -/
structure StepOk (out : FrameRing × Option WriterStep) (rest : List BufferId) : Prop where
  conserved : Conserved out.1 (out.2.elim [] WriterStep.hands ++ rest)
  ready : ∀ step, out.2 = some step → Ready out.1 step

/-- A step that fills no slot next. -/
theorem StepOk.of_target {step : WriterStep} (h : Conserved r (step.hands ++ rest))
    (htarget : step.target = none) : StepOk (r, some step) rest where
  conserved := h
  ready := by
    intro step' heq i hi
    cases heq
    rw [htarget] at hi
    cases hi

/-- A step that fills an empty slot next. -/
theorem StepOk.of_empty {step : WriterStep} {i : Fin jitterSlots}
    (h : Conserved r (step.hands ++ rest)) (htarget : step.target = some i)
    (hslot : r.buffer.slots i = none) : StepOk (r, some step) rest where
  conserved := h
  ready := by
    intro step' heq j hj
    cases heq
    rw [htarget] at hj
    cases hj
    exact hslot

/-- The slot that was emptied. -/
theorem slots_swap_self (r : FrameRing) (i : Fin jitterSlots) (o : Option BufferId) :
    (r.swap i o).buffer.slots i = o := by
  show Function.update r.buffer.slots i o i = o
  exact Function.update_self ..

/-- A step of the writer, with at most one buffer in the reader's hands. -/
theorem conserved_writer (c : WriteCall) {step : WriterStep}
    (h : Conserved r (step.hands ++ rest)) (hrest : rest.length ≤ 1) (hready : Ready r step) :
    StepOk (step.run c r) rest := by
  cases step with
  | rebase i =>
      simp only [WriterStep.run]
      split
      · split
        · exact .of_target h rfl
        · next frame hframe =>
            split
            · exact .of_target (h.take hframe) rfl
            · exact .of_target (h.take hframe) rfl
      · exact .of_target (h.congr rfl rfl rfl) rfl
  | makeRoom i frame dist =>
      simp only [WriterStep.run]
      split
      · next hslot => exact .of_empty h rfl hslot
      · next old hold => exact .of_empty (h.take hold) rfl (slots_swap_self r dist none)
  | giveBack i frame dist old => exact .of_empty h.push rfl (hready dist rfl)
  | rehome i frame dist => exact .of_target (h.put (hready dist rfl)) rfl
  | free i frame => exact .of_target h.push rfl
  | evict idx =>
      simp only [WriterStep.run]
      split
      · next hslot => exact .of_empty h rfl hslot
      · next old hold => exact .of_empty (h.take hold) rfl (slots_swap_self r idx none)
  | recycle idx old => exact .of_empty h.push rfl (hready idx rfl)
  | acquire idx =>
      simp only [WriterStep.run]
      split
      · next hpool => exact .of_empty (h.allocate hrest hpool (hready idx rfl)) rfl (hready idx rfl)
      · next frame pool hpool => exact .of_empty (h.pop hpool) rfl (hready idx rfl)
  | publish idx frame => exact .of_target (h.put (hready idx rfl)) rfl
  | finish => exact ⟨h.congr rfl rfl rfl, fun _ heq => by cases heq⟩

/-- A step of the reader. It empties slots and fills none. -/
theorem conserved_reader {step : ReaderStep} (h : Conserved r (step.hands ++ rest)) :
    Conserved (step.run r).1 ((step.run r).2.elim [] ReaderStep.hands ++ rest) ∧
      ((step.run r).2.elim [] ReaderStep.hands).length ≤ 1 ∧
      ∀ i, r.buffer.slots i = none → (step.run r).1.buffer.slots i = none := by
  cases step with
  | compare slot basePair =>
      simp only [ReaderStep.run]
      split
      · exact ⟨h, Nat.zero_le 1, fun i hi => hi⟩
      · split <;> exact ⟨h, Nat.zero_le 1, fun i hi => hi⟩
  | take idx =>
      simp only [ReaderStep.run]
      split
      · exact ⟨h, Nat.zero_le 1, fun i hi => hi⟩
      · next frame hframe =>
          refine ⟨h.take hframe, Nat.le_refl 1, fun i hi => ?_⟩
          by_cases heq : i = idx
          · rw [heq]
            exact slots_swap_self r idx none
          · exact (Function.update_of_ne heq _ _).trans hi
  | giveBack frame => exact ⟨h.push, Nat.zero_le 1, fun i hi => hi⟩

/-- A step of the clean-up. -/
theorem conserved_cleaner {step step' : CleanerStep} {r' : FrameRing}
    (h : Conserved r step.hands) (hrun : step.run r = some (r', step')) :
    Conserved r' step'.hands := by
  cases step with
  | drain i =>
      simp only [CleanerStep.run] at hrun
      split at hrun
      · split at hrun
        · cases hrun
          exact h
        · next frame hframe =>
            cases hrun
            exact h.take hframe
      · cases hrun
  | keep i frame =>
      cases hrun
      exact h.push

end Steps

/-! ### Runs -/

/-- The ring has its buffers, and no slot gets a buffer that it has no room for. With no ring,
nobody is in it. -/
structure LiveOk (s : FrameTraffic) : Prop where
  conserved : ∀ r, s.live = some r → Conserved r s.hands
  ready : ∀ r c step, s.live = some r → s.writer = some (c, step) → Ready r step
  reader : (s.reader.elim [] ReaderStep.hands).length ≤ 1
  absent : s.live = none → s.writer = none ∧ s.reader = none

/-- The removed ring has its buffers. -/
def RemovedOk (s : FrameTraffic) : Prop :=
  ∀ r step, s.removed = some (r, step) → Conserved r step.hands

section Runs

variable {s s' : FrameTraffic}

/-- A ring without buffers. -/
theorem conserved_new (volume : Gain) : Conserved (.new volume) [] where
  once := by
    show contents (fun _ : Fin jitterSlots => (none : Option BufferId)) + 0 + 0 = 0
    rw [add_zero, add_zero]
    exact Finset.sum_eq_zero fun _ _ => rfl
  bounded := Nat.zero_le _

/-- The first step of the writer holds nothing and fills nothing. -/
theorem begin_hands {r : FrameRing} {seq : UInt16} {nowSlot currentSlot : UInt64} {now : Instant}
    {c : WriteCall} {step : WriterStep}
    (h : (r.beginWrite seq nowSlot currentSlot now).2 = some (c, step)) :
    step.hands = [] ∧ step.target = none := by
  simp only [FrameRing.beginWrite] at h
  split at h
  · cases h
  · split at h <;> cases h <;> exact ⟨rfl, rfl⟩

/-- The baseline has no buffers in it. -/
theorem conserved_begin {r : FrameRing} {seq : UInt16} {nowSlot currentSlot : UInt64}
    {now : Instant} {hands : List BufferId} (h : Conserved r hands) :
    Conserved (r.beginWrite seq nowSlot currentSlot now).1 hands := by
  show Conserved { r with buffer := r.buffer.initBase seq nowSlot } hands
  rw [ClientJitterBuffer.initBase]
  split
  · exact h.congr rfl rfl rfl
  · exact h

/-- A packet comes while no other one is being written. -/
theorem liveOk_packet {volume : Gain} {seq : UInt16} {nowSlot currentSlot : UInt64} {now : Instant}
    (h : LiveOk s)
    (hnext : FrameTraffic.next (.packet volume seq nowSlot currentSlot now) s = some s') :
    LiveOk s' := by
  simp only [FrameTraffic.next] at hnext
  split at hnext
  · next hwriter =>
      have hring : Conserved (s.live.getD (.new volume)) (s.reader.elim [] ReaderStep.hands) := by
        cases hlive : s.live with
        | some r =>
            have hr := h.conserved r hlive
            rw [FrameTraffic.hands, hwriter] at hr
            exact hr
        | none =>
            -- A new ring: nobody reads the one that is not there.
            rw [(h.absent hlive).2]
            exact conserved_new volume
      cases hnext
      refine ⟨?_, ?_, h.reader, ?_⟩
      · intro r hr
        cases hr
        show Conserved _ ((Option.elim _ [] fun w : WriteCall × WriterStep => w.2.hands) ++ _)
        cases hw : ((s.live.getD (.new volume)).beginWrite seq nowSlot currentSlot now).2 with
        | none => exact conserved_begin hring
        | some w =>
            rw [Option.elim_some, (begin_hands hw).1, List.nil_append]
            exact conserved_begin hring
      · intro r c step _ hw i hi
        rw [(begin_hands hw).2] at hi
        cases hi
      · intro hlive
        cases hlive
  · cases hnext

/-- The writer goes on. -/
theorem liveOk_writer (h : LiveOk s) (hnext : FrameTraffic.next .writerRuns s = some s') :
    LiveOk s' := by
  simp only [FrameTraffic.next] at hnext
  split at hnext
  · next r c step hlive hwriter =>
      have hring := h.conserved r hlive
      rw [FrameTraffic.hands, hwriter] at hring
      have hstep := conserved_writer c hring h.reader (h.ready r c step hlive hwriter)
      cases hnext
      refine ⟨?_, ?_, h.reader, ?_⟩
      · intro r' hr
        cases hr
        show Conserved _ ((Option.elim _ [] fun w : WriteCall × WriterStep => w.2.hands) ++ _)
        rw [Option.elim_map]
        exact hstep.conserved
      · intro r' c' step' hr hw
        cases hr
        obtain ⟨after, hrun, heq⟩ := Option.map_eq_some_iff.mp hw
        cases heq
        exact hstep.ready _ hrun
      · intro hnone
        cases hnone
  · cases hnext

/-- The reader comes in. -/
theorem liveOk_mix {slot : UInt64} (h : LiveOk s)
    (hnext : FrameTraffic.next (.mix slot) s = some s') : LiveOk s' := by
  simp only [FrameTraffic.next] at hnext
  split at hnext
  · next r hlive hreader =>
      cases hnext
      refine ⟨?_, h.ready, Nat.zero_le 1, ?_⟩
      · intro r' hr
        have hring := h.conserved r' hr
        rw [FrameTraffic.hands, hreader] at hring
        exact hring
      · intro hnone
        rw [hlive] at hnone
        cases hnone
  · cases hnext

/-- The reader goes on. What the writer has emptied stays empty. -/
theorem liveOk_reader (h : LiveOk s) (hnext : FrameTraffic.next .readerRuns s = some s') :
    LiveOk s' := by
  simp only [FrameTraffic.next] at hnext
  split at hnext
  · next r step hlive hreader =>
      have hring := h.conserved r hlive
      rw [FrameTraffic.hands, hreader] at hring
      obtain ⟨hafter, hone, hempty⟩ := conserved_reader (hring.perm List.perm_append_comm)
      cases hnext
      refine ⟨?_, ?_, hone, ?_⟩
      · intro r' hr
        cases hr
        exact hafter.perm List.perm_append_comm
      · intro r' c wstep hr hw i hi
        cases hr
        exact hempty i (h.ready r c wstep hlive hw i hi)
      · intro hnone
        cases hnone
  · cases hnext

/-- No ring, and nobody in it. -/
theorem LiveOk.of_absent (hlive : s.live = none) (hwriter : s.writer = none)
    (hreader : s.reader = none) : LiveOk s where
  conserved := by
    intro r hr
    rw [hlive] at hr
    cases hr
  ready := by
    intro r c step hr
    rw [hlive] at hr
    cases hr
  reader := by
    rw [hreader]
    exact Nat.zero_le 1
  absent := fun _ => ⟨hwriter, hreader⟩

/-- The ring is taken away, with all of its buffers. -/
theorem ok_remove (h : LiveOk s) (hnext : FrameTraffic.next .remove s = some s') :
    LiveOk s' ∧ RemovedOk s' := by
  simp only [FrameTraffic.next] at hnext
  split at hnext
  · next r hlive hwriter hreader _ =>
      have hring := h.conserved r hlive
      rw [FrameTraffic.hands, hwriter, hreader] at hring
      cases hnext
      refine ⟨.of_absent rfl hwriter hreader, ?_⟩
      intro r' step heq
      cases heq
      exact hring
  · cases hnext

/-- The clean-up goes on with the removed ring. -/
theorem removedOk_cleaner (h : RemovedOk s) (hnext : FrameTraffic.next .cleanerRuns s = some s') :
    RemovedOk s' ∧ s' = { s with removed := s'.removed } := by
  simp only [FrameTraffic.next] at hnext
  split at hnext
  · next r step hremoved =>
      cases hnext
      exact ⟨fun r' step' hrun => conserved_cleaner (h r step hremoved) hrun, rfl⟩
  · cases hnext

/-- Every step keeps the buffers of both rings. -/
theorem ok_next {e : FrameTraffic.Event} (h : LiveOk s ∧ RemovedOk s)
    (hnext : FrameTraffic.next e s = some s') : LiveOk s' ∧ RemovedOk s' := by
  obtain ⟨hlive, hremoved⟩ := h
  cases e with
  | packet volume seq nowSlot currentSlot now =>
      refine ⟨liveOk_packet hlive hnext, ?_⟩
      simp only [FrameTraffic.next] at hnext
      split at hnext <;> cases hnext
      exact hremoved
  | writerRuns =>
      refine ⟨liveOk_writer hlive hnext, ?_⟩
      simp only [FrameTraffic.next] at hnext
      split at hnext <;> cases hnext
      exact hremoved
  | mix slot =>
      refine ⟨liveOk_mix hlive hnext, ?_⟩
      simp only [FrameTraffic.next] at hnext
      split at hnext <;> cases hnext
      exact hremoved
  | readerRuns =>
      refine ⟨liveOk_reader hlive hnext, ?_⟩
      simp only [FrameTraffic.next] at hnext
      split at hnext <;> cases hnext
      exact hremoved
  | remove => exact ok_remove hlive hnext
  | cleanerRuns =>
      obtain ⟨hafter, heq⟩ := removedOk_cleaner hremoved hnext
      refine ⟨?_, hafter⟩
      rw [heq]
      exact ⟨hlive.conserved, hlive.ready, hlive.reader, hlive.absent⟩
  | clear =>
      simp only [FrameTraffic.next] at hnext
      split at hnext
      · next hwriter hreader =>
          cases hnext
          exact ⟨.of_absent rfl hwriter hreader, hremoved⟩
      · cases hnext

/-- In whatever order packets are written, slots are mixed and the ring is cleaned up, each buffer
that was allocated for a ring is in just one place, and a ring never gets more than 65. -/
theorem conserved_of_reachable (hrun : FrameTraffic.system.Reachable s) :
    (∀ r, s.live = some r → Conserved r s.hands) ∧
      ∀ r step, s.removed = some (r, step) → Conserved r step.hands := by
  have hok : LiveOk s ∧ RemovedOk s := by
    refine hrun.invariant (P := fun s => LiveOk s ∧ RemovedOk s) ?_ ?_
    · intro s hinit
      cases hinit
      exact ⟨.of_absent rfl rfl rfl, fun _ _ heq => by cases heq⟩
    · intro s s' e h _ hnext
      exact ok_next h hnext
  exact ⟨hok.1.conserved, hok.2⟩

/-- The reader has taken the first packet's buffer, and a new one was allocated for the second. -/
theorem conserved_two_packets : ∃ s : FrameTraffic, FrameTraffic.system.Reachable s ∧
    (s.hands, s.live.map FrameRing.allocated) = ([1, 0], some 2) ∧
    (∀ r, s.live = some r → Conserved r s.hands) ∧
    ∀ r step, s.removed = some (r, step) → Conserved r step.hands := by
  obtain ⟨s, hrun, hseen⟩ := Run.exists_of_exec FrameTraffic.system (fun _ _ => True)
    (fun _ _ => true)
    [.packet .unity 5 0 0 0, .writerRuns, .writerRuns, .writerRuns, .writerRuns, .mix targetDelay,
      .readerRuns, .readerRuns, .packet .unity 6 0 0 1, .writerRuns, .writerRuns]
    (fun s : FrameTraffic => (s.hands, s.live.map FrameRing.allocated)) (fun _ _ _ => trivial)
    (.start (s := FrameTraffic.initial) rfl) (a := ([1, 0], some 2)) (by decide +kernel)
  exact ⟨s, hrun, hseen, conserved_of_reachable hrun⟩

end Runs

end Nek0.Proofs.Audio
