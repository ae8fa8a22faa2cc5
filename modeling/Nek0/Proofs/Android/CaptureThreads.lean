import Nek0.Android.MicStream
import Nek0.Lib.Observer

/-!
# `Nek0.Proofs.Android.CaptureThreads`: one capture thread

`oneCapture_of_run`: at most one capture thread is in its loop, none is while the handler has no
sink, and the sink gets the blocks in the order in which they were read, each at most once. This
holds in every run in which no capture thread is left in its loop when one is started, and none when
`onCancel` drops the sink (`leavesLoop`). A step that breaks the condition breaks the law at once.

`onCancel` only clears `isRecording`. A capture thread that does not test it before the next
`onListen` sets it goes on beside the new one, and the two share the recorder.

The invariant is `Captured`. It adds to the law what is on its way to the sink: the posted blocks,
and the block that a thread is about to post.
-/

set_option autoImplicit false

namespace Nek0.Proofs.Android

open Nek0.Android
open Nek0.Lib (Outcome Pool Thread)
open Nek0.Lib.System (Run)

/-- What the sink gets of a block. -/
def outcome (b : MicBlock) : Nat × List UInt8 := (b.serial, b.bytes)

/-- One capture thread, none without a sink, and the blocks in order. -/
structure OneCapture (P : MicPool) : Prop where
  single : ∀ (i j : Nat) (t t' : Thread Unit MicStmt), P.threads[i]? = some t →
    P.threads[j]? = some t' → t.prog ≠ [] → t'.prog ≠ [] → i = j
  idle : P.shared.sink = false → ∀ t ∈ P.threads, t.prog = []
  ordered : P.shared.delivered.Sublist (P.shared.recorded.map outcome)
  once : (P.shared.recorded.map MicBlock.serial).Nodup

/-- No capture thread is in its loop when one is started, or when the sink is dropped. -/
def leavesLoop (P : MicPool) (label : Pool.Label (List UInt32) Mic.Event) : Prop :=
  match label with
  | .env (.main _) =>
    P.shared.main.head? = some .startThread ∨ P.shared.main.head? = some .clearSink →
      ∀ t ∈ P.threads, t.prog = []
  | _ => True

instance (P : MicPool) (label : Pool.Label (List UInt32) Mic.Event) :
    Decidable (leavesLoop P label) := by
  unfold leavesLoop
  split <;> infer_instance

/-! ### The invariant -/

/-- The program of `onCancel`. -/
def cancelProgram : List MainStmt := [.clearRecording, .release, .clearRecord, .clearSink]

/-- What is left of `onListen`. -/
inductive Listening : List MainStmt → Prop where
  | start : Listening [.startMic]
  | record (recorder : Nat) : Listening [.setRecord recorder, .setRecording, .startThread]
  | recording : Listening [.setRecording, .startThread]
  | thread : Listening [.startThread]
  | done : Listening []

/-- The law, and what is on its way to the sink. -/
structure Captured (m : Mic) (threads : List (Thread Unit MicStmt)) : Prop where
  single : ∀ (i j : Nat) (t t' : Thread Unit MicStmt), threads[i]? = some t →
    threads[j]? = some t' → t.prog ≠ [] → t'.prog ≠ [] → i = j
  idle : m.sink = false → ∀ t ∈ threads, t.prog = []
  short : ∀ t ∈ threads, t.prog.length ≤ 1
  main : Listening m.main ∧ m.sink = true ∨ m.main <:+ cancelProgram
  posted : (m.delivered ++ m.posted.map outcome).Sublist (m.recorded.map outcome)
  held : ∀ (i : Nat) (t : Thread Unit MicStmt) (b : MicBlock), threads[i]? = some t →
    t.prog = [.post b] →
    (m.delivered ++ (m.posted ++ [b]).map outcome).Sublist (m.recorded.map outcome)
  serials : m.recorded.map MicBlock.serial = List.range m.recorded.length

variable {m m' : Mic} {threads : List (Thread Unit MicStmt)} {P P' : MicPool}

/-- While it is known who captures there is one capture at most. -/
theorem Captured.oneCapture (h : Captured P.shared P.threads) : OneCapture P where
  single := h.single
  idle := h.idle
  ordered := (List.sublist_append_left _ _).trans h.posted
  once := by
    rw [h.serials]
    exact List.nodup_range

/-- At the start nobody captures. -/
theorem captured_initial : Captured .initial [] where
  single := fun _ _ _ _ h => absurd h (by simp)
  idle := fun _ t h => absurd h List.not_mem_nil
  short := fun t h => absurd h List.not_mem_nil
  main := .inr List.nil_suffix
  posted := List.Sublist.refl _
  held := fun _ _ _ h => absurd h (by simp)
  serials := rfl

/-! ### The capture threads -/

/-- What a statement of a capture thread does: it changes nothing that is shared, or it reads a
block, which it then posts, or it posts its block. -/
theorem exec_cases {samples : List UInt32} {st : MicStmt} {out : Outcome Mic Unit MicStmt}
    (h : Mic.exec samples st m = some out) :
    out.spawn = [] ∧ out.front.length ≤ 1 ∧
      ((out.shared = m ∧ ∀ b, out.front ≠ [.post b]) ∨
        (∃ b, b.serial = m.recorded.length ∧ out.front = [.post b] ∧
          out.shared = { m with recorded := m.recorded ++ [b] }) ∨
        (∃ b, st = .post b ∧ out.front = [.test] ∧
          out.shared = { m with posted := m.posted ++ [b] })) := by
  cases st with
  | test =>
      cases h
      refine ⟨rfl, ?_, .inl ⟨rfl, fun b => ?_⟩⟩ <;> dsimp only <;> split <;> simp
  | load =>
      cases h
      refine ⟨rfl, ?_, .inl ⟨rfl, fun b => ?_⟩⟩ <;> dsimp only <;> split <;> simp
  | check recorder =>
      cases h
      refine ⟨rfl, ?_, .inl ⟨rfl, fun b => ?_⟩⟩ <;> dsimp only <;> split <;> simp
  | read recorder =>
      simp only [Mic.exec] at h
      split at h
      · cases h
        exact ⟨rfl, Nat.le_refl _, .inl ⟨rfl, by simp⟩⟩
      · cases h
        exact ⟨rfl, Nat.le_refl _, .inr (.inl ⟨_, rfl, rfl, rfl⟩)⟩
  | post b =>
      cases h
      exact ⟨rfl, Nat.le_refl _, .inr (.inr ⟨b, rfl, rfl, rfl⟩)⟩
  | sleep =>
      cases h
      exact ⟨rfl, Nat.le_refl _, .inl ⟨rfl, by simp⟩⟩

/-- A step of the only thread in its loop. -/
theorem captured_run {i : Nat} {th : Thread Unit MicStmt} {st : MicStmt} {rest : List MicStmt}
    {samples : List UInt32} {out : Outcome Mic Unit MicStmt} (h : Captured m threads)
    (hth : threads[i]? = some th) (hprog : th.prog = st :: rest)
    (hexec : Mic.exec samples st m = some out) :
    Captured out.shared (threads.set i ⟨th.owner, out.front ++ rest⟩ ++ out.spawn) := by
  obtain ⟨hspawn, hfront, hcases⟩ := exec_cases hexec
  have hinLoop : th.prog ≠ [] := by
    rw [hprog]
    exact List.cons_ne_nil _ _
  have hrest : rest = [] := by
    have hshort := h.short th (List.mem_of_getElem? hth)
    rw [hprog, List.length_cons] at hshort
    exact List.length_eq_zero_iff.mp (by omega)
  -- Every other thread is out of its loop.
  have hothers {j : Nat} {t : Thread Unit MicStmt} (hj : threads[j]? = some t) (hne : j ≠ i) :
      t.prog = [] := by
    by_contra hprog'
    exact hne (h.single j i t th hj hth hprog' hinLoop)
  have hshared : out.shared.sink = m.sink ∧ out.shared.main = m.main ∧
      out.shared.delivered = m.delivered := by
    rcases hcases with ⟨hsame, -⟩ | ⟨b, -, -, hread⟩ | ⟨b, -, -, hpost⟩
    · rw [hsame]
      exact ⟨rfl, rfl, rfl⟩
    · rw [hread]
      exact ⟨rfl, rfl, rfl⟩
    · rw [hpost]
      exact ⟨rfl, rfl, rfl⟩
  rw [hrest, List.append_nil]
  have hafter {j : Nat} {t : Thread Unit MicStmt}
      (hj : (threads.set i ⟨th.owner, out.front⟩ ++ out.spawn)[j]? = some t) :
      (j = i ∧ t = ⟨th.owner, out.front⟩) ∨ (j ≠ i ∧ threads[j]? = some t) := by
    rcases Pool.getElem?_step (P := ⟨m, threads⟩) hth hj with hran | hold | ⟨-, hnew⟩
    · exact .inl hran
    · exact .inr hold
    · rw [hspawn] at hnew
      cases hnew
  constructor
  · intro j k t t' hj hk ht ht'
    rcases hafter hj with ⟨rfl, -⟩ | ⟨hne, hold⟩
    · rcases hafter hk with ⟨rfl, -⟩ | ⟨hne, hold⟩
      · rfl
      · exact absurd (hothers hold hne) ht'
    · exact absurd (hothers hold hne) ht
  · intro hsink
    rw [hshared.1] at hsink
    exact absurd (h.idle hsink th (List.mem_of_getElem? hth)) hinLoop
  · intro t ht
    obtain ⟨j, hj⟩ := List.mem_iff_getElem?.mp ht
    rcases hafter hj with ⟨-, rfl⟩ | ⟨-, hold⟩
    · exact hfront
    · exact h.short t (List.mem_of_getElem? hold)
  · rw [hshared.1, hshared.2.1]
    exact h.main
  · rw [hshared.2.2]
    rcases hcases with ⟨hsame, -⟩ | ⟨b, -, -, hread⟩ | ⟨b, rfl, -, hpost⟩
    · rw [hsame]
      exact h.posted
    · rw [hread, List.map_append]
      exact h.posted.trans (List.sublist_append_left _ _)
    · rw [hpost]
      exact h.held i th b hth (by rw [hprog, hrest])
  · intro j t b hj hb
    rcases hafter hj with ⟨rfl, rfl⟩ | ⟨hne, hold⟩
    · rcases hcases with ⟨-, hnone⟩ | ⟨b', -, hfront', hread⟩ | ⟨b', -, hfront', -⟩
      · exact absurd hb (hnone b)
      · -- The block was just read.
        have hbb : b' = b := by
          have hlist : [MicStmt.post b'] = [.post b] := hfront' ▸ hb
          simpa using hlist
        rw [hread, ← hbb, List.map_append, List.map_append, ← List.append_assoc]
        exact h.posted.append (List.Sublist.refl _)
      · have hlist : [MicStmt.test] = [.post b] := hfront' ▸ hb
        simp at hlist
    · rw [hothers hold hne] at hb
      cases hb
  · rcases hcases with ⟨hsame, -⟩ | ⟨b, hserial, -, hread⟩ | ⟨b, -, -, hpost⟩
    · rw [hsame]
      exact h.serials
    · rw [hread, List.map_append, h.serials, List.length_append, List.map_singleton, hserial]
      exact (List.range_succ).symm
    · rw [hpost]
      exact h.serials

/-! ### The main thread -/

/-- The main thread starts no capture thread, and leaves what is on its way. -/
theorem Captured.main_step (h : Captured m threads) (hposted : m'.posted = m.posted)
    (hrecorded : m'.recorded = m.recorded) (hdelivered : m'.delivered = m.delivered)
    (hidle : m'.sink = false → ∀ t ∈ threads, t.prog = [])
    (hmain : Listening m'.main ∧ m'.sink = true ∨ m'.main <:+ cancelProgram) :
    Captured m' threads where
  single := h.single
  idle := hidle
  short := h.short
  main := hmain
  posted := by
    rw [hposted, hrecorded, hdelivered]
    exact h.posted
  held := by
    rw [hposted, hrecorded, hdelivered]
    exact h.held
  serials := by
    rw [hrecorded]
    exact h.serials

/-- A posted block is delivered to the sink, or dropped. -/
theorem captured_deliver {b : MicBlock} {posted : List MicBlock} (h : Captured m threads)
    (hposted : m.posted = b :: posted) :
    Captured ({ m with posted := posted }.deliver b) threads := by
  have hbase := h.posted
  have hheld := h.held
  rw [hposted] at hbase hheld
  unfold Mic.deliver
  dsimp only
  by_cases hsink : m.sink = true
  · rw [if_pos hsink]
    refine ⟨h.single, h.idle, h.short, h.main, ?_, ?_, h.serials⟩
    · rw [List.append_assoc]
      exact hbase
    · intro i t b' ht hb'
      rw [List.append_assoc]
      exact hheld i t b' ht hb'
  · rw [if_neg hsink]
    refine ⟨h.single, h.idle, h.short, h.main, ?_, ?_, h.serials⟩
    · exact ((List.sublist_cons_self _ _).append_left _).trans hbase
    · intro i t b' ht hb'
      exact ((List.sublist_cons_self _ _).append_left _).trans (hheld i t b' ht hb')

/-- A capture thread is started while no other is in its loop. -/
theorem captured_start (h : Captured m threads) (hnone : ∀ t ∈ threads, t.prog = [])
    (hsink : m.sink = true) : Captured m (threads ++ [Mic.captureThread]) := by
  -- Only the last thread is in its loop.
  have hlast {j : Nat} {t : Thread Unit MicStmt}
      (hj : (threads ++ [Mic.captureThread])[j]? = some t) (ht : t.prog ≠ []) :
      j = threads.length ∧ t = Mic.captureThread := by
    rcases Nat.lt_or_ge j threads.length with hlt | hge
    · rw [List.getElem?_append_left hlt] at hj
      exact absurd (hnone t (List.mem_of_getElem? hj)) ht
    · rw [List.getElem?_append_right hge, List.getElem?_singleton] at hj
      split at hj
      · exact ⟨by omega, (Option.some.inj hj).symm⟩
      · cases hj
  refine ⟨?_, ?_, ?_, h.main, h.posted, ?_, h.serials⟩
  · intro i j t t' hi hj ht ht'
    rw [(hlast hi ht).1, (hlast hj ht').1]
  · intro hfalse
    rw [hsink] at hfalse
    cases hfalse
  · intro t ht
    rcases List.mem_append.mp ht with hold | hnew
    · exact h.short t hold
    · rw [List.mem_singleton.mp hnew]
      exact Nat.le_refl _
  · intro i t b hi hb
    have hthread := (hlast hi (by rw [hb]; exact List.cons_ne_nil _ _)).2
    rw [hthread] at hb
    cases hb

/-- A statement of the main thread. -/
theorem captured_main {st : MainStmt} {rest : List MainStmt} (opened : Bool)
    (h : Captured m threads) (hmain : m.main = st :: rest)
    (hok : st = .startThread ∨ st = .clearSink → ∀ t ∈ threads, t.prog = []) :
    Captured ({ m with main := rest }.execMain opened st).1
      (threads ++ ({ m with main := rest }.execMain opened st).2) := by
  -- The main thread is in `onListen` with its sink set, or in `onCancel`.
  rcases h.main with ⟨hlisten, hsink⟩ | hcancel
  · have hidle : m.sink = false → ∀ t ∈ threads, t.prog = [] := h.idle
    rw [hmain] at hlisten
    cases hlisten with
    | start =>
        unfold Mic.execMain
        dsimp only
        split
        · rw [List.append_nil]
          exact h.main_step rfl rfl rfl hidle (.inl ⟨.thread, hsink⟩)
        · split
          · rw [List.append_nil]
            exact h.main_step rfl rfl rfl hidle (.inl ⟨.record _, hsink⟩)
          · rw [List.append_nil]
            exact h.main_step rfl rfl rfl hidle (.inl ⟨.done, hsink⟩)
    | record recorder =>
        show Captured _ (threads ++ [])
        rw [List.append_nil]
        exact h.main_step rfl rfl rfl hidle (.inl ⟨.recording, hsink⟩)
    | recording =>
        show Captured _ (threads ++ [])
        rw [List.append_nil]
        exact h.main_step rfl rfl rfl hidle (.inl ⟨.thread, hsink⟩)
    -- The thread is started here, which is where the condition is about the others.
    | thread =>
        have hstep : Captured { m with main := [] } threads :=
          h.main_step rfl rfl rfl hidle (.inl ⟨.done, hsink⟩)
        exact captured_start hstep (hok (.inl rfl)) hsink
  · rw [hmain] at hcancel
    -- What is left of `onCancel` gets shorter. Its last statement clears the sink.
    have hrest : rest <:+ cancelProgram := (List.suffix_cons st rest).trans hcancel
    have hmem : st ∈ cancelProgram := hcancel.subset List.mem_cons_self
    simp only [cancelProgram, List.mem_cons, List.not_mem_nil, or_false] at hmem
    rcases hmem with rfl | rfl | rfl | rfl
    · show Captured _ (threads ++ [])
      rw [List.append_nil]
      exact h.main_step rfl rfl rfl h.idle (.inr hrest)
    · show Captured _ (threads ++ [])
      rw [List.append_nil]
      exact h.main_step rfl rfl rfl h.idle (.inr hrest)
    · show Captured _ (threads ++ [])
      rw [List.append_nil]
      exact h.main_step rfl rfl rfl h.idle (.inr hrest)
    · show Captured _ (threads ++ [])
      rw [List.append_nil]
      exact h.main_step rfl rfl rfl (fun _ => hok (.inr rfl)) (.inr hrest)

/-! ### Runs -/

/-- Every step that meets the condition keeps the invariant. -/
theorem captured_of_next {label : Pool.Label (List UInt32) Mic.Event}
    (h : Captured P.shared P.threads) (hok : leavesLoop P label)
    (hnext : Pool.next Mic.language label P = some P') : Captured P'.shared P'.threads := by
  cases label with
  | run i samples =>
      obtain ⟨th, st, rest, out, hth, hprog, hexec, rfl⟩ := Pool.next_run hnext
      exact captured_run h hth hprog hexec
  | env e =>
      obtain ⟨m', spawn, henv, rfl⟩ := Pool.next_env hnext
      change Mic.env e P.shared = some (m', spawn) at henv
      unfold Mic.env at henv
      split at henv
      · cases henv
        show Captured _ (P.threads ++ [])
        rw [List.append_nil]
        exact h.main_step rfl rfl rfl (fun hsink => absurd hsink (by simp [Mic.onListen]))
          (.inl ⟨.start, rfl⟩)
      · cases henv
        show Captured _ (P.threads ++ [])
        rw [List.append_nil]
        exact h.main_step rfl rfl rfl h.idle (.inr List.suffix_rfl)
      · split at henv
        · cases henv
        · rename_i b posted hposted
          cases henv
          show Captured _ (P.threads ++ [])
          rw [List.append_nil]
          exact captured_deliver h hposted
      · rename_i opened st rest hmain
        have heq := Option.some.inj henv
        obtain rfl : _ = m' := congrArg Prod.fst heq
        obtain rfl : _ = spawn := congrArg Prod.snd heq
        refine captured_main opened h hmain fun hst => ?_
        apply hok
        rw [hmain, List.head?_cons]
        exact hst.imp (congrArg some) (congrArg some)
      · cases henv

/-- In a run under the condition it is known who captures. -/
theorem captured_of_run (hrun : micSystem.Run leavesLoop P) : Captured P.shared P.threads := by
  refine Run.invariant (P := fun P : MicPool => Captured P.shared P.threads) ?_ ?_ hrun
  · rintro ⟨m, threads⟩ ⟨hinit, rfl⟩
    cases hinit
    exact captured_initial
  · exact fun P P' label h hok hnext => captured_of_next h hok hnext

/-- A step that keeps the law meets the condition. -/
theorem leavesLoop_of_oneCapture {label : Pool.Label (List UInt32) Mic.Event}
    (hnext : Pool.next Mic.language label P = some P') (h : OneCapture P') :
    leavesLoop P label := by
  unfold leavesLoop
  split
  · rename_i opened
    intro hhead t ht
    obtain ⟨m', spawn, henv, rfl⟩ := Pool.next_env hnext
    change Mic.env (.main opened) P.shared = some (m', spawn) at henv
    rcases hhead with hhead | hhead
    · obtain ⟨rest, hmain⟩ := List.head?_eq_some_iff.mp hhead
      simp only [Mic.env, hmain, Mic.execMain, Option.some.injEq, Prod.mk.injEq] at henv
      obtain ⟨-, rfl⟩ := henv
      by_contra hprog
      -- The new thread is in its loop too.
      obtain ⟨i, hi⟩ := List.mem_iff_getElem?.mp ht
      have hlt : i < P.threads.length := (List.getElem?_eq_some_iff.mp hi).1
      have hsame : i = P.threads.length :=
        h.single i _ t Mic.captureThread (by rw [List.getElem?_append_left hlt, hi])
          List.getElem?_concat_length hprog (List.cons_ne_nil _ _)
      omega
    · obtain ⟨rest, hmain⟩ := List.head?_eq_some_iff.mp hhead
      simp only [Mic.env, hmain, Mic.execMain, Option.some.injEq, Prod.mk.injEq] at henv
      obtain ⟨rfl, -⟩ := henv
      exact h.idle rfl t (List.mem_append_left _ ht)
  · trivial

/-- In a run that meets the condition, there is one capture thread at most, and the sink gets the
blocks in order. The next step keeps this if and only if it meets the condition. -/
theorem oneCapture_of_run (hrun : micSystem.Run leavesLoop P) :
    OneCapture P ∧ ∀ label P', micSystem.next label P = some P' →
      (OneCapture P' ↔ leavesLoop P label) := by
  have hcaptured := captured_of_run hrun
  refine ⟨hcaptured.oneCapture, fun label P' hnext => ⟨?_, ?_⟩⟩
  · exact leavesLoop_of_oneCapture hnext
  · exact fun hok => (captured_of_next hcaptured hok hnext).oneCapture

/-- `onListen`, with a recorder that opens. -/
def listens : List (Pool.Label (List UInt32) Mic.Event) :=
  [.env .listen, .env (.main true), .env (.main true), .env (.main true), .env (.main true)]

/-- `onCancel` without a pause. -/
def cancels : List (Pool.Label (List UInt32) Mic.Event) :=
  [.env .cancel, .env (.main true), .env (.main true), .env (.main true), .env (.main true)]

/-- One turn of the loop of thread `i`, with one sample, up to the post. -/
def captures (i : Nat) (sample : UInt32) : List (Pool.Label (List UInt32) Mic.Event) :=
  [.run i [], .run i [], .run i [], .run i [sample]]

/-- The thread leaves its loop within `onCancel`. -/
theorem oneCapture_once : ∃ P : MicPool, P.shared.delivered = [(0, [1, 0, 0, 0])] ∧
    P.shared.sink = false ∧ OneCapture P := by
  have hstart : micSystem.Run leavesLoop ⟨.initial, []⟩ := .start ⟨rfl, rfl⟩
  obtain ⟨P, hrun, hview⟩ := Run.exists_of_exec micSystem leavesLoop
    (fun P label => decide (leavesLoop P label))
    (listens ++ captures 0 1 ++ [.run 0 [], .env .deliver, .env .cancel, .env (.main true),
      .run 0 [], .env (.main true), .env (.main true), .env (.main true)])
    (fun P => (P.shared.delivered, P.shared.sink)) (fun _ _ => of_decide_eq_true) hstart
    (a := ([(0, [1, 0, 0, 0])], false)) rfl
  simp only [Prod.mk.injEq] at hview
  exact ⟨P, hview.1, hview.2, (oneCapture_of_run hrun).1⟩

/-- `onCancel` and `onListen` come while the thread is at its test. Then two threads share the
recorder, and the sink gets the second block first. -/
theorem not_oneCapture : ∃ P : MicPool, micSystem.Reachable P ∧
    (∃ t t' : Thread Unit MicStmt, P.threads[0]? = some t ∧ P.threads[1]? = some t' ∧
      t.prog ≠ [] ∧ t'.prog ≠ []) ∧
    ¬ P.shared.delivered.Sublist (P.shared.recorded.map outcome) := by
  have hstart : micSystem.Reachable ⟨.initial, []⟩ := .start ⟨rfl, rfl⟩
  obtain ⟨P, hrun, hview⟩ := Run.exists_of_exec micSystem (fun _ _ => True) (fun _ _ => true)
    (listens ++ cancels ++ listens ++ captures 0 1 ++ captures 1 2 ++
      [.run 1 [], .run 0 [], .env .deliver, .env .deliver])
    (fun P => (P.threads, P.shared.delivered, P.shared.recorded)) (fun _ _ _ => trivial) hstart
    (a := ([⟨(), [.test]⟩, ⟨(), [.test]⟩], [(1, [2, 0, 0, 0]), (0, [1, 0, 0, 0])],
      [⟨1, 0, [1]⟩, ⟨1, 1, [2]⟩])) rfl
  simp only [Prod.mk.injEq] at hview
  obtain ⟨hthreads, hdelivered, hrecorded⟩ := hview
  refine ⟨P, hrun, ?_, ?_⟩
  · rw [hthreads]
    exact ⟨_, _, rfl, rfl, List.cons_ne_nil _ _, List.cons_ne_nil _ _⟩
  · rw [hdelivered, hrecorded]
    decide

end Nek0.Proofs.Android
