import Nek0.Proofs.Native.Frames
import Nek0.Proofs.Native.Threads

/-!
# `Nek0.Proofs.Native.Queues`: the command queues

What a statement does to the command queues: a call adds its command at the end, the event loop
takes the first one, and the receiver can be dropped. Only the generations so far have a queue
(`queuesBelow_of_run`), and a command stays in its place until the queue is received from or dropped
(`command_kept`).
-/

set_option autoImplicit false

namespace Nek0.Proofs.Native

open Nek0.Lib
open Nek0.Native

/-- Only the generations so far have a queue. -/
def QueuesBelow (s : Shared) : Prop :=
  ∀ g, s.connectionGeneration < g →
    (s.queues g).commands = [] ∧ (s.queues g).receiving = false

/-- A loop statement that receives no command leaves the queues alone. -/
theorem queues_of_loop {choice : Choice} {s : Shared} {l : LoopStmt} {out : NativeOutcome}
    (hexec : l.exec choice s = some out) (hl : ∀ sess, l ≠ .receive sess) :
    out.shared.queues = s.queues := by
  cases l with
  | receive sess => exact absurd rfl (hl sess)
  | ownClient sess c =>
      cases hexec
      simp only [Shared.ownClientIdOrCache]
      repeat' split
      all_goals rfl
  | sendWithResult sess reply =>
      dsimp only [LoopStmt.exec, Shared.sendWithResult] at hexec
      repeat' split at hexec
      all_goals cases hexec
      all_goals rfl
  | startDownload sess ended taskId total =>
      dsimp only [LoopStmt.exec] at hexec
      split at hexec
      · cases hexec
        obtain ⟨_, _, heq, _⟩ := maybePublishFtProgress_frame s taskId true
        rw [heq]
      · cases hexec
        rfl
  | _ =>
      dsimp only [LoopStmt.exec] at hexec
      repeat' split at hexec
      all_goals cases hexec
      all_goals rfl

/-- What receiving a command does to the state, or there was none. -/
theorem receive_step {choice : Choice} {s : Shared} {sess : Session} {out : NativeOutcome}
    (hexec : (LoopStmt.receive sess).exec choice s = some out) :
    ((s.queues sess.generation).commands = [] ∧
        out = { shared := s, front := [.eventLoop (.poll sess)] }) ∨
      ∃ c rest, (s.queues sess.generation).commands = c :: rest ∧
        (out.shared.queues = Function.update s.queues sess.generation
          { s.queues sess.generation with commands := rest }) ∧
        out.shared.permOps = s.permOps ∧
        out.shared.connectionGeneration = s.connectionGeneration ∧ out.spawn = [] ∧
        ((c = .disconnect ∧ out.front = [.eventLoop (.disconnect sess .command)]) ∨
          (c ≠ .disconnect ∧
            out.front = commandProgram sess c ++ [.eventLoop (.receive sess)])) := by
  dsimp only [LoopStmt.exec] at hexec
  split at hexec
  · rename_i hnil
    exact .inl ⟨hnil, (Option.some.inj hexec).symm⟩
  · rename_i c rest hcons
    right
    split at hexec <;> cases hexec
    · rename_i hc
      exact ⟨c, rest, hcons, rfl, rfl, rfl, rfl, .inl ⟨hc, rfl⟩⟩
    · rename_i hc
      exact ⟨c, rest, hcons, rfl, rfl, rfl, rfl, .inr ⟨hc, rfl⟩⟩

/-- A write leaves the queues alone, or drops one. -/
theorem queues_of_write (s : Shared) (w : Write) :
    (w.apply s).queues = s.queues ∨
      ∃ g, (w.apply s).queues =
        Function.update s.queues g { s.queues g with commands := [], receiving := false } := by
  cases w with
  | dropReceiver g => exact .inr ⟨g, rfl⟩
  | downloadProgress taskId done =>
      obtain ⟨_, _, heq, _⟩ := downloadProgress_frame s taskId done
      exact .inl (by rw [heq])
  | uploadProgress taskId n =>
      obtain ⟨_, _, heq, _⟩ := uploadProgress_frame s taskId n
      exact .inl (by rw [heq])
  | _ =>
      left
      dsimp only [Write.apply]
      repeat' split
      all_goals rfl

/-- The command that a call statement queues. -/
def queuedCommand : CallStmt → Option Command
  | .sendDisconnect => some .disconnect
  | .sendCommand c => some c
  | .sendTransfer taskId t => some (t.command taskId)
  | _ => none

/-- A call statement leaves the queues alone, or adds its command to one that is received. -/
theorem queues_of_call (s : Shared) (c : CallStmt) :
    (c.exec s).shared.queues = s.queues ∨
      ∃ g cmd, queuedCommand c = some cmd ∧ (s.queues g).receiving = true ∧
        (c.exec s).shared.queues = Function.update s.queues g
          { s.queues g with commands := (s.queues g).commands ++ [cmd] } := by
  have hsend : ∀ cmd, (s.trySend cmd).1.queues = s.queues ∨
      ∃ g, (s.queues g).receiving = true ∧ (s.trySend cmd).1.queues = Function.update s.queues g
        { s.queues g with commands := (s.queues g).commands ++ [cmd] } := by
    intro cmd
    rcases trySend_frame s cmd with ⟨heq, _⟩ | ⟨g, _, hreceiving, _, heq⟩
    · exact .inl (by rw [heq])
    · exact .inr ⟨g, hreceiving, by rw [heq]; rfl⟩
  cases c with
  | sendDisconnect =>
      rcases hsend .disconnect with heq | ⟨g, hreceiving, heq⟩
      · exact .inl heq
      · exact .inr ⟨g, .disconnect, rfl, hreceiving, heq⟩
  | sendCommand cmd =>
      rcases hsend cmd with heq | ⟨g, hreceiving, heq⟩
      · exact .inl heq
      · exact .inr ⟨g, cmd, rfl, hreceiving, heq⟩
  | sendTransfer taskId t =>
      rcases hsend (t.command taskId) with heq | ⟨g, hreceiving, heq⟩
      · exact .inl heq
      · exact .inr ⟨g, t.command taskId, rfl, hreceiving, heq⟩
  | _ =>
      left
      dsimp only [CallStmt.exec]
      repeat' split
      all_goals rfl

/-! ### Only the generations so far -/

/-- A statement keeps the later generations without a queue. -/
theorem queuesBelow_of_exec {choice : Choice} {s : Shared} {st : Stmt} {out : NativeOutcome}
    (hexec : st.exec choice s = some out) (hbelow : QueuesBelow s) : QueuesBelow out.shared := by
  cases st with
  | write w =>
      cases hexec
      intro g hg
      rw [(write_frame s w).1] at hg
      rcases queues_of_write s w with heq | ⟨g', heq⟩
      · rw [heq]
        exact hbelow g hg
      · rw [heq]
        -- A queue that is dropped was there before.
        by_cases hgg : g = g'
        · subst hgg
          simp
        · rw [Function.update_of_ne hgg]
          exact hbelow g hg
  | handler h =>
      cases hexec
      obtain ⟨_, _, _, _, _, _, heq⟩ := handler_frame s h
      rw [heq]
      exact hbelow
  | eventLoop l =>
      intro g hg
      have hgen : out.shared.connectionGeneration = s.connectionGeneration := by
        obtain ⟨_, _, _, _, _, _, _, _, _, _, _, _, heq, _⟩ := loop_frame hexec
        rw [heq]
      rw [hgen] at hg
      -- A queue that is received from has a command, so it is no later one.
      by_cases hl : ∃ sess, l = .receive sess
      · obtain ⟨sess, rfl⟩ := hl
        have hreceive : (LoopStmt.receive sess).exec choice s = some out := hexec
        rcases receive_step hreceive with ⟨_, rfl⟩ | ⟨c, rest, hcons, hqueues, _⟩
        · exact hbelow g hg
        · have hne : g ≠ sess.generation := by
            rintro rfl
            rw [(hbelow _ hg).1] at hcons
            cases hcons
          rw [hqueues, Function.update_of_ne hne]
          exact hbelow g hg
      · rw [queues_of_loop hexec fun sess h => hl ⟨sess, h⟩]
        exact hbelow g hg
  | call c =>
      cases hexec
      intro g hg
      have hgen : (c.exec s).shared.connectionGeneration = s.connectionGeneration := by
        obtain ⟨_, _, _, _, _, _, _, _, heq, _⟩ := call_frame s c
        rw [heq]
      rw [hgen] at hg
      rcases queues_of_call s c with heq | ⟨g', cmd, _, hreceiving, heq⟩
      · rw [heq]
        exact hbelow g hg
      -- A queue that is sent to has a receiver, so it is no later one.
      · have hne : g ≠ g' := by
          rintro rfl
          rw [(hbelow g hg).2] at hreceiving
          cases hreceiving
        rw [heq, Function.update_of_ne hne]
        exact hbelow g hg
  | task t =>
      cases t with
      -- The next generation gets its queue, and the others are later still.
      | advanceGeneration attempt serverName =>
          cases hexec
          intro g hg
          have hlt : s.connectionGeneration + 1 < g := hg
          rw [queues_setQueue, if_neg (by omega)]
          exact hbelow g (by omega)
      | _ =>
          dsimp only [Stmt.exec, TaskStmt.exec] at hexec
          repeat' split at hexec
          all_goals cases hexec
          all_goals exact hbelow

/-- In every run the queues above the current generation are empty. -/
theorem queuesBelow_of_run {ok : Machine → NativeLabel → Prop} {P : Machine}
    (hrun : native.Run ok P) : QueuesBelow P.shared := by
  refine hrun.invariant (P := fun P => QueuesBelow P.shared) ?_ ?_
  · rintro P ⟨hshared, _⟩ g _
    rw [hshared]
    exact ⟨rfl, rfl⟩
  · intro P P' label hbelow _ hnext
    cases label with
    | run i choice =>
        obtain ⟨_, _, _, _, _, _, hexec, rfl⟩ := Pool.next_run hnext
        exact queuesBelow_of_exec hexec hbelow
    | env event =>
        obtain ⟨_, _, henv, rfl⟩ := Pool.next_env hnext
        have henv' : event.exec P.shared = some _ := henv
        rcases happening_cases henv' with ⟨c, _, rfl, _⟩ | ⟨_, _, rfl, _⟩ | ⟨_, _, _, rfl, _⟩
        · unfold Shared.noteRequest
          split <;> exact hbelow
        · exact hbelow
        · exact hbelow

/-! ### A queued command -/

/-- A command stays in its place of the queue, unless the queue is received from or dropped. -/
theorem command_kept {choice : Choice} {s : Shared} {st : Stmt} {out : NativeOutcome}
    (hexec : st.exec choice s = some out) (hbelow : QueuesBelow s) {g n : Nat} {c : Command}
    (hc : (s.queues g).commands[n]? = some c)
    (hreceive : ∀ sess, st = .eventLoop (.receive sess) → sess.generation ≠ g)
    (hdrop : st ≠ .write (.dropReceiver g)) : (out.shared.queues g).commands[n]? = some c := by
  cases st with
  | write w =>
      cases hexec
      cases w with
      | dropReceiver g' =>
          have hne : g ≠ g' := by
            rintro rfl
            exact hdrop rfl
          show ((s.setQueue g' _).queues g).commands[n]? = _
          rw [queues_setQueue, if_neg hne, hc]
      | downloadProgress taskId done =>
          obtain ⟨_, _, heq, _⟩ := downloadProgress_frame s taskId done
          rwa [heq]
      | uploadProgress taskId n =>
          obtain ⟨_, _, heq, _⟩ := uploadProgress_frame s taskId n
          rwa [heq]
      | _ =>
          dsimp only [Write.apply]
          repeat' split
          all_goals exact hc
  | handler h =>
      cases hexec
      obtain ⟨_, _, _, _, _, _, heq⟩ := handler_frame s h
      rwa [heq]
  -- Another loop receives from another queue.
  | eventLoop l =>
      by_cases hl : ∃ sess, l = .receive sess
      · obtain ⟨sess, rfl⟩ := hl
        have hother := hreceive sess rfl
        have hexec' : (LoopStmt.receive sess).exec choice s = some out := hexec
        rcases receive_step hexec' with ⟨_, rfl⟩ | ⟨_, _, _, hqueues, _⟩
        · exact hc
        · rw [hqueues, Function.update_of_ne (Ne.symm hother), hc]
      · rw [queues_of_loop hexec fun sess h => hl ⟨sess, h⟩, hc]
  | call call =>
      cases hexec
      rcases queues_of_call s call with heq | ⟨g', cmd, _, _, heq⟩
      · rw [heq, hc]
      · rw [heq]
        by_cases hg : g = g'
        · -- A command is added behind it.
          subst hg
          have hlt := (List.getElem?_eq_some_iff.mp hc).1
          rw [Function.update_self]
          exact (List.getElem?_append_left hlt).trans hc
        · rw [Function.update_of_ne hg, hc]
  | task t =>
      cases t with
      | advanceGeneration attempt serverName =>
          cases hexec
          -- The queue of the next generation is new, so it is not this one.
          have hle : g ≤ s.connectionGeneration := by
            by_contra hlt
            rw [(hbelow g (by omega)).1] at hc
            cases hc
          show ((Shared.setQueue _ (s.connectionGeneration + 1) _).queues g).commands[n]? = _
          rw [queues_setQueue, if_neg (by omega)]
          exact hc
      | _ =>
          dsimp only [Stmt.exec, TaskStmt.exec] at hexec
          repeat' split at hexec
          all_goals cases hexec
          all_goals exact hc

end Nek0.Proofs.Native
