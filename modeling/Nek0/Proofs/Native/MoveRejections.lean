import Nek0.Proofs.Native.Emissions
import Nek0.Proofs.Native.Numbering
import Nek0.Proofs.Native.Sessions

/-!
# `Nek0.Proofs.Native.MoveRejections`: who hears of a wrong channel password

A tokenless move of our own client is sent with a return code, so its rejection comes as a
`MessageResult`. `handle_control_item` looks for it among the bare errors instead: an invalid
channel password there is put down to the last move. So a rejected move is never reported, and what
is reported is the rejection of another command.

`attributesRightly` is the condition that neither happens, and `movesReported_of_run` says that the
reports are right then.
-/

set_option autoImplicit false

namespace Nek0.Proofs.Native

open Nek0.Lib
open Nek0.Native

/-- The server's rejection of our own tokenless move `sid` to `channelId` was handled, within the
window. -/
def Rejected (s : Shared) (sid : SendId) (channelId : UInt64) : Prop :=
  ∃ sent con code time, (sid, channelId, sent) ∈ s.history.moves ∧
    (con, .messageResult code (.error .channelInvalidPassword) sid, time) ∈ s.history.passed ∧
    time - sent ≤ 5000

/-- No thread has anything left to do for an item. -/
def NothingInHand (P : Machine) : Prop :=
  ∀ t ∈ P.threads, ∀ st ∈ t.prog, (∀ w, st ≠ .write w) ∧ ∀ h, st ≠ .handler h

/-- Wrong channel passwords are reported for the right moves. -/
structure MovesReported (P : Machine) : Prop where
  /-- A rejected move is reported once, with its channel. -/
  once : NothingInHand P → ∀ sid channelId, Rejected P.shared sid channelId →
    P.shared.history.emitted.count (.moveRejected channelId.toUInt32, .answer sid sid) = 1
  /-- Nothing else is reported. -/
  only : ∀ channelId origin, (.moveRejected channelId, origin) ∈ P.shared.history.emitted →
    ∃ sid cid, Rejected P.shared sid cid ∧ cid.toUInt32 = channelId ∧ origin = .answer sid sid

/-- The answer `sid` would reject our own tokenless move, within the window. -/
def rejectsOwnMove (s : Shared) (sid : SendId) : Bool :=
  s.history.moves.any fun m => m.1 == sid && decide (s.now - m.2.2 ≤ 5000)

/-- The item that is handled does not reject our own tokenless move, and no bare error about a
channel password is handled within the window of a move. -/
def attributesRightly (P : Machine) (_ : Choice) : Stmt → Bool
  | .eventLoop (.handle sess _) =>
      match (P.shared.conns sess.con).handling with
      | .messageResult _ (.error e) sid :: _ =>
          !(e == .channelInvalidPassword && rejectsOwnMove P.shared sid)
      | _ => true
  | .handler .takePendingMove =>
      P.shared.pendingMove.all fun m => !decide (P.shared.now - m.2 ≤ 5000)
  | _ => true

/-! ### No rejection is handled -/

/-- The moves grow at a send, and the handled items at the handling of one. -/
theorem moves_of_exec {choice : Choice} {s : Shared} {st : Stmt} {out : NativeOutcome}
    (hexec : st.exec choice s = some out) :
    (∃ reply : Reply, (out.shared.history.moves = s.history.moves ∨
        out.shared.history.moves = s.history.moves ++ reply.moves s.history.sends s.now) ∧
      out.shared.history.passed = s.history.passed) ∨
    ∃ sess ended it rest, st = .eventLoop (.handle sess ended) ∧
      (s.conns sess.con).handling = it :: rest ∧
      out.shared.history.moves = s.history.moves ∧
      out.shared.history.passed = s.history.passed ++ [(sess.con, it, s.now)] := by
  -- Most statements touch neither of the two.
  have hsame : out.shared.history.moves = s.history.moves →
      out.shared.history.passed = s.history.passed →
      (∃ reply : Reply, (out.shared.history.moves = s.history.moves ∨
          out.shared.history.moves = s.history.moves ++ reply.moves s.history.sends s.now) ∧
        out.shared.history.passed = s.history.passed) :=
    fun hmoves hpassed => ⟨.permOp none, .inl hmoves, hpassed⟩
  cases st with
  | write w =>
      cases hexec
      refine .inl (hsame ?_ ?_)
      all_goals
        cases w with
        | downloadProgress taskId done =>
            obtain ⟨_, _, heq, _⟩ := downloadProgress_frame s taskId done
            rw [heq]
        | uploadProgress taskId n =>
            obtain ⟨_, _, heq, _⟩ := uploadProgress_frame s taskId n
            rw [heq]
        | _ =>
            dsimp only [Write.apply]
            repeat' split
            all_goals rfl
  | handler h =>
      cases hexec
      obtain ⟨_, _, _, _, _, _, heq⟩ := handler_frame s h
      exact .inl (hsame (by rw [heq]) (by rw [heq]))
  | eventLoop l =>
      cases l with
      -- The send of our own move is recorded with its time.
      | sendWithResult sess reply =>
          have hsend : ∀ failure,
              ((s.sendWithResult sess.con reply failure).shared.history.moves = s.history.moves ∨
                (s.sendWithResult sess.con reply failure).shared.history.moves =
                  s.history.moves ++ reply.moves s.history.sends s.now) ∧
              (s.sendWithResult sess.con reply failure).shared.history.passed =
                s.history.passed := by
            intro failure
            unfold Shared.sendWithResult
            dsimp only
            repeat' split
            · exact ⟨.inl rfl, rfl⟩
            · exact ⟨.inr rfl, rfl⟩
            · exact ⟨.inl rfl, rfl⟩
          dsimp only [Stmt.exec, LoopStmt.exec] at hexec
          split at hexec <;> cases hexec
          all_goals exact .inl ⟨reply, hsend _⟩
      -- The item that is handled is recorded with its time.
      | handle sess ended =>
          dsimp only [Stmt.exec, LoopStmt.exec] at hexec
          split at hexec
          · cases hexec
            exact .inl (hsame rfl rfl)
          · rename_i it rest hhandling
            cases hexec
            exact .inr ⟨sess, ended, it, rest, rfl, hhandling, rfl, rfl⟩
      | ownClient sess c =>
          cases hexec
          refine .inl (hsame ?_ ?_)
          all_goals
            dsimp only [Shared.ownClientIdOrCache]
            repeat' split
            all_goals rfl
      | startDownload sess ended taskId total =>
          dsimp only [Stmt.exec, LoopStmt.exec] at hexec
          split at hexec <;> cases hexec
          · obtain ⟨_, _, heq, _⟩ := maybePublishFtProgress_frame s taskId true
            exact .inl (hsame (by rw [heq]) (by rw [heq]))
          · exact .inl (hsame rfl rfl)
      | _ =>
          dsimp only [Stmt.exec, LoopStmt.exec] at hexec
          repeat' split at hexec
          all_goals cases hexec
          all_goals exact .inl (hsame rfl rfl)
  | call c =>
      cases hexec
      obtain ⟨_, _, _, _, _, _, _, _, heq, _, _⟩ := call_frame s c
      exact .inl (hsame (by rw [heq]) (by rw [heq]))
  | task t =>
      obtain ⟨_, _, _, _, heq⟩ := task_frame hexec
      exact .inl (hsame (by rw [heq]) (by rw [heq]))

/-- A step of the condition handles no rejection of a move. -/
theorem not_rejected_step {P : Machine} {choice : Choice} {st : Stmt} {out : NativeOutcome}
    (hexec : st.exec choice P.shared = some out) (hok : attributesRightly P choice st = true)
    (hbelow : NumbersBelow P.shared.history.sends P.shared)
    (h : ∀ sid cid, ¬ Rejected P.shared sid cid) (sid : SendId) (cid : UInt64) :
    ¬ Rejected out.shared sid cid := by
  rintro ⟨sent, con, code, time, hmove, hpassed, hwindow⟩
  rcases moves_of_exec hexec with ⟨reply, hmoves, hsame⟩ | ⟨sess, ended, it, rest, rfl, hhandling,
    hmoves, hmore⟩
  · rw [hsame] at hpassed
    rcases hmoves with hmoves | hmoves
    · rw [hmoves] at hmove
      exact h sid cid ⟨sent, con, code, time, hmove, hpassed, hwindow⟩
    · rw [hmoves] at hmove
      rcases List.mem_append.mp hmove with hold | hnew
      · exact h sid cid ⟨sent, con, code, time, hold, hpassed, hwindow⟩
      · -- The move has just been sent, so no answer to it was handled before.
        have hlt : sid < P.shared.history.sends := hbelow.passed _ hpassed sid rfl
        cases reply with
        | ownMove channelId =>
            have hsid : sid = P.shared.history.sends :=
              (Prod.mk.inj (List.mem_singleton.mp hnew)).1
            rw [hsid] at hlt
            exact (Nat.lt_irrefl _ hlt).elim
        | _ => cases hnew
  · rw [hmoves] at hmove
    rw [hmore] at hpassed
    rcases List.mem_append.mp hpassed with hold | hnew
    · exact h sid cid ⟨sent, con, code, time, hmove, hold, hwindow⟩
    · obtain ⟨_, hitem⟩ := Prod.mk.inj (List.mem_singleton.mp hnew)
      obtain ⟨rfl, rfl⟩ := Prod.mk.inj hitem
      have hrejects : rejectsOwnMove P.shared sid = true :=
        List.any_eq_true.mpr ⟨_, hmove, by simpa using hwindow⟩
      simp [attributesRightly, hhandling, hrejects] at hok

/-! ### No bare error is put down to a move -/

/-- A step of the condition leads to no report. -/
theorem not_moveRejected_step {P P' : Machine} {label : NativeLabel}
    (hnext : native.next label P = some P')
    (hok : Pool.checks attributesRightly P label = true)
    (h : ∀ channelId origin, ¬ Emitted P (.moveRejected channelId, origin))
    (channelId : UInt32) (origin : Origin) : ¬ Emitted P' (.moveRejected channelId, origin) := by
  intro hemitted
  rcases emits_of_step hnext hemitted with hbefore | ⟨i, choice, th, st, rest, rfl, hth, hprog,
    hemits⟩
  · exact h channelId origin hbefore
  · have hcond : attributesRightly P choice st = true := Pool.cond_of_checks hok hth hprog
    cases hemits with
    | moveRejected hmove hwindow =>
        simp only [attributesRightly, hmove, Option.all_some, Bool.not_eq_true',
          decide_eq_false_iff_not] at hcond
        exact hcond hwindow

/-! ### Runs -/

/-- No rejection of a move was handled, and none is reported. -/
def NoneRejected (P : Machine) : Prop :=
  (∀ sid cid, ¬ Rejected P.shared sid cid) ∧
    ∀ channelId origin, ¬ Emitted P (.moveRejected channelId, origin)

/-- In every run of steps of `attributesRightly`, wrong channel passwords are reported for the right
moves. -/
theorem movesReported_of_run {P : Machine} (hrun : RunUnder attributesRightly P) :
    MovesReported P := by
  -- Under the condition no rejection is handled at all, and none is reported.
  have hnone : NoneRejected P := by
    refine hrun.invariant_of (P := NoneRejected)
      (Q := fun P => NumbersBelow P.shared.history.sends P.shared)
      (fun _ => numbersBelow_of_run) ?_ ?_
    · rintro P ⟨hshared, hthreads⟩
      constructor
      · rintro sid cid ⟨_, _, _, _, hmove, _⟩
        rw [hshared] at hmove
        cases hmove
      · rintro channelId origin (hemitted | ⟨t, ht, _⟩)
        · rw [hshared] at hemitted
          cases hemitted
        · rw [hthreads] at ht
          cases ht
    · rintro P P' label hbelow _ ⟨hrejected, hemitted⟩ hok hnext
      refine ⟨?_, not_moveRejected_step hnext hok hemitted⟩
      cases label with
      | run i choice =>
          obtain ⟨th, st, rest, out, hth, hprog, hexec, rfl⟩ := Pool.next_run hnext
          exact not_rejected_step hexec (Pool.cond_of_checks hok hth hprog) hbelow hrejected
      | env event =>
          -- What happens outside sends nothing and handles nothing.
          obtain ⟨s, spawn, henv, rfl⟩ := Pool.next_env hnext
          have hhistory : s.history.moves = P.shared.history.moves ∧
              s.history.passed = P.shared.history.passed := by
            rcases happening_cases henv with ⟨c, _, rfl, _⟩ | ⟨_, _, rfl, _⟩ | ⟨_, _, _, rfl, _⟩
            · unfold Shared.noteRequest
              split <;> exact ⟨rfl, rfl⟩
            · exact ⟨rfl, rfl⟩
            · exact ⟨rfl, rfl⟩
          rintro sid cid ⟨sent, con, code, time, hmove, hpassed, hwindow⟩
          dsimp only at hmove hpassed
          rw [hhistory.1] at hmove
          rw [hhistory.2] at hpassed
          exact hrejected sid cid ⟨sent, con, code, time, hmove, hpassed, hwindow⟩
  constructor
  · intro _ sid cid h
    exact (hnone.1 sid cid h).elim
  · intro channelId origin h
    exact (hnone.2 channelId origin (.inl h)).elim

/-- Our own client moves to channel 5 without a token, and the server answers. -/
def ownMoveAnswered (res : Except TsError Unit) : List NativeLabel :=
  publishSteps 0 ++ startSteps 0 ++
    [.env (.call (.queueCommand (.moveChannel 1 5 none none))), .run 3 .go, .run 3 .go] ++
    iterateSteps 2 ++ List.replicate 4 (.run 2 .go) ++
    [.run 2 (.incoming (.answer 0 0 res)), .run 2 (.incoming .timeout)] ++
    List.replicate 6 (.run 2 .go)

/-- An accepted move is not reported. -/
theorem movesReported_accepted : ∃ P : Machine,
    P.shared.history.moves = [(0, 5, 0)] ∧
      P.shared.history.passed = [(1, .messageResult 0 (.ok ()) 0, 0)] ∧ MovesReported P := by
  obtain ⟨P, hrun, hobs⟩ := exists_run attributesRightly (ownMoveAnswered (.ok ()))
    (fun P => (P.shared.history.moves, P.shared.history.passed))
    (a := ([(0, 5, 0)], [(1, .messageResult 0 (.ok ()) 0, 0)])) rfl
  obtain ⟨hmoves, hpassed⟩ := Prod.mk.inj hobs
  exact ⟨P, hmoves, hpassed, movesReported_of_run hrun⟩

/-- Nor is a move with a wrong channel password. -/
theorem not_movesReported : ¬ ∀ P : Machine, native.Reachable P → MovesReported P := by
  intro hall
  obtain ⟨P, hrun, hobs⟩ := exists_run (fun _ _ _ => true)
    (ownMoveAnswered (.error .channelInvalidPassword))
    (fun P => (P.shared.history.moves, P.shared.history.passed, P.shared.history.emitted,
      P.threads.map (·.prog)))
    (a := ([(0, 5, 0)], [(1, .messageResult 0 (.error .channelInvalidPassword) 0, 0)], [],
      [[], [], [.eventLoop (.top ⟨1, 1⟩)], []])) rfl
  simp only [Prod.mk.injEq] at hobs
  obtain ⟨hmoves, hpassed, hemitted, hprogs⟩ := hobs
  have hidle : NothingInHand P := by
    intro t ht st hst
    have hprog : t.prog ∈ P.threads.map (·.prog) := List.mem_map_of_mem ht
    rw [hprogs] at hprog
    simp only [List.mem_cons, List.not_mem_nil, or_false] at hprog
    rcases hprog with hprog | hprog | hprog | hprog
    all_goals
      rw [hprog] at hst
      simp only [List.mem_cons, List.not_mem_nil, or_false] at hst
    subst hst
    constructor
    all_goals
      intro _ h
      cases h
  have hrejected : Rejected P.shared 0 5 := by
    refine ⟨0, 1, 0, 0, ?_, ?_, by decide⟩
    · rw [hmoves]
      exact List.mem_singleton_self _
    · rw [hpassed]
      exact List.mem_singleton_self _
  have hcount := (hall P hrun.reachable).once hidle 0 5 hrejected
  rw [hemitted] at hcount
  cases hcount

end Nek0.Proofs.Native
