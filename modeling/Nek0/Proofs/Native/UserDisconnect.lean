import Nek0.Proofs.Native.Ownership
import Nek0.Proofs.Native.Sessions

/-!
# `Nek0.Proofs.Native.UserDisconnect`: a session that the user has ended

A disconnect request makes the event loop call `Connection::disconnect` and poll the stream to its
end. `requested con` says that this has begun for connection `con`.

`staysDown` is the condition under which the session then never becomes connected again
(`not_reconnected`): the link is up when `disconnect` is called, the packet is sent, and the link is
not lost before the stream ends. Without a link `disconnect` does nothing, and the stream that the
loop is polling goes on to reconnect (`reconnected`).
-/

set_option autoImplicit false

namespace Nek0.Proofs.Native

open Nek0.Lib
open Nek0.Native

/-- The event loop has begun to process a disconnect request for connection `con`. -/
def requested (con : Nat) (s : Shared) : Prop := ∃ r ∈ s.history.userExits, r.2.1 = con

/-- The condition under which a requested disconnect is final. -/
def staysDown (P : Machine) (choice : Choice) : Stmt → Bool
  | .eventLoop (.disconnect sess _) =>
      match choice with
      | .sendFails _ => false
      | _ => (P.shared.conns sess.con).link == .connected
  | .eventLoop (.closeStream _ _) =>
      match choice with
      | .incoming (.lost _) => false
      | _ => true
  | _ => true

/-- What may still be to execute for a connection whose end was requested. -/
def Closing (s : Shared) (con : Nat) : Stmt → Prop
  | .eventLoop (.disconnect _ _) => True
  | .eventLoop (.closeStream _ _) => (s.conns con).link = .closing
  | .eventLoop (.guardExit _ _) => True
  | .write (.dropConnection _) => True
  | _ => False

/-- Nobody can take up connection `con` again. -/
def Withdrawn (con : Nat) (s : Shared) : Prop :=
  requested con s → con ≤ s.history.attempts ∧ s.connectionStash ≠ some con

/-- What a thread still executes for connection `con` is on the way out. -/
def Leaving (con : Nat) (s : Shared) (t : NativeThread) : Prop :=
  requested con s → ∀ st ∈ t.prog, concerns con st = true → Closing s con st

/-- Closing depends on the connection only. -/
theorem closing_congr {s s' : Shared} {con : Nat} {st : Stmt} (h : s'.conns con = s.conns con)
    (hst : Closing s con st) : Closing s' con st := by
  cases st with
  | eventLoop l =>
      cases l with
      | closeStream sess way => exact (congrArg Conn.link h).trans hst
      | _ => exact hst
  | write w => cases w <;> exact hst
  | _ => exact hst

/-- The end of a connection is only ever requested by the loop that has it. -/
theorem requested_of_exec {choice : Choice} {s : Shared} {st : Stmt} {out : NativeOutcome}
    (hexec : st.exec choice s = some out) {con : Nat} (h : requested con out.shared) :
    requested con s ∨ (concerns con st = true ∧ (∃ g, Iterates g st) ∧
      ∃ sess way, out.front = [.eventLoop (.disconnect sess way)]) := by
  cases st with
  | write w =>
      cases hexec
      left
      cases w with
      | push e origin => cases origin <;> exact h
      | downloadProgress taskId done =>
          obtain ⟨_, _, heq, _⟩ := downloadProgress_frame s taskId done
          rwa [heq] at h
      | uploadProgress taskId n =>
          obtain ⟨_, _, heq, _⟩ := uploadProgress_frame s taskId n
          rwa [heq] at h
      | _ =>
          dsimp only [Write.apply] at h
          repeat' split at h
          all_goals exact h
  | handler hs =>
      cases hexec
      obtain ⟨_, _, _, _, _, _, heq⟩ := handler_frame s hs
      rw [heq] at h
      exact .inl h
  | eventLoop l =>
      cases l with
      -- A request by the flag, and below one by a command. Both are recorded by the loop itself.
      | checkDisconnect sess =>
          dsimp only [Stmt.exec, LoopStmt.exec] at hexec
          split at hexec <;> cases hexec
          · obtain ⟨r, hr, hcon⟩ := h
            rcases List.mem_append.mp hr with hold | hnew
            · exact .inl ⟨r, hold, hcon⟩
            · obtain rfl := List.mem_singleton.mp hnew
              refine .inr ⟨?_, ⟨_, rfl⟩, _, _, rfl⟩
              simpa [concerns, sessionOf] using hcon
          · exact .inl h
      | receive sess =>
          dsimp only [Stmt.exec, LoopStmt.exec] at hexec
          split at hexec
          · cases hexec
            exact .inl h
          · split at hexec <;> cases hexec
            · obtain ⟨r, hr, hcon⟩ := h
              rcases List.mem_append.mp hr with hold | hnew
              · exact .inl ⟨r, hold, hcon⟩
              · obtain rfl := List.mem_singleton.mp hnew
                refine .inr ⟨?_, ⟨_, rfl⟩, _, _, rfl⟩
                simpa [concerns, sessionOf] using hcon
            · exact .inl h
      -- The rest leaves the record of the requests.
      | ownClient sess c =>
          cases hexec
          have heq : (s.ownClientIdOrCache sess.con).1.history = s.history := by
            simp only [Shared.ownClientIdOrCache]
            repeat' split
            all_goals rfl
          left
          simp only [requested, heq] at h
          exact h
      | sendWithResult sess reply =>
          left
          dsimp only [Stmt.exec, LoopStmt.exec, Shared.sendWithResult] at hexec
          repeat' split at hexec
          all_goals cases hexec
          all_goals exact h
      | startDownload sess ended taskId total =>
          left
          dsimp only [Stmt.exec, LoopStmt.exec] at hexec
          split at hexec
          · cases hexec
            obtain ⟨_, _, heq, _⟩ := maybePublishFtProgress_frame s taskId true
            rwa [heq] at h
          · cases hexec
            exact h
      | _ =>
          left
          dsimp only [Stmt.exec, LoopStmt.exec] at hexec
          repeat' split at hexec
          all_goals cases hexec
          all_goals exact h
  | call c =>
      cases hexec
      obtain ⟨_, _, _, _, _, _, _, _, heq, _⟩ := call_frame s c
      rw [heq] at h
      exact .inl h
  | task t =>
      obtain ⟨_, _, _, _, heq⟩ := task_frame hexec
      rw [heq] at h
      exact .inl h

/-- What follows the drop of a connection is not the event loop's. -/
theorem rest_of_dropConnection {owner : Owner} {c : Nat} {rest : List Stmt}
    (h : Shaped ⟨owner, .write (.dropConnection c) :: rest⟩) :
    ∀ k ∈ rest, ∀ l, k ≠ .eventLoop l := by
  rintro k hk l rfl
  cases owner with
  | call => exact h _ (.tail _ hk)
  | connect attempt =>
      rcases h with hcon | ⟨g, _, _, _, hsuffix⟩
      · cases hcon
      · simp [startProgram, List.suffix_cons_iff] at hsuffix
  | eventLoop g =>
      rcases h with hbegin | hiter | hleave
      · cases hbegin
      · rcases hiter.cons with ⟨h, _⟩ | ⟨h, _⟩ <;> exact h.elim
      · exact hleave _ (.tail _ hk)
  | listTimer => exact h _ List.mem_cons_self
  | worker taskId => exact h _ List.mem_cons_self

/-- After a statement on the way out, the rest of its thread is on the way out. -/
theorem closing_of_rest {s s' : Shared} {con : Nat} {owner : Owner} {st : Stmt} {rest : List Stmt}
    (h : Shaped ⟨owner, st :: rest⟩) (hst : Closing s con st)
    (hrest : ∀ k ∈ rest, concerns con k = true → Closing s con k) :
    ∀ k ∈ rest, concerns con k = true → Closing s' con k := by
  intro k hk hcon
  have hiterates : ∀ g, Iterates g st → Closing s' con k := by
    intro g hit
    rw [rest_of_iterates h hit] at hk
    cases hk
  cases st with
  | eventLoop l => cases l <;> first | exact hst.elim | exact hiterates _ rfl
  | write w =>
      cases w with
      | dropConnection c =>
          have hloop := rest_of_dropConnection h k hk
          have hbefore := hrest k hk hcon
          cases k with
          | eventLoop l => exact absurd rfl (hloop l)
          | write w => cases w <;> exact hbefore
          | _ => exact hbefore
      | _ => exact hst.elim
  | _ => exact hst.elim

/-- A connection that is closing goes on closing, unless the server announces its own end. -/
theorem link_of_yield {c c' : Conn} {i : Incoming} {p : Polled} (hyield : c.yield i = some (c', p))
    (hlink : c.link = .closing) (hi : ∀ reason, i ≠ .lost reason) : c'.link = .closing := by
  cases i with
  | lost reason => exact absurd rfl (hi reason)
  | _ =>
      dsimp only [Conn.yield] at hyield
      repeat' split at hyield
      all_goals cases hyield
      all_goals first
        | exact hlink
        | simp_all

/-- What the end of the session leads to is the drop of the connection. -/
theorem closing_of_exitProgram (s s' : Shared) (sess : Session) (way : ExitWay) (con : Nat) :
    ∀ k ∈ exitProgram s sess way, concerns con k = true → Closing s' con k := by
  intro k hk hcon
  have hleaves := leaves_of_exitProgram s sess way k hk
  cases k with
  | write w => cases w <;> trivial
  | _ => exact hleaves.elim

/-- A statement on the way out leads further out, and it does not bring the link back. -/
theorem closing_step {choice : Choice} {P : Machine} {con : Nat} {st : Stmt} {out : NativeOutcome}
    (hexec : st.exec choice P.shared = some out) (hcon : concerns con st = true)
    (hst : Closing P.shared con st) (hok : staysDown P choice st = true) :
    (∀ k ∈ out.front, concerns con k = true → Closing out.shared con k) ∧
      ((P.shared.conns con).link ≠ .connected → (out.shared.conns con).link ≠ .connected) := by
  cases st with
  | write w =>
      cases hexec
      cases w with
      -- The last write drops the connection.
      | dropConnection c =>
          obtain rfl : c = con := by simpa [concerns] using hcon
          refine ⟨by simp, fun _ => ?_⟩
          simp [Write.apply, Shared.setConn, Conn.drop]
      | _ => exact hst.elim
  | eventLoop l =>
      cases l with
      -- By the condition the link is up when the loop disconnects. It is closing from then on.
      | disconnect sess way =>
          obtain rfl : sess.con = con := by simpa [concerns, sessionOf] using hcon
          dsimp only [Stmt.exec, LoopStmt.exec] at hexec
          split at hexec
          · cases hok
          · have hlink : (P.shared.conns sess.con).link = .connected := by
              cases choice <;> simp_all [staysDown]
            cases hexec
            refine ⟨?_, fun h => absurd hlink h⟩
            simp [Closing, Shared.setConn, Conn.disconnect, hlink]
      -- The stream is read until it ends. By the condition the link is not lost meanwhile.
      | closeStream sess way =>
          obtain rfl : sess.con = con := by simpa [concerns, sessionOf] using hcon
          have hlink : (P.shared.conns sess.con).link = .closing := hst
          suffices h : (out.shared.conns sess.con).link = .closing ∧
              ∀ k ∈ out.front, concerns sess.con k = true → Closing out.shared sess.con k by
            refine ⟨h.2, fun _ => ?_⟩
            rw [h.1]
            decide
          dsimp only [Stmt.exec, LoopStmt.exec] at hexec
          split at hexec
          · rename_i i
            have hi : ∀ reason, i ≠ .lost reason := by
              rintro reason rfl
              cases hok
            split at hexec
            · cases hexec
            all_goals
              rename_i hyield
              have hafter := link_of_yield hyield hlink hi
              cases hexec
              simp [Closing, Shared.setConn, Shared.recordYield, hafter]
          · cases hexec
      | guardExit sess way =>
          cases hexec
          exact ⟨closing_of_exitProgram _ _ sess way con, fun h => h⟩
      | _ => exact hst.elim
  | _ => exact hst.elim

/-- In every run under the condition, a connection whose end was requested is on its way out. -/
theorem leaving_of_run {P : Machine} (hrun : RunUnder staysDown P) (con : Nat) :
    Pool.Keeps (Withdrawn con) (Leaving con) P := by
  refine hrun.invariant_of (P := Pool.Keeps (Withdrawn con) (Leaving con)) (fun P h => h) ?_ ?_
  · rintro P ⟨hshared, hthreads⟩
    refine ⟨?_, by simp [hthreads]⟩
    rintro ⟨r, hr, _⟩
    rw [hshared] at hr
    cases hr
  · intro P P' label hrun _ hkeeps hok hnext
    cases label with
    | run i choice =>
        refine Pool.keeps_run hnext hkeeps ?_
        intro th st rest out hth hprog hexec
        have hmem := List.mem_of_getElem? hth
        have hcond : staysDown P choice st = true := Pool.cond_of_checks hok hth hprog
        have hshaped : Shaped ⟨th.owner, st :: rest⟩ := hprog ▸ shaped_of_run hrun th hmem
        have hholds : ∀ k ∈ st :: rest, concerns con k = true → holdsConn con th = true := by
          intro k hk hcon
          exact List.any_eq_true.mpr ⟨k, by rwa [hprog], hcon⟩
        have hthread := hkeeps.threads th hmem
        -- A connection whose end is requested has left the stash: its loop has it.
        have hstart : requested con out.shared →
            con ≤ P.shared.history.attempts ∧ P.shared.connectionStash ≠ some con := by
          intro hreq
          rcases requested_of_exec hexec hreq with hbefore | ⟨hself, _⟩
          · exact hkeeps.shared hbefore
          · have hself := hholds st List.mem_cons_self hself
            exact ⟨le_attempts_of_holdsConn hrun hmem hself, stash_ne_of_holdsConn hrun hmem hself⟩
        refine ⟨?_, ?_, ?_, ?_⟩
        -- The connection is known, and it is not stashed again.
        · intro hreq
          obtain ⟨hle, hne⟩ := hstart hreq
          have hsource := requested_of_exec hexec hreq
          refine ⟨hle.trans (attempts_of_exec hexec), unstashed_of_exec hexec hne ?_⟩
          rintro rfl
          rcases hsource with hbefore | ⟨_, ⟨_, hit⟩, _⟩
          · exact hthread hbefore _ (by rw [hprog]; exact List.mem_cons_self) (by simp [concerns])
          · exact hit
        -- Another thread has another connection, since one thread holds each.
        · rintro t ⟨j, hij, hj⟩ ht hreq k hk hcon
          have hother : concerns con st = false := by
            by_contra h
            have hnot := not_holdsConn_of_other hrun hij hth hj
              (hholds st List.mem_cons_self (by simpa using h))
            rw [show holdsConn con t = true from List.any_eq_true.mpr ⟨k, hk, hcon⟩] at hnot
            cases hnot
          rcases requested_of_exec hexec hreq with hbefore | ⟨hself, _⟩
          · exact closing_congr (conns_of_exec hexec hother) (ht hbefore k hk hcon)
          · rw [hother] at hself
            cases hself
        -- The thread itself goes on towards the end, or has just turned towards it.
        · intro hreq k hk hcon
          rcases requested_of_exec hexec hreq with hbefore | ⟨_, ⟨g, hit⟩, sess, way, hfront⟩
          · have hall := hthread hbefore
            rw [hprog] at hall
            have hrest : ∀ k ∈ rest, concerns con k = true → Closing P.shared con k :=
              fun k hk => hall k (.tail _ hk)
            by_cases hself : concerns con st = true
            · have hst := hall st List.mem_cons_self hself
              rcases List.mem_append.mp hk with hk | hk
              · exact (closing_step hexec hself hst hcond).1 k hk hcon
              · exact closing_of_rest hshaped hst hrest k hk hcon
            · rcases List.mem_append.mp hk with hk | hk
              · rcases concerns_front hexec hk hcon with h | ⟨h, _⟩
                · exact absurd h hself
                · exact absurd h (hstart hreq).2
              · exact closing_congr (conns_of_exec hexec (by simpa using hself)) (hrest k hk hcon)
          · rw [hfront, rest_of_iterates hshaped hit] at hk
            obtain rfl := List.mem_singleton.mp hk
            trivial
        -- A new thread holds a connection of a new attempt.
        · intro t ht hreq k hk hcon
          obtain ⟨rfl, _⟩ := holdsConn_spawn hexec ht (List.any_eq_true.mpr ⟨k, hk, hcon⟩)
          exact absurd (hstart hreq).1 (Nat.not_succ_le_self _)
    | env event =>
        refine Pool.keeps_env hnext hkeeps ?_
        intro s spawn henv
        rcases happening_cases henv with ⟨c, _, rfl, rfl⟩ | ⟨_, _, rfl, rfl⟩ |
          ⟨con', _, hlink, rfl, rfl⟩
        · have heq : (P.shared.noteRequest c).connectionStash = P.shared.connectionStash ∧
              (P.shared.noteRequest c).history.attempts = P.shared.history.attempts ∧
              (P.shared.noteRequest c).history.userExits = P.shared.history.userExits ∧
              (P.shared.noteRequest c).conns = P.shared.conns := by
            unfold Shared.noteRequest
            split <;> exact ⟨rfl, rfl, rfl, rfl⟩
          obtain ⟨hstash, hattempts, hexits, hconns⟩ := heq
          have hreq : requested con (P.shared.noteRequest c) → requested con P.shared := by
            rw [requested, hexits]
            exact id
          refine ⟨?_, ?_, ?_⟩
          · intro h
            rw [hstash, hattempts]
            exact hkeeps.shared (hreq h)
          · intro t _ ht h k hk hcon
            exact closing_congr (congrFun hconns con) (ht (hreq h) k hk hcon)
          · intro t ht _ k hk hcon
            obtain rfl := List.mem_singleton.mp ht
            rw [con_of_program c con k hk] at hcon
            cases hcon
        · exact ⟨hkeeps.shared, fun _ _ h => h, by simp⟩
        · refine ⟨hkeeps.shared, ?_, by simp⟩
          intro t _ ht h k hk hcon
          by_cases hne : con = con'
          · -- The link that was lost was up, so the stream is not yet closing.
            subst hne
            have hbefore := ht h k hk hcon
            cases k with
            | eventLoop l =>
                cases l with
                | closeStream sess way =>
                    rw [Closing, hlink] at hbefore
                    cases hbefore
                | _ => exact hbefore
            | write w => cases w <;> exact hbefore
            | _ => exact hbefore
          · exact closing_congr (Function.update_of_ne hne _ _) (ht h k hk hcon)

/-- In every run under the condition, a session whose end was requested does not become connected
again. -/
theorem not_reconnected {P P' : Machine} {label : NativeLabel} {con : Nat}
    (hrun : RunUnder staysDown P) (hok : Pool.checks staysDown P label = true)
    (hnext : Pool.next nativeLanguage label P = some P') (hreq : requested con P.shared)
    (hlink : (P.shared.conns con).link ≠ .connected) : (P'.shared.conns con).link ≠ .connected := by
  have hkeeps := leaving_of_run hrun con
  cases label with
  | run i choice =>
      obtain ⟨th, st, rest, out, hth, hprog, hexec, rfl⟩ := Pool.next_run hnext
      by_cases hself : concerns con st = true
      · have hst := hkeeps.threads th (List.mem_of_getElem? hth) hreq st
          (by rw [hprog]; exact List.mem_cons_self) hself
        exact (closing_step hexec hself hst (Pool.cond_of_checks hok hth hprog)).2 hlink
      · show (out.shared.conns con).link ≠ .connected
        rwa [conns_of_exec hexec (by simpa using hself)]
  | env event =>
      obtain ⟨s, spawn, henv, rfl⟩ := Pool.next_env hnext
      rcases happening_cases henv with ⟨c, _, rfl, rfl⟩ | ⟨_, _, rfl, rfl⟩ | ⟨con', _, _, rfl, rfl⟩
      · show ((P.shared.noteRequest c).conns con).link ≠ .connected
        unfold Shared.noteRequest
        split <;> exact hlink
      · exact hlink
      · show ((P.shared.setConn con' _).conns con).link ≠ .connected
        rw [Shared.setConn]
        by_cases hne : con = con'
        · subst hne
          simp
        · simpa [Function.update_of_ne hne] using hlink

/-- Session 1 is disconnected by the user while its link is up. -/
def disconnectedWhileUp : List NativeLabel :=
  publishSteps 0 ++ startSteps 0 ++ [.env (.call .tsDisconnect)] ++
    List.replicate 3 (.run 3 .go) ++ List.replicate 3 (.run 2 .go)

/-- The server's last book does not bring it back. -/
theorem not_reconnected_book : ∃ P P' : Machine,
    requested 1 P.shared ∧
    Pool.next nativeLanguage (.run 2 (.incoming (.book ⟨1, [], []⟩ []))) P = some P' ∧
    (P'.shared.conns 1).link ≠ .connected := by
  obtain ⟨P, hrun, hobs⟩ := exists_run staysDown disconnectedWhileUp
    (fun P => (P.shared.history.userExits, (P.shared.conns 1).link,
      Pool.checks staysDown P (.run 2 (.incoming (.book ⟨1, [], []⟩ [])) : NativeLabel),
      (Pool.next nativeLanguage (.run 2 (.incoming (.book ⟨1, [], []⟩ []))) P).isSome))
    (a := ([(1, 1, 1)], .closing, true, true)) rfl
  simp only [Prod.mk.injEq, Option.isSome_iff_exists] at hobs
  obtain ⟨hexits, hlink, hok, P', hnext⟩ := hobs
  have hreq : requested 1 P.shared := ⟨(1, 1, 1), by simp [hexits], rfl⟩
  exact ⟨P, P', hreq, hnext, not_reconnected hrun hok hnext hreq (by rw [hlink]; decide)⟩

/-- Session 1 loses its link for a while, and the user disconnects. -/
def disconnectedWhileLost : List NativeLabel :=
  publishSteps 0 ++ startSteps 0 ++ iterateSteps 2 ++
    [.run 2 (.incoming (.lost "timeout")), .run 2 (.incoming .timeout)] ++
    List.replicate 5 (.run 2 .go) ++ [.env (.call .tsDisconnect)] ++
    List.replicate 3 (.run 3 .go) ++ List.replicate 3 (.run 2 .go)

/-- The stream that the loop polls to its end reconnects. -/
theorem reconnected :
    ¬ ∀ (P P' : Machine) (label : NativeLabel) (con : Nat), native.Reachable P →
      Pool.next nativeLanguage label P = some P' → requested con P.shared →
      (P.shared.conns con).link ≠ .connected → (P'.shared.conns con).link ≠ .connected := by
  intro hall
  obtain ⟨P, hrun, hobs⟩ := exists_run (fun _ _ _ => true) disconnectedWhileLost
    (fun P => (P.shared.history.userExits, (P.shared.conns 1).link,
      (Pool.next nativeLanguage (.run 2 (.incoming (.reconnected ⟨1, [], []⟩))) P).map fun P' =>
        (P'.shared.conns 1).link))
    (a := ([(1, 1, 1)], .connecting, some .connected)) rfl
  simp only [Prod.mk.injEq, Option.map_eq_some_iff] at hobs
  obtain ⟨hexits, hlink, P', hnext, hafter⟩ := hobs
  exact hall P P' _ 1 hrun.reachable hnext ⟨(1, 1, 1), by simp [hexits], rfl⟩
    (by rw [hlink]; decide) hafter

end Nek0.Proofs.Native
