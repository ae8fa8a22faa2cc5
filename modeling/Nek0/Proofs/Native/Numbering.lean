import Nek0.Proofs.Native.Ownership

/-!
# `Nek0.Proofs.Native.Numbering`: the numbers of the sent commands

`history.sends` counts the commands that were sent with a return code, and each of them has the
count at that time as its number. So every number that the connections, their items and the history
carry is below the count (`numbersBelow_of_run`): the next command has a new one.
-/

set_option autoImplicit false

namespace Nek0.Proofs.Native

open Nek0.Lib
open Nek0.Native

/-- The command that an item is about. -/
def itemSid : StreamItem → Option SendId
  | .fileList _ _ sid => some sid
  | .fileListFinished _ _ sid => some sid
  | .messageResult _ _ sid => some sid
  | _ => none

/-- The items that a connection has yielded and the event loop has not passed on. -/
def itemsInHand (c : Conn) : List StreamItem :=
  c.deferred.toList ++ c.deferredEvents ++ c.handling

/-- A connection still knows of this command. -/
def Knows (c : Conn) (sid : SendId) : Prop :=
  (∃ code, (code, sid) ∈ c.unanswered) ∨ (∃ l ∈ c.listings, l.sid = sid) ∨
    ∃ it ∈ itemsInHand c, itemSid it = some sid

/-- All numbers are below `n`. -/
structure NumbersBelow (n : Nat) (s : Shared) : Prop where
  conns : ∀ con sid, Knows (s.conns con) sid → sid < n
  passed : ∀ x ∈ s.history.passed, ∀ sid, itemSid x.2.1 = some sid → sid < n
  moves : ∀ m ∈ s.history.moves, m.1 < n

/-! ### Connections -/

theorem not_knows_fresh (book : Book) (sid : SendId) : ¬ Knows (.fresh book) sid := by
  rintro (⟨_, h⟩ | ⟨_, h, _⟩ | ⟨_, h, _⟩) <;> cases h

/-- A dropped connection has forgotten what it waited for. -/
theorem knows_of_drop {c : Conn} {sid : SendId} (h : Knows c.drop sid) : Knows c sid := by
  rcases h with ⟨_, h⟩ | ⟨_, h, _⟩ | h
  · cases h
  · cases h
  · exact .inr (.inr h)

theorem knows_of_disconnect {c : Conn} {sid : SendId} (h : Knows c.disconnect sid) :
    Knows c sid := by
  unfold Conn.disconnect at h
  split at h <;> exact h

/-- A send adds its own command. -/
theorem knows_of_register {c : Conn} {sid sid' : SendId} {reply : Reply}
    (h : Knows (c.register sid reply) sid') : Knows c sid' ∨ sid' = sid := by
  have hitems : itemsInHand (c.register sid reply) = itemsInHand c := by
    cases reply <;> rfl
  have hunanswered : (c.register sid reply).unanswered =
      c.unanswered ++ [(c.curReturnCode, sid)] := by
    cases reply <;> rfl
  have hlistings : ∀ l ∈ (c.register sid reply).listings, l ∈ c.listings ∨ l.sid = sid := by
    cases reply with
    | ftList cid path token =>
        intro l hl
        rcases List.mem_append.mp hl with hl | hl
        · exact .inl hl
        · exact .inr (by rw [List.mem_singleton.mp hl])
    | _ => exact fun l hl => .inl hl
  rcases h with ⟨code, h⟩ | ⟨l, hl, rfl⟩ | h
  · rw [hunanswered] at h
    rcases List.mem_append.mp h with h | h
    · exact .inl (.inl ⟨code, h⟩)
    · exact .inr (Prod.mk.inj (List.mem_singleton.mp h)).2
  · exact (hlistings l hl).imp_left fun hl => .inr (.inl ⟨l, hl, rfl⟩)
  · rw [hitems] at h
    exact .inl (.inr (.inr h))

/-- A yielded item is about a command that the connection knew of. -/
theorem knows_of_yield {c c' : Conn} {i : Incoming} {p : Polled} (h : c.yield i = some (c', p)) :
    (∀ sid, Knows c' sid → Knows c sid) ∧
      ∀ it sid, p = .item it → itemSid it = some sid → Knows c sid := by
  cases i with
  -- The answer takes its command out of what the connection knows.
  | answer code sid res =>
      dsimp only [Conn.yield] at h
      split at h <;> cases h
      rename_i hcond
      constructor
      · rintro sid' (⟨code', h⟩ | h | h)
        · exact .inl ⟨code', List.mem_of_mem_erase h⟩
        · exact .inr (.inl h)
        · exact .inr (.inr h)
      · rintro it sid' hit hsid
        cases hit
        cases hsid
        exact .inl ⟨code, hcond.2⟩
  -- Rows and the marker are about a listing that the connection has.
  | rows sid rows =>
      dsimp only [Conn.yield] at h
      split at h <;> cases h
      rename_i l hfind
      refine ⟨fun _ h => h, ?_⟩
      rintro it sid' hit hsid
      cases hit
      cases hsid
      exact .inr (.inl ⟨l, List.mem_of_find?_eq_some hfind,
        by simpa using List.find?_some hfind⟩)
  | finished sid =>
      dsimp only [Conn.yield] at h
      split at h <;> cases h
      rename_i l hfind
      constructor
      · rintro sid' (h | ⟨l', hl', rfl⟩ | h)
        · exact .inl h
        · exact .inr (.inl ⟨l', List.mem_of_mem_filter hl', rfl⟩)
        · exact .inr (.inr h)
      · rintro it sid' hit hsid
        cases hit
        cases hsid
        exact .inr (.inl ⟨l, List.mem_of_find?_eq_some hfind,
          by simpa using List.find?_some hfind⟩)
  -- A lost link is about no command.
  | lost reason =>
      dsimp only [Conn.yield] at h
      split at h <;> cases h
      refine ⟨fun _ h => knows_of_drop h, ?_⟩
      rintro it sid' hit hsid
      cases hit
      cases hsid
  | accepted clientFt size streamError =>
      dsimp only [Conn.yield] at h
      split at h <;> cases h
      refine ⟨fun _ h => h, ?_⟩
      intro it sid' hit hsid
      split at hit <;> cases hit <;> cases hsid
  | _ =>
      dsimp only [Conn.yield] at h
      repeat' split at h
      all_goals cases h
      all_goals
        refine ⟨fun _ h => h, ?_⟩
        rintro it sid' hit hsid
        cases hit
        try cases hsid

/-! ### Statements -/

/-- The connections of `s'` know of no more, and nothing else is new. -/
theorem NumbersBelow.of_conns {n : Nat} {s s' : Shared} (h : NumbersBelow n s)
    (hconns : ∀ con sid, Knows (s'.conns con) sid → Knows (s.conns con) sid)
    (hpassed : s'.history.passed = s.history.passed) (hmoves : s'.history.moves = s.history.moves) :
    NumbersBelow n s' := by
  refine ⟨fun con sid hsid => h.conns con sid (hconns con sid hsid), ?_, ?_⟩
  · rw [hpassed]
    exact h.passed
  · rw [hmoves]
    exact h.moves

/-- The update of one connection. -/
theorem knows_setConn {s : Shared} {con : Nat} {c : Conn}
    (h : ∀ sid, Knows c sid → Knows (s.conns con) sid) (con' : Nat) (sid : SendId)
    (hsid : Knows ((s.setConn con c).conns con') sid) : Knows (s.conns con') sid := by
  by_cases hcon : con' = con
  · subst hcon
    rw [conns_setConn_self] at hsid
    exact h sid hsid
  · simp only [Shared.setConn, Function.update_of_ne hcon] at hsid
    exact hsid

/-- A write adds no number. -/
theorem numbersBelow_of_write {n : Nat} {s : Shared} (h : NumbersBelow n s) (w : Write) :
    NumbersBelow n (w.apply s) ∧ (w.apply s).history.sends = s.history.sends := by
  cases w with
  | downloadProgress taskId done =>
      obtain ⟨_, _, heq, _⟩ := downloadProgress_frame s taskId done
      rw [heq]
      exact ⟨⟨h.conns, h.passed, h.moves⟩, rfl⟩
  | uploadProgress taskId k =>
      obtain ⟨_, _, heq, _⟩ := uploadProgress_frame s taskId k
      rw [heq]
      exact ⟨⟨h.conns, h.passed, h.moves⟩, rfl⟩
  | dropConnection con =>
      exact ⟨h.of_conns (knows_setConn fun _ => knows_of_drop) rfl rfl, rfl⟩
  | _ =>
      dsimp only [Write.apply]
      repeat' split
      all_goals exact ⟨⟨h.conns, h.passed, h.moves⟩, rfl⟩

/-- A send uses the next number. -/
theorem numbersBelow_of_sendWithResult {s : Shared} (h : NumbersBelow s.history.sends s)
    (con : Nat) (reply : Reply) (failure : Option String) :
    NumbersBelow (s.sendWithResult con reply failure).shared.history.sends
      (s.sendWithResult con reply failure).shared := by
  unfold Shared.sendWithResult
  dsimp only
  split
  · cases failure with
    | some e => exact h.of_conns (knows_setConn fun _ hsid => hsid) rfl rfl
    | none =>
        refine ⟨?_, ?_, ?_⟩
        · intro con' sid hsid
          by_cases hcon : con' = con
          · subst hcon
            dsimp only at hsid ⊢
            rw [conns_setConn_self] at hsid
            rcases knows_of_register hsid with hknows | rfl
            · exact (h.conns con' sid hknows).trans (Nat.lt_succ_self _)
            · exact Nat.lt_succ_self _
          · simp only [Shared.setConn, Function.update_of_ne hcon] at hsid
            exact (h.conns con' sid hsid).trans (Nat.lt_succ_self _)
        · exact fun x hx sid hsid => (h.passed x hx sid hsid).trans (Nat.lt_succ_self _)
        · intro m hm
          rcases List.mem_append.mp hm with hm | hm
          · exact (h.moves m hm).trans (Nat.lt_succ_self _)
          · cases reply <;> simp only [Reply.moves] at hm
            all_goals try cases hm
            · exact Nat.lt_succ_self _
            · rename_i hm
              cases hm
  · exact h

/-- What is polled goes to the items in hand. -/
theorem knows_of_polled {c c₁ c₂ : Conn} {i : Incoming} {p : Polled}
    (hyield : c.yield i = some (c₁, p)) (hunanswered : c₂.unanswered = c₁.unanswered)
    (hlistings : c₂.listings = c₁.listings)
    (hitems : ∀ it ∈ itemsInHand c₂, it ∈ itemsInHand c₁ ∨ p = .item it) (sid : SendId)
    (h : Knows c₂ sid) : Knows c sid := by
  obtain ⟨hbefore, hitem⟩ := knows_of_yield hyield
  rcases h with h | h | ⟨it, hit, hsid⟩
  · rw [hunanswered] at h
    exact hbefore sid (.inl h)
  · rw [hlistings] at h
    exact hbefore sid (.inr (.inl h))
  · rcases hitems it hit with hold | hnew
    · exact hbefore sid (.inr (.inr ⟨it, hold, hsid⟩))
    · exact hitem it sid hnew hsid

/-- A statement of the event loop keeps every number below the count. -/
theorem numbersBelow_of_loop {choice : Choice} {s : Shared} {l : LoopStmt} {out : NativeOutcome}
    (hexec : l.exec choice s = some out) (h : NumbersBelow s.history.sends s) :
    NumbersBelow out.shared.history.sends out.shared := by
  cases l with
  | sendWithResult sess reply =>
      dsimp only [LoopStmt.exec] at hexec
      split at hexec
      all_goals
        cases hexec
        exact numbersBelow_of_sendWithResult h _ _ _
  -- A polled item goes into the hand. What it is about was known before.
  | poll sess =>
      dsimp only [LoopStmt.exec] at hexec
      repeat' split at hexec
      all_goals cases hexec
      all_goals
        rename_i hyield
        refine h.of_conns (knows_setConn (knows_of_polled hyield rfl rfl ?_)) rfl rfl
      all_goals
        simp only [itemsInHand, List.mem_append, Option.mem_toList]
        grind
  | drain sess =>
      dsimp only [LoopStmt.exec] at hexec
      repeat' split at hexec
      all_goals cases hexec
      all_goals
        rename_i hyield
        refine h.of_conns (knows_setConn (knows_of_polled hyield rfl rfl ?_)) rfl rfl
      all_goals
        simp only [itemsInHand, List.mem_append, Option.mem_toList]
        grind
  | closeStream sess way =>
      dsimp only [LoopStmt.exec] at hexec
      repeat' split at hexec
      all_goals cases hexec
      all_goals
        rename_i hyield
        exact h.of_conns (knows_setConn (knows_of_polled hyield rfl rfl fun _ hit => .inl hit))
          rfl rfl
  | disconnect sess way =>
      dsimp only [LoopStmt.exec] at hexec
      split at hexec <;> cases hexec
      · exact h
      · exact h.of_conns (knows_setConn fun _ => knows_of_disconnect) rfl rfl
  -- A handled item leaves the hand, and it is recorded.
  | handle sess ended =>
      dsimp only [LoopStmt.exec] at hexec
      split at hexec
      · cases hexec
        exact h
      · rename_i it rest hhandling
        cases hexec
        have hknows : ∀ it' ∈ it :: rest, ∀ sid, itemSid it' = some sid →
            Knows (s.conns sess.con) sid := by
          intro it' hit' sid hsid
          refine .inr (.inr ⟨it', ?_, hsid⟩)
          rw [itemsInHand, hhandling]
          exact List.mem_append_right _ hit'
        refine ⟨?_, ?_, h.moves⟩
        · intro con sid hsid
          refine h.conns con sid (knows_setConn ?_ con sid hsid)
          rintro sid' (hk | hk | ⟨it', hit', hsid'⟩)
          · exact .inl hk
          · exact .inr (.inl hk)
          · rcases List.mem_append.mp hit' with hit' | hit'
            · exact .inr (.inr ⟨it', List.mem_append_left _ hit', hsid'⟩)
            · exact hknows it' (.tail _ hit') sid' hsid'
        · intro x hx sid hsid
          rcases List.mem_append.mp hx with hx | hx
          · exact h.passed x hx sid hsid
          · rw [List.mem_singleton.mp hx] at hsid
            exact h.conns sess.con sid (hknows it List.mem_cons_self sid hsid)
  | ownClient sess c =>
      cases hexec
      dsimp only [Shared.ownClientIdOrCache]
      repeat' split
      all_goals exact ⟨h.conns, h.passed, h.moves⟩
  | startDownload sess ended taskId total =>
      dsimp only [LoopStmt.exec] at hexec
      split at hexec <;> cases hexec
      · obtain ⟨_, _, heq, _⟩ := maybePublishFtProgress_frame s taskId true
        dsimp only
        rw [heq]
        exact ⟨h.conns, h.passed, h.moves⟩
      · exact h
  | _ =>
      dsimp only [LoopStmt.exec] at hexec
      repeat' split at hexec
      all_goals cases hexec
      all_goals exact ⟨h.conns, h.passed, h.moves⟩

/-- So does every statement. -/
theorem numbersBelow_of_exec {choice : Choice} {s : Shared} {st : Stmt} {out : NativeOutcome}
    (hexec : st.exec choice s = some out) (h : NumbersBelow s.history.sends s) :
    NumbersBelow out.shared.history.sends out.shared := by
  cases st with
  | write w =>
      cases hexec
      obtain ⟨hbelow, hsends⟩ := numbersBelow_of_write h w
      rw [hsends]
      exact hbelow
  | handler hs =>
      cases hexec
      obtain ⟨_, _, _, _, _, _, heq⟩ := handler_frame s hs
      rw [heq]
      exact ⟨h.conns, h.passed, h.moves⟩
  | eventLoop l => exact numbersBelow_of_loop hexec h
  | call c =>
      cases hexec
      obtain ⟨_, _, _, _, _, _, _, _, heq, _, _⟩ := call_frame s c
      rw [heq]
      exact ⟨h.conns, h.passed, h.moves⟩
  | task t =>
      cases t with
      | handshake attempt =>
          dsimp only [Stmt.exec, TaskStmt.exec] at hexec
          repeat' split at hexec
          all_goals cases hexec
          · exact h
          · exact h
          · refine h.of_conns (knows_setConn ?_) rfl rfl
            exact fun sid hsid => (not_knows_fresh _ sid hsid).elim
      | _ =>
          dsimp only [Stmt.exec, TaskStmt.exec] at hexec
          repeat' split at hexec
          all_goals cases hexec
          all_goals exact ⟨h.conns, h.passed, h.moves⟩

/-- Every number is below the count of the sent commands. -/
theorem numbersBelow_of_run {ok : Machine → NativeLabel → Prop} {P : Machine}
    (hrun : native.Run ok P) : NumbersBelow P.shared.history.sends P.shared := by
  refine hrun.invariant (P := fun P => NumbersBelow P.shared.history.sends P.shared) ?_ ?_
  · rintro P ⟨hshared, _⟩
    rw [hshared]
    refine ⟨fun _ sid hsid => (not_knows_fresh _ sid hsid).elim, ?_, ?_⟩
    · intro x hx
      cases hx
    · intro m hm
      cases hm
  · intro P P' label h _ hnext
    cases label with
    | run i choice =>
        obtain ⟨_, _, _, out, _, _, hexec, rfl⟩ := Pool.next_run hnext
        exact numbersBelow_of_exec hexec h
    | env event =>
        obtain ⟨s, spawn, henv, rfl⟩ := Pool.next_env hnext
        cases event with
        | call c =>
            cases henv
            unfold Shared.noteRequest
            split <;> exact ⟨h.conns, h.passed, h.moves⟩
        | tick milliseconds =>
            cases henv
            exact ⟨h.conns, h.passed, h.moves⟩
        | linkLost con =>
            simp only [nativeLanguage, Happening.exec] at henv
            split at henv <;> cases henv
            exact h.of_conns (knows_setConn fun _ hsid => hsid) rfl rfl

end Nek0.Proofs.Native
