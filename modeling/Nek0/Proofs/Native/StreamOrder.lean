import Nek0.Proofs.Native.Ownership
import Nek0.Proofs.Native.Sessions

/-!
# `Nek0.Proofs.Native.StreamOrder`: every stream item is handled once, in order

An iteration of the event loop takes a first item, drains what is available after it, and handles
the items later. `yieldedItems` are the items that a connection has yielded so far, and
`passedItems` are those that were passed to `handle_event_item`.

`passesAll` is the condition under which the items passed are always a prefix of the items yielded,
and all of them whenever the loop has none in hand (`passesInOrder_of_run`): nothing is
drained after a first item, the drain does not fail with items in hand, no handler panics with items
in hand, and nothing is yielded while the loop polls the stream to its end. Items drained after the
first one are handled before it (`passed_reordered`).
-/

set_option autoImplicit false

namespace Nek0.Proofs.Native

open Nek0.Lib
open Nek0.Native

/-- The items that connection `con` has yielded to the event loop. -/
def yieldedItems (con : Nat) (s : Shared) : List StreamItem :=
  s.history.yielded.filterMap fun y => if y.1 = con then some y.2 else none

/-- The items of connection `con` that were passed to `handle_event_item`. -/
def passedItems (con : Nat) (s : Shared) : List StreamItem :=
  s.history.passed.filterMap fun y => if y.1 = con then some y.2.1 else none

/-- The loop has items of connection `con` in hand when it executes this statement. -/
def taking (con : Nat) : Stmt → Bool
  | .eventLoop (.drain sess) => sess.con == con
  | .eventLoop (.handle sess _) => sess.con == con
  | .eventLoop (.acceptDownload sess _ _ _) => sess.con == con
  | .eventLoop (.startDownload sess _ _ _) => sess.con == con
  | _ => false

/-- The condition under which every item is passed, in order. -/
def passesAll (P : Machine) (choice : Choice) : Stmt → Bool
  | .eventLoop (.drain sess) =>
      let c := P.shared.conns sess.con
      match choice with
      | .incoming i =>
        match c.yield i with
        | some (_, .item _) => c.deferred.isNone
        | some (_, .failed _) => c.deferred.isNone && c.deferredEvents.isEmpty
        | _ => true
      | _ => true
  | .eventLoop (.startDownload sess _ taskId _) =>
      decide (taskId ∈ P.shared.ftTasks) || (P.shared.conns sess.con).handling.isEmpty
  | .eventLoop (.closeStream sess _) =>
      match choice with
      | .incoming i =>
        match (P.shared.conns sess.con).yield i with
        | some (_, .item _) => false
        | _ => true
      | _ => true
  | _ => true

/-- No item of connection `con` is in hand. -/
structure Settled (con : Nat) (s : Shared) : Prop where
  passed : passedItems con s = yieldedItems con s
  deferred : (s.conns con).deferred = none
  deferredEvents : (s.conns con).deferredEvents = []

/-- The items in hand are those that were not passed yet. -/
def Taken (con : Nat) (s : Shared) : Stmt → Prop
  | .eventLoop (.drain _) =>
      yieldedItems con s =
          passedItems con s ++ ((s.conns con).deferred.toList ++ (s.conns con).deferredEvents) ∧
        ((s.conns con).deferred = none ∨ (s.conns con).deferredEvents = [])
  | .eventLoop (.handle _ _) => Handling con s
  | .eventLoop (.acceptDownload _ _ _ _) => Handling con s
  | .eventLoop (.startDownload _ _ _ _) => Handling con s
  | _ => False
where
  /-- The items whose handling has begun are those that were not passed yet. -/
  Handling (con : Nat) (s : Shared) : Prop :=
    yieldedItems con s = passedItems con s ++ (s.conns con).handling ∧
      (s.conns con).deferred = none ∧ (s.conns con).deferredEvents = []

/-! ### What leaves the items alone -/

/-- Between `s` and `s'` nothing has happened to the items of connection `con`. -/
structure SameItems (con : Nat) (s s' : Shared) : Prop where
  yielded : yieldedItems con s' = yieldedItems con s
  passed : passedItems con s' = passedItems con s
  deferred : (s'.conns con).deferred = (s.conns con).deferred
  deferredEvents : (s'.conns con).deferredEvents = (s.conns con).deferredEvents
  handling : (s'.conns con).handling = (s.conns con).handling

theorem SameItems.settled {con : Nat} {s s' : Shared} (h : SameItems con s s')
    (hs : Settled con s) : Settled con s' :=
  ⟨by rw [h.passed, h.yielded, hs.passed], by rw [h.deferred, hs.deferred],
    by rw [h.deferredEvents, hs.deferredEvents]⟩

/-- Items that are the same are taken the same way. -/
theorem SameItems.taken {con : Nat} {s s' : Shared} (h : SameItems con s s') {st : Stmt}
    (hst : Taken con s st) : Taken con s' st := by
  cases st with
  | eventLoop l =>
      cases l <;> simp only [Taken, Taken.Handling, h.yielded, h.passed, h.deferred,
        h.deferredEvents, h.handling]
      all_goals exact hst
  | _ => exact hst.elim

/-- The statement takes items of connection `con`, passes them, or opens the connection. -/
def handlesItems (con : Nat) : Stmt → Bool
  | .eventLoop (.poll sess) => sess.con == con
  | .eventLoop (.drain sess) => sess.con == con
  | .eventLoop (.handle sess _) => sess.con == con
  | .eventLoop (.closeStream sess _) => sess.con == con
  | .task (.handshake attempt) => attempt == con
  | _ => false

@[simp] theorem yieldedItems_setConn (s : Shared) (con c : Nat) (conn : Conn) :
    yieldedItems con (s.setConn c conn) = yieldedItems con s := rfl

@[simp] theorem passedItems_setConn (s : Shared) (con c : Nat) (conn : Conn) :
    passedItems con (s.setConn c conn) = passedItems con s := rfl

@[simp] theorem passedItems_recordYield (s : Shared) (con c : Nat) (it : StreamItem) :
    passedItems con (s.recordYield c it) = passedItems con s := rfl

@[simp] theorem yieldedItems_recordPassed (s : Shared) (con c : Nat) (it : StreamItem) :
    yieldedItems con (s.recordPassed c it) = yieldedItems con s := rfl

@[simp] theorem yieldedItems_recordYield (s : Shared) (con c : Nat) (it : StreamItem) :
    yieldedItems con (s.recordYield c it) = yieldedItems con s ++ if c = con then [it] else [] := by
  simp only [yieldedItems, Shared.recordYield, List.filterMap_append]
  split <;> simp_all

@[simp] theorem passedItems_recordPassed (s : Shared) (con c : Nat) (it : StreamItem) :
    passedItems con (s.recordPassed c it) = passedItems con s ++ if c = con then [it] else [] := by
  simp only [passedItems, Shared.recordPassed, List.filterMap_append]
  split <;> simp_all

/-- The items depend on these fields only. -/
theorem sameItems_of_eq {con : Nat} {s s' : Shared}
    (hyielded : s'.history.yielded = s.history.yielded)
    (hpassed : s'.history.passed = s.history.passed) (hconn : s'.conns con = s.conns con) :
    SameItems con s s' := by
  refine ⟨?_, ?_, by rw [hconn], by rw [hconn], by rw [hconn]⟩
  · rw [yieldedItems, yieldedItems, hyielded]
  · rw [passedItems, passedItems, hpassed]

/-- A loop statement that does not take or pass items of a connection leaves them alone. -/
theorem sameItems_of_loop {choice : Choice} {s : Shared} {l : LoopStmt} {out : NativeOutcome}
    (hexec : l.exec choice s = some out) {con : Nat}
    (h : handlesItems con (.eventLoop l) = false) : SameItems con s out.shared := by
  -- A connection that is written back with the same items leaves them alone.
  have hset : ∀ (s₁ : Shared) c conn, s₁.history.yielded = s.history.yielded →
      s₁.history.passed = s.history.passed → s₁.conns = Function.update s.conns c conn →
      conn.deferred = (s.conns c).deferred → conn.deferredEvents = (s.conns c).deferredEvents →
      conn.handling = (s.conns c).handling → SameItems con s s₁ := by
    intro s₁ c conn hyielded hpassed hconns h₁ h₂ h₃
    by_cases hne : con = c
    · subst hne
      have hconn : s₁.conns con = conn := by rw [hconns, Function.update_self]
      refine ⟨?_, ?_, by rw [hconn, h₁], by rw [hconn, h₂], by rw [hconn, h₃]⟩
      · rw [yieldedItems, yieldedItems, hyielded]
      · rw [passedItems, passedItems, hpassed]
    · refine sameItems_of_eq hyielded hpassed ?_
      rw [hconns, Function.update_of_ne hne]
  -- The items of a connection that the statement does not concern stay.
  have hother : (∀ sess, sessionOf l = some sess → sess.con ≠ con) → l.exec choice s = some out →
      yieldedItems con out.shared = yieldedItems con s →
      passedItems con out.shared = passedItems con s → SameItems con s out.shared := by
    intro hne hexec hyielded hpassed
    have hconn := conns_of_loop hexec hne
    exact ⟨hyielded, hpassed, by rw [hconn], by rw [hconn], by rw [hconn]⟩
  cases l
  -- The statements that take or pass items. This one is over another connection.
  case poll sess | drain sess | handle sess ended | closeStream sess way =>
    have hne : sess.con ≠ con := by simpa [handlesItems] using h
    refine hother ?_ hexec ?_ ?_
    · rintro _ ⟨⟩
      exact hne
    all_goals
      dsimp only [LoopStmt.exec] at hexec
      repeat' split at hexec
      all_goals cases hexec
      all_goals simp [hne]
  -- The other statements write other fields of the connection, or none.
  case ownClient sess c =>
    cases hexec
    simp only [Shared.ownClientIdOrCache]
    repeat' split
    all_goals exact sameItems_of_eq rfl rfl rfl
  case sendWithResult sess reply =>
    dsimp only [LoopStmt.exec, Shared.sendWithResult] at hexec
    repeat' split at hexec
    all_goals cases hexec
    all_goals first
      | exact sameItems_of_eq rfl rfl rfl
      | refine hset _ sess.con _ rfl rfl rfl ?_ ?_ ?_
    all_goals
      cases reply <;> rfl
  case startDownload sess ended taskId total =>
    dsimp only [LoopStmt.exec] at hexec
    split at hexec
    · cases hexec
      obtain ⟨_, _, heq, _⟩ := maybePublishFtProgress_frame s taskId true
      rw [heq]
      exact sameItems_of_eq rfl rfl rfl
    · cases hexec
      exact sameItems_of_eq rfl rfl rfl
  case disconnect sess way =>
    dsimp only [LoopStmt.exec, Conn.disconnect] at hexec
    split at hexec <;> cases hexec
    · exact sameItems_of_eq rfl rfl rfl
    · refine hset _ sess.con _ rfl rfl rfl ?_ ?_ ?_
      all_goals
        split <;> rfl
  all_goals
    dsimp only [LoopStmt.exec] at hexec
    repeat' split at hexec
    all_goals cases hexec
    all_goals exact sameItems_of_eq rfl rfl rfl

/-- A statement that does not take or pass items of a connection, and does not open it, leaves its
items alone. -/
theorem sameItems_of_exec {choice : Choice} {s : Shared} {st : Stmt} {out : NativeOutcome}
    (hexec : st.exec choice s = some out) {con : Nat} (h : handlesItems con st = false) :
    SameItems con s out.shared := by
  cases st with
  | write w =>
      cases hexec
      cases w with
      | downloadProgress taskId done =>
          obtain ⟨_, _, heq, _⟩ := downloadProgress_frame s taskId done
          rw [heq]
          exact sameItems_of_eq rfl rfl rfl
      | uploadProgress taskId n =>
          obtain ⟨_, _, heq, _⟩ := uploadProgress_frame s taskId n
          rw [heq]
          exact sameItems_of_eq rfl rfl rfl
      -- A dropped connection is closed, but its items are kept for the account.
      | dropConnection c =>
          by_cases hne : con = c
          · subst hne
            refine ⟨rfl, rfl, ?_, ?_, ?_⟩
            all_goals simp [Write.apply, Shared.setConn, Conn.drop]
          · exact sameItems_of_eq rfl rfl (Function.update_of_ne hne _ _)
      | _ =>
          dsimp only [Write.apply]
          repeat' split
          all_goals exact sameItems_of_eq rfl rfl rfl
  | handler hs =>
      cases hexec
      obtain ⟨_, _, _, _, _, _, heq⟩ := handler_frame s hs
      rw [heq]
      exact sameItems_of_eq rfl rfl rfl
  | eventLoop l => exact sameItems_of_loop hexec h
  | call c =>
      cases hexec
      obtain ⟨_, _, _, _, _, _, _, _, heq, _⟩ := call_frame s c
      rw [heq]
      exact sameItems_of_eq rfl rfl rfl
  | task t =>
      obtain ⟨_, _, _, _, heq⟩ := task_frame hexec
      refine sameItems_of_eq (by rw [heq]) (by rw [heq]) ?_
      cases t with
      | handshake attempt =>
          have hne : con ≠ attempt := by
            rintro rfl
            simp [handlesItems] at h
          exact @conns_of_exec _ _ (.task (.handshake attempt)) _ hexec _
            (by simp [concerns, Ne.symm hne])
      | _ =>
          dsimp only [Stmt.exec, TaskStmt.exec] at hexec
          repeat' split at hexec
          all_goals cases hexec
          all_goals rfl

/-! ### The steps of the loop -/

/-- The statement is about the items of connection `con`. -/
def involves (con : Nat) (st : Stmt) : Bool := handlesItems con st || taking con st

/-- A statement about the items of a connection concerns it. -/
theorem concerns_of_involves {con : Nat} {st : Stmt} (h : involves con st = true) :
    concerns con st = true := by
  cases st with
  | eventLoop l =>
      cases l <;> simp_all [involves, handlesItems, taking, concerns, sessionOf]
  | task t => cases t <;> simp_all [involves, handlesItems, taking, concerns]
  | _ => cases h

/-- A statement about the items is the last one of its thread. -/
theorem rest_of_involves {con : Nat} {owner : Owner} {st : Stmt} {rest : List Stmt}
    (hshaped : Shaped ⟨owner, st :: rest⟩) (h : involves con st = true) : rest = [] := by
  cases st with
  | eventLoop l =>
      cases l
      case poll sess | drain sess | handle sess ended | acceptDownload sess ended clientFt total |
          startDownload sess ended taskId total | closeStream sess way =>
        exact rest_of_iterates hshaped (g := sess.generation) rfl
      all_goals cases h
  | task t =>
      cases t with
      | handshake attempt =>
          cases owner with
          | connect a =>
              rcases hshaped with hcon | ⟨g, _, _, _, hsuffix⟩
              · cases hcon
                rfl
              · simp [startProgram, List.suffix_cons_iff] at hsuffix
          | call => exact (hshaped _ List.mem_cons_self).elim
          | eventLoop g =>
              rcases hshaped with hbegin | hiter | hleave
              · cases hbegin
              · rcases hiter.cons with ⟨h, _⟩ | ⟨h, _⟩ <;> exact h.elim
              · exact (hleave _ List.mem_cons_self).elim
          | listTimer => exact (hshaped _ List.mem_cons_self).elim
          | worker taskId => exact (hshaped _ List.mem_cons_self).elim
      | _ => cases h
  | _ => cases h

/-- Polling the stream leaves the items of the iteration alone. -/
theorem items_of_yield {c c' : Conn} {i : Incoming} {p : Polled} (h : c.yield i = some (c', p)) :
    c'.deferred = c.deferred ∧ c'.deferredEvents = c.deferredEvents ∧ c'.handling = c.handling := by
  cases i <;> dsimp only [Conn.yield] at h
  all_goals
    repeat' split at h
    all_goals cases h
    all_goals exact ⟨rfl, rfl, rfl⟩

/-- What is reached from a statement about the items: the items in hand are still the right ones, or
there are none in hand. -/
structure Reaches (con : Nat) (out : NativeOutcome) : Prop where
  taken : ∀ k ∈ out.front, taking con k = true → Taken con out.shared k
  settled : (∀ k ∈ out.front, taking con k = false) → Settled con out.shared

/-- With nothing in hand afterwards. -/
theorem reaches_of_settled {con : Nat} {out : NativeOutcome}
    (hfront : ∀ k ∈ out.front, taking con k = false) (h : Settled con out.shared) :
    Reaches con out := by
  refine ⟨?_, fun _ => h⟩
  intro k hk htaking
  rw [hfront k hk] at htaking
  cases htaking

/-- With one statement that has the items in hand. -/
theorem reaches_of_taken (prog : List Stmt) {con : Nat} {out : NativeOutcome} {k : Stmt}
    (hfront : out.front = prog ++ [k]) (hprog : ∀ k ∈ prog, taking con k = false)
    (hk : taking con k = true) (h : Taken con out.shared k) : Reaches con out := by
  refine ⟨?_, ?_⟩
  · intro k' hk' htaking
    rw [hfront] at hk'
    rcases List.mem_append.mp hk' with hmem | hmem
    · rw [hprog k' hmem] at htaking
      cases htaking
    · exact List.mem_singleton.mp hmem ▸ h
  · intro hnone
    rw [hnone k (by simp [hfront])] at hk
    cases hk

/-- The poll takes the first item. -/
theorem reaches_of_poll {choice : Choice} {s : Shared} {sess : Session} {out : NativeOutcome}
    (hexec : (LoopStmt.poll sess).exec choice s = some out) (h : Settled sess.con s) :
    Reaches sess.con out := by
  obtain ⟨hpassed, hdeferred, hevents⟩ := h
  dsimp only [LoopStmt.exec] at hexec
  split at hexec
  · split at hexec
    · cases hexec
    all_goals
      rename_i hyield
      obtain ⟨h₁, h₂, _⟩ := items_of_yield hyield
      cases hexec
    · refine reaches_of_taken [] rfl (by simp) (by simp [taking]) ?_
      simp [Taken, h₁, h₂, hdeferred, hevents, hpassed]
    · refine reaches_of_taken [] rfl (by simp) (by simp [taking]) ?_
      simp [Taken, h₂, hevents, hpassed]
    all_goals
      refine reaches_of_settled (by simp [taking]) ⟨hpassed, ?_, ?_⟩
      · simp [h₁, hdeferred]
      · simp [h₂, hevents]
  · cases hexec

/-- The drain takes the items after it. -/
theorem reaches_of_drain {choice : Choice} {P : Machine} {sess : Session} {out : NativeOutcome}
    (hexec : (LoopStmt.drain sess).exec choice P.shared = some out)
    (hok : passesAll P choice (.eventLoop (.drain sess)) = true)
    (h : Taken sess.con P.shared (.eventLoop (.drain sess))) : Reaches sess.con out := by
  obtain ⟨hyielded, halone⟩ := h
  dsimp only [LoopStmt.exec] at hexec
  dsimp only [passesAll] at hok
  split at hexec
  · split at hexec
    · cases hexec
    · -- One more item, and none was taken before the drain.
      rename_i hyield
      obtain ⟨h₁, h₂, _⟩ := items_of_yield hyield
      cases hexec
      have hnone : (P.shared.conns sess.con).deferred = none := by simpa [hyield] using hok
      refine reaches_of_taken [] rfl (by simp) (by simp [taking]) ?_
      simp [Taken, h₁, h₂, hnone, hyielded]
    · rename_i hyield
      obtain ⟨h₁, h₂, _⟩ := items_of_yield hyield
      cases hexec
      obtain ⟨hnone, hnil⟩ : (P.shared.conns sess.con).deferred = none ∧
          (P.shared.conns sess.con).deferredEvents = [] := by simpa [hyield] using hok
      refine reaches_of_settled (by simp [taking]) ⟨?_, by simp [h₁, hnone], by simp [h₂, hnil]⟩
      simp [hyielded, hnone, hnil]
    · -- The items in hand are handled now: the first one, or those of the drain.
      rename_i hyield
      obtain ⟨h₁, h₂, _⟩ := items_of_yield hyield
      cases hexec
      refine reaches_of_taken [] rfl (by simp) (by simp [taking]) ?_
      simp only [Taken, Taken.Handling, yieldedItems_setConn, passedItems_setConn,
        conns_setConn_self, and_true, h₁, h₂, hyielded]
      rcases halone with hnone | hnil
      · simp [hnone]
      · simp [hnil]
  · cases hexec

/-- The handling of the next item passes it. -/
theorem reaches_of_handle (choice : Choice) {s : Shared} {sess : Session} {ended : Bool}
    {out : NativeOutcome} (hexec : (LoopStmt.handle sess ended).exec choice s = some out)
    (h : Taken.Handling sess.con s) : Reaches sess.con out := by
  obtain ⟨hyielded, hdeferred, hevents⟩ := h
  dsimp only [LoopStmt.exec] at hexec
  split at hexec
  · rename_i hnil
    cases hexec
    refine reaches_of_settled ?_ ⟨by simp [hyielded, hnil], hdeferred, hevents⟩
    dsimp only
    split <;> simp [taking]
  · rename_i it rest hcons
    cases hexec
    have hhandling : Taken.Handling sess.con
        ((s.setConn sess.con { s.conns sess.con with handling := rest }).recordPassed sess.con
          it) := by
      simp [Taken.Handling, hyielded, hcons, hdeferred, hevents]
    split
    · exact reaches_of_taken [] rfl (by simp) (by simp [taking]) hhandling
    · refine reaches_of_taken _ rfl ?_ (by simp [taking]) hhandling
      intro k hk
      by_contra htaking
      rw [Bool.not_eq_false] at htaking
      have hcon := con_of_item sess.con it sess.con k hk
      rw [concerns_of_involves (by simp [involves, htaking])] at hcon
      cases hcon

/-- An accepted download leads back to the handling, or its handler panics. -/
theorem reaches_of_startDownload {choice : Choice} {P : Machine} {sess : Session} {ended : Bool}
    {taskId : TaskId} {total : UInt64} {out : NativeOutcome}
    (hexec : (LoopStmt.startDownload sess ended taskId total).exec choice P.shared = some out)
    (hok : passesAll P choice (.eventLoop (.startDownload sess ended taskId total)) = true)
    (h : Taken.Handling sess.con P.shared) : Reaches sess.con out := by
  obtain ⟨hyielded, hdeferred, hevents⟩ := h
  have hsame : SameItems sess.con P.shared out.shared := sameItems_of_loop hexec rfl
  dsimp only [LoopStmt.exec] at hexec
  split at hexec
  · cases hexec
    refine reaches_of_taken [] rfl (by simp) (by simp [taking]) ?_
    exact @SameItems.taken _ _ _ hsame (.eventLoop (.handle sess ended))
      ⟨hyielded, hdeferred, hevents⟩
  · rename_i hgone
    cases hexec
    have hnil : (P.shared.conns sess.con).handling = [] := by
      simpa [passesAll, hgone] using hok
    refine reaches_of_settled ?_ ⟨by simp [hyielded, hnil], hdeferred, hevents⟩
    simp [leaveProgram, taking]

/-- An opened connection has yielded nothing yet. -/
theorem reaches_of_handshake {choice : Choice} {s : Shared} {con : Nat} {out : NativeOutcome}
    (hexec : (TaskStmt.handshake con).exec choice s = some out) (h : Settled con s) :
    Reaches con out := by
  obtain ⟨hpassed, hdeferred, hevents⟩ := h
  dsimp only [TaskStmt.exec] at hexec
  split at hexec
  all_goals cases hexec
  · exact reaches_of_settled (by simp [taking]) ⟨hpassed, hdeferred, hevents⟩
  · exact reaches_of_settled (by simp [taking]) ⟨hpassed, hdeferred, hevents⟩
  · exact reaches_of_settled (by simp [taking])
      ⟨hpassed, by simp [Conn.fresh], by simp [Conn.fresh]⟩

/-- Every statement about the items keeps account of those in hand. -/
theorem reaches_of_exec {choice : Choice} {P : Machine} {con : Nat} {st : Stmt}
    {out : NativeOutcome} (hexec : st.exec choice P.shared = some out)
    (hinvolves : involves con st = true) (hok : passesAll P choice st = true)
    (htaken : taking con st = true → Taken con P.shared st)
    (hsettled : taking con st = false → Settled con P.shared) : Reaches con out := by
  have hconcerns := concerns_of_involves hinvolves
  cases st with
  -- Each statement about the items has its own lemma. What is left is shown here.
  | eventLoop l =>
      cases l
      case poll sess =>
        obtain rfl : sess.con = con := by simpa [concerns, sessionOf] using hconcerns
        exact reaches_of_poll hexec (hsettled rfl)
      case drain sess =>
        obtain rfl : sess.con = con := by simpa [concerns, sessionOf] using hconcerns
        exact reaches_of_drain hexec hok (htaken (by simp [taking]))
      case handle sess ended =>
        obtain rfl : sess.con = con := by simpa [concerns, sessionOf] using hconcerns
        exact reaches_of_handle choice hexec (htaken (by simp [taking]))
      -- The download is accepted, or its task is gone. Either way the item is in hand until it was
      -- handled.
      case acceptDownload sess ended clientFt total =>
        obtain rfl : sess.con = con := by simpa [concerns, sessionOf] using hconcerns
        have hhandling : Taken.Handling sess.con P.shared := htaken (by simp [taking])
        cases hexec
        cases htask : P.shared.ftTaskIdByClientId clientFt with
        | none =>
            refine reaches_of_taken [] (k := .eventLoop (.handle sess ended)) ?_ (by simp)
              (by simp [taking]) hhandling
            simp
        | some taskId =>
            refine reaches_of_taken [.write (.storeTotal taskId total)]
              (k := .eventLoop (.startDownload sess ended taskId total)) ?_ (by simp [taking])
              (by simp [taking]) hhandling
            simp
      case startDownload sess ended taskId total =>
        obtain rfl : sess.con = con := by simpa [concerns, sessionOf] using hconcerns
        exact reaches_of_startDownload hexec hok (htaken (by simp [taking]))
      -- Closing the stream yields what is left, and nothing waits by then.
      case closeStream sess way =>
        obtain rfl : sess.con = con := by simpa [concerns, sessionOf] using hconcerns
        obtain ⟨hpassed, hdeferred, hevents⟩ := hsettled rfl
        dsimp only [Stmt.exec, LoopStmt.exec] at hexec
        split at hexec
        · split at hexec
          · cases hexec
          all_goals
            rename_i hyield
            obtain ⟨h₁, h₂, _⟩ := items_of_yield hyield
            cases hexec
          · simp [passesAll, hyield] at hok
          all_goals
            refine reaches_of_settled (by simp [taking]) ⟨hpassed, ?_, ?_⟩
            · simp [h₁, hdeferred]
            · simp [h₂, hevents]
        · cases hexec
      all_goals cases hinvolves
  | task t =>
      cases t with
      | handshake attempt =>
          obtain rfl : attempt = con := by simpa [concerns] using hconcerns
          exact reaches_of_handshake hexec (hsettled rfl)
      | _ => cases hinvolves
  | _ => cases hinvolves

/-- Only statements about the items lead to having items in hand. -/
theorem not_taking_of_front {choice : Choice} {s : Shared} {st : Stmt} {out : NativeOutcome}
    (hexec : st.exec choice s = some out) {con : Nat} (h : involves con st = false) :
    ∀ k ∈ out.front, taking con k = false := by
  -- The statements of an iteration, and those that leave, have no item in hand.
  have hbody : ∀ g k, Body g k → taking con k = false := by
    intro g k hk
    cases k with
    | eventLoop l => cases l <;> first | rfl | exact hk.elim
    | _ => rfl
  have hleaves : ∀ g k, Leaves g k → taking con k = false := by
    intro g k hk
    cases k with
    | eventLoop l => exact hk.elim
    | _ => rfl
  cases st with
  | write w =>
      cases hexec
      simp
  | handler hs =>
      cases hexec
      intro k hk
      exact hbody 0 k (body_of_handler 0 s hs k hk)
  | eventLoop l =>
      cases hsess : sessionOf l with
      | none =>
          cases l <;> cases hsess
          obtain ⟨_, ⟨_, _, hfront⟩ | ⟨_, _, _, hfront⟩⟩ := takeStash_step choice hexec
          all_goals
            rw [hfront]
            simp [taking]
      -- A statement over this connection, or over another one.
      | some sess =>
          by_cases hne : sess.con = con
          · subst hne
            cases l
            case top sess' =>
              cases hexec
              dsimp only
              split <;> simp [taking]
            case checkDisconnect sess' =>
              dsimp only [Stmt.exec, LoopStmt.exec] at hexec
              split at hexec <;> cases hexec
              all_goals simp [taking]
            case receive sess' =>
              dsimp only [Stmt.exec, LoopStmt.exec] at hexec
              split at hexec
              · cases hexec
                simp [taking]
              · split at hexec <;> cases hexec
                · simp [taking]
                · rw [List.forall_mem_append]
                  exact ⟨fun k hk => hbody _ k (body_of_command sess' _ k hk), by simp [taking]⟩
            case disconnect sess' way =>
              dsimp only [Stmt.exec, LoopStmt.exec] at hexec
              split at hexec <;> cases hexec
              all_goals simp [taking]
            case guardExit sess' way =>
              cases hexec
              exact fun k hk => hleaves _ k (leaves_of_exitProgram s sess' way k hk)
            case ownClient sess' c | sendWithResult sess' reply | nextClientFt sess' taskId =>
              intro k hk
              exact hbody _ k ((body_step (g := sess'.generation) hexec rfl).1 k hk)
            all_goals simp_all [sessionOf, involves, handlesItems, taking]
          · intro k hk
            by_contra htaking
            rw [Bool.not_eq_false] at htaking
            exact hne (con_of_loop hexec hsess con k hk
              (concerns_of_involves (by simp [involves, htaking])))
  | call c =>
      cases hexec
      intro k hk
      have hcalls := calls_of_call s c k hk
      cases k with
      | eventLoop l => exact hcalls.elim
      | _ => rfl
  | task t =>
      cases t <;> dsimp only [Stmt.exec, TaskStmt.exec, finishProgram] at hexec
      all_goals
        repeat' split at hexec
        all_goals cases hexec
        all_goals
          try dsimp only
          try split
        all_goals simp [taking]

/-! ### Runs -/

/-- A thread has items of connection `con` in hand. -/
def Takes (con : Nat) (P : Machine) : Prop :=
  ∃ t ∈ P.threads, ∃ st ∈ t.prog, taking con st = true

/-- The items in hand are accounted for. -/
structure Accounted (con : Nat) (P : Machine) : Prop where
  taken : ∀ t ∈ P.threads, ∀ st ∈ t.prog, taking con st = true → Taken con P.shared st
  settled : ¬ Takes con P → Settled con P.shared

/-- A step of a thread keeps the account. -/
theorem accounted_of_step {P P' : Machine} {i con : Nat} {choice : Choice}
    (hrun : RunUnder passesAll P)
    (hok : Pool.checks passesAll P (.run i choice : NativeLabel) = true)
    (hnext : Pool.next nativeLanguage (.run i choice) P = some P') (hacc : Accounted con P) :
    Accounted con P' := by
  obtain ⟨th, st, rest, out, hth, hprog, hexec, rfl⟩ := Pool.next_run hnext
  have hmem := List.mem_of_getElem? hth
  have hcond : passesAll P choice st = true := Pool.cond_of_checks hok hth hprog
  have hshaped : Shaped ⟨th.owner, st :: rest⟩ := hprog ▸ shaped_of_run hrun th hmem
  have hst : st ∈ th.prog := by
    rw [hprog]
    exact List.mem_cons_self
  have hself := @Pool.getElem?_self _ _ _ P _ _ ⟨th.owner, out.front ++ rest⟩ out.spawn hth
  -- A new thread has no item of a connection.
  have hspawn : ∀ t ∈ out.spawn, ∀ k ∈ t.prog, taking con k = false := by
    intro t ht k hk
    by_contra htaking
    rw [Bool.not_eq_false] at htaking
    have hcon : concerns con k = true := concerns_of_involves (by simp [involves, htaking])
    obtain ⟨_, _, _, hfresh⟩ := holdsConn_spawn hexec ht (List.any_eq_true.mpr ⟨k, hk, hcon⟩)
    rw [hfresh] at hk
    obtain rfl := List.mem_singleton.mp hk
    cases htaking
  by_cases hinvolves : involves con st = true
  · -- Nobody else has the connection, and the thread has nothing else to do with it.
    have hrest := rest_of_involves hshaped hinvolves
    have hholds : holdsConn con th = true :=
      List.any_eq_true.mpr ⟨st, hst, concerns_of_involves hinvolves⟩
    have hothers : ∀ j, j ≠ i → ∀ t, P.threads[j]? = some t → ∀ k ∈ t.prog,
        taking con k = false := by
      intro j hij t hj k hk
      by_contra htaking
      rw [Bool.not_eq_false] at htaking
      have hnot := not_holdsConn_of_other hrun hij hth hj hholds
      rw [holdsConn, List.any_eq_true.mpr ⟨k, hk, concerns_of_involves
        (by simp [involves, htaking])⟩] at hnot
      cases hnot
    have hreaches := reaches_of_exec hexec hinvolves hcond (hacc.taken th hmem st hst) (by
      intro hnot
      refine hacc.settled ?_
      rintro ⟨t, ht, k, hk, htaking⟩
      obtain ⟨j, hj⟩ := List.mem_iff_getElem?.mp ht
      by_cases hij : j = i
      · subst hij
        obtain rfl : t = th := by
          rw [hj] at hth
          exact Option.some.inj hth
        rw [hprog, hrest] at hk
        obtain rfl := List.mem_singleton.mp hk
        rw [hnot] at htaking
        cases htaking
      · rw [hothers j hij t hj k hk] at htaking
        cases htaking)
    have hfrom : ∀ t ∈ P.threads.set i ⟨th.owner, out.front ++ rest⟩ ++ out.spawn, ∀ k ∈ t.prog,
        taking con k = true → k ∈ out.front := by
      intro t ht k hk htaking
      rcases List.mem_append.mp ht with hset | hnew
      · obtain ⟨j, hj⟩ := List.mem_iff_getElem?.mp hset
        by_cases hij : j = i
        · subst hij
          rw [List.getElem?_set_self (List.getElem?_eq_some_iff.mp hth).1] at hj
          obtain rfl := Option.some.inj hj
          simpa [hrest] using hk
        · rw [List.getElem?_set_ne (Ne.symm hij)] at hj
          rw [hothers j hij t hj k hk] at htaking
          cases htaking
      · rw [hspawn t hnew k hk] at htaking
        cases htaking
    refine ⟨?_, ?_⟩
    · intro t ht k hk htaking
      exact hreaches.taken k (hfrom t ht k hk htaking) htaking
    · intro hnone
      refine hreaches.settled ?_
      intro k hk
      by_contra htaking
      rw [Bool.not_eq_false] at htaking
      exact hnone ⟨_, List.mem_of_getElem? hself, k, List.mem_append_left _ hk, htaking⟩
  -- The statement is not about the items, so they stay where they are.
  · rw [Bool.not_eq_true] at hinvolves
    have hsame : SameItems con P.shared out.shared := by
      refine sameItems_of_exec hexec ?_
      simp_all [involves]
    have hfront := not_taking_of_front hexec hinvolves
    refine ⟨?_, ?_⟩
    · intro t ht k hk htaking
      rcases Pool.mem_set_append ht with hold | rfl | hnew
      · exact hsame.taken (hacc.taken t hold k hk htaking)
      · rcases List.mem_append.mp hk with hk | hk
        · rw [hfront k hk] at htaking
          cases htaking
        · exact hsame.taken (hacc.taken th hmem k (by rw [hprog]; exact .tail _ hk) htaking)
      · rw [hspawn t hnew k hk] at htaking
        cases htaking
    · intro hnone
      refine hsame.settled (hacc.settled ?_)
      rintro ⟨t, ht, k, hk, htaking⟩
      refine hnone ?_
      obtain ⟨j, hj⟩ := List.mem_iff_getElem?.mp ht
      by_cases hij : j = i
      · subst hij
        obtain rfl : t = th := by
          rw [hj] at hth
          exact Option.some.inj hth
        rw [hprog] at hk
        rcases List.mem_cons.mp hk with rfl | hk
        · simp [involves, htaking] at hinvolves
        · exact ⟨_, List.mem_of_getElem? hself, k, List.mem_append_right _ hk, htaking⟩
      · exact ⟨t, List.mem_of_getElem? (Pool.getElem?_of_ne hij hj), k, hk, htaking⟩

/-- In every run under the condition, the items in hand are accounted for. -/
theorem accounted_of_run {P : Machine} (hrun : RunUnder passesAll P) (con : Nat) :
    Accounted con P := by
  refine hrun.invariant_of (P := Accounted con) (fun P h => h) ?_ ?_
  · rintro P ⟨hshared, hthreads⟩
    refine ⟨by simp [hthreads], fun _ => ?_⟩
    rw [hshared]
    exact ⟨rfl, rfl, rfl⟩
  · intro P P' label hrun _ hacc hok hnext
    cases label with
    | run i choice => exact accounted_of_step hrun hok hnext hacc
    | env event =>
        obtain ⟨s, spawn, henv, rfl⟩ := Pool.next_env hnext
        -- What happens outside takes no item into a hand.
        have hsame : SameItems con P.shared s ∧ ∀ t ∈ spawn, ∀ k ∈ t.prog,
            taking con k = false := by
          rcases happening_cases henv with ⟨c, _, rfl, rfl⟩ | ⟨_, _, rfl, rfl⟩ |
            ⟨con', _, _, rfl, rfl⟩
          · refine ⟨?_, ?_⟩
            · unfold Shared.noteRequest
              split <;> exact sameItems_of_eq rfl rfl rfl
            · intro t ht k hk
              obtain rfl := List.mem_singleton.mp ht
              by_contra htaking
              rw [Bool.not_eq_false] at htaking
              have hcon := con_of_program c con k hk
              rw [concerns_of_involves (by simp [involves, htaking])] at hcon
              cases hcon
          · exact ⟨sameItems_of_eq rfl rfl rfl, by simp⟩
          · refine ⟨?_, by simp⟩
            by_cases hne : con = con'
            · subst hne
              exact ⟨rfl, rfl, by simp, by simp, by simp⟩
            · exact sameItems_of_eq rfl rfl (Function.update_of_ne hne _ _)
        obtain ⟨hsame, hspawn⟩ := hsame
        refine ⟨?_, ?_⟩
        · intro t ht k hk htaking
          rcases List.mem_append.mp ht with hold | hnew
          · exact hsame.taken (hacc.taken t hold k hk htaking)
          · rw [hspawn t hnew k hk] at htaking
            cases htaking
        · intro hnone
          refine hsame.settled (hacc.settled ?_)
          rintro ⟨t, ht, hk⟩
          exact hnone ⟨t, List.mem_append_left _ ht, hk⟩

/-- The items that are passed are those that were yielded, in the same order, and all of them unless
the loop has some in hand. -/
def PassesInOrder (P : Machine) : Prop :=
  ∀ con, passedItems con P.shared <+: yieldedItems con P.shared ∧
    (¬ Takes con P → passedItems con P.shared = yieldedItems con P.shared)

/-- In every run under the condition, the items are passed once and in order. -/
theorem passesInOrder_of_run {P : Machine} (hrun : RunUnder passesAll P) : PassesInOrder P := by
  intro con
  obtain ⟨htaken, hsettled⟩ := accounted_of_run hrun con
  refine ⟨?_, fun hnone => (hsettled hnone).passed⟩
  by_cases hnone : Takes con P
  · obtain ⟨t, ht, st, hst, htaking⟩ := hnone
    have h := htaken t ht st hst htaking
    cases st with
    | eventLoop l =>
        cases l
        case drain sess => exact ⟨_, h.1.symm⟩
        case handle sess ended | acceptDownload sess ended clientFt total |
            startDownload sess ended taskId total => exact ⟨_, h.1.symm⟩
        all_goals exact h.elim
    | _ => exact h.elim
  · rw [(hsettled hnone).passed]

/-- Session 1 polls a first item, and `more` is what the drain finds. -/
def itemsPolled (more : List Incoming) : List NativeLabel :=
  publishSteps 0 ++ startSteps 0 ++ iterateSteps 2 ++
    [.run 2 (.incoming (.textMessage "a" 2 1 "first"))] ++ more.map fun i => .run 2 (.incoming i)

/-- The first item alone is passed. -/
theorem passesInOrder_first : ∃ P : Machine,
    passedItems 1 P.shared = [.textMessage "a" 2 1 "first"] ∧ PassesInOrder P := by
  obtain ⟨P, hrun, hobs⟩ := exists_run passesAll (itemsPolled [.timeout] ++ [.run 2 .go])
    (fun P => passedItems 1 P.shared) (a := [.textMessage "a" 2 1 "first"]) rfl
  exact ⟨P, hobs, passesInOrder_of_run hrun⟩

/-- An item that is drained after it is passed before it. -/
theorem passed_reordered : ¬ ∀ P : Machine, native.Reachable P → PassesInOrder P := by
  intro hall
  obtain ⟨P, hrun, hobs⟩ := exists_run (fun _ _ _ => true)
    (itemsPolled [.textMessage "a" 2 1 "second", .timeout] ++ [.run 2 .go])
    (fun P => (passedItems 1 P.shared, yieldedItems 1 P.shared))
    (a := ([.textMessage "a" 2 1 "second"],
      [.textMessage "a" 2 1 "first", .textMessage "a" 2 1 "second"])) rfl
  obtain ⟨hpassed, hyielded⟩ := Prod.mk.inj hobs
  have h := (hall P hrun.reachable 1).1
  rw [hpassed, hyielded] at h
  revert h
  decide

end Nek0.Proofs.Native
