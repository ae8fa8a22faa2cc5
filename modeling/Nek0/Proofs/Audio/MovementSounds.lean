import Nek0.Audio.ChannelSounds

/-!
# `Nek0.Proofs.Audio.MovementSounds`: the movement sounds of a batch

`soundsOf` is what a batch pushes for the movement of one client, without the hint that there is a
recorder in the channel.

* `once_of_trigger`: for another client an event pushes nothing, or it is the first one that pushes
  and marks the client.
* `length_own`: for our own client nothing is marked, so that every event in `ownMovement` is heard.
* `oneSoundEach_iff`: every client has at most one sound iff at most one event of the batch moves or
  kicks our own client.
-/

set_option autoImplicit false

namespace Nek0.Proofs.Audio

open Nek0.Audio

/-- The client whose movement an event reports. -/
def about : Event → Option ClientId
  | .propertyAdded (.client cid) _ _ => some cid
  | .propertyChanged (.clientChannel cid) _ _ _ => some cid
  | .propertyRemoved (.client cid) _ _ => some cid
  | _ => none

/-- The requests without the recorder hint. -/
def movements (requests : List Request) : List Request :=
  requests.filter fun r => r.kind ≠ sfxNeutralRecordingActive

/-- The movement, kick, join and leave sounds of a client in a log. -/
def soundsOf (cid : ClientId) (log : List (Bool × Event × List Request)) : List Request :=
  log.flatMap fun e => if about e.2.1 = some cid then movements e.2.2 else []

/-- At most one sound for each client, and none at all while `SFX_ARMED` is false. -/
def OneSoundEach (log : List (Bool × Event × List Request)) : Prop :=
  (∀ cid, (soundsOf cid log).length ≤ 1) ∧ ∀ e ∈ log, e.1 = false → e.2.2 = []

/-- The event moves our own client to another channel, or kicks or bans it. -/
def ownMovement (book : Book) : Event → Bool
  | .propertyChanged (.clientChannel cid) (.channelId old) _ _ =>
    cid = book.ownClient && (book.clients.lookup cid).any fun c => c.channel ≠ old
  | .propertyRemoved (.client cid) (.client _) reason =>
    cid = book.ownClient &&
      (reason = some .kickChannel || reason = some .kickServer || reason = some .kickServerBan)
  | _ => false

/-- Such events that are looked at. -/
def ownMovements (book : Book) (events : List (Bool × Event)) : Nat :=
  events.countP fun e => e.1 && ownMovement book e.2

variable {own cid : ClientId} {ownChannel : Option ChannelId} {book : Book} {b b' : Batch}
  {armed : Bool} {ev : Event}

theorem length_movements_le (requests : List Request) :
    (movements requests).length ≤ requests.length :=
  List.length_filter_le _ _

/-! ### Other clients -/

/-- The client was pushed for at most once, and it is marked if it was. -/
def Once (cid : ClientId) (b : Batch) (r : Batch × List Request) : Prop :=
  r.2 = [] ∨ cid ∉ b.handled ∧ cid ∈ r.1.handled ∧ r.2.length ≤ 1

theorem handled_dedupe (kind : UInt8) (b : Batch) : (b.dedupe kind).2.handled = b.handled := by
  simp only [Batch.dedupe]
  split <;> rfl

theorem insert_of_mem (h : cid ∈ b.handled) : b.insert cid = (false, b) := if_pos h

theorem insert_of_not_mem (h : cid ∉ b.handled) :
    b.insert cid = (true, { b with handled := cid :: b.handled }) := if_neg h

/-- A move of another client gives one sound at most. -/
theorem length_otherMoveSound_le (c : Client) (old : ChannelId) (reason : Option Reason) :
    (otherMoveSound ownChannel c old reason).length ≤ 1 := by
  unfold otherMoveSound
  split
  · split <;> exact Nat.le_refl 1
  · split
    · split <;> exact Nat.le_refl 1
    · exact Nat.zero_le 1

theorem length_otherRemovedSound_le (c : Client) (reason : Option Reason) :
    (otherRemovedSound c reason).length ≤ 1 := by
  unfold otherRemovedSound
  split <;> first | exact Nat.le_refl 1 | exact Nat.zero_le 1

/-- An added client is handled once: not again, or for the first time with one sound at most. -/
theorem once_addedSound (invoker : Option Invoker) (reason : Option Reason) :
    Once cid b (addedSound own ownChannel book (.client cid) invoker reason b) := by
  simp only [addedSound]
  -- Only clients count, not ourselves, and only when they are in our channel.
  split
  · exact .inl rfl
  · split
    · exact .inl rfl
    · split
      · exact .inl rfl
      · by_cases hmem : cid ∈ b.handled
        · rw [insert_of_mem hmem]
          exact .inl rfl
        · rw [insert_of_not_mem hmem]
          -- The client is marked for every reason, also for those that are not heard.
          refine .inr ⟨hmem, ?_, ?_⟩
          · dsimp only
            split <;> exact List.mem_cons_self
          · dsimp only
            split <;> first | exact Nat.le_refl 1 | exact Nat.zero_le 1

/-- A move of another client is handled once. -/
theorem once_movedSound (hne : cid ≠ own) (old : PropertyValue) (invoker : Option Invoker)
    (reason : Option Reason) :
    Once cid b (movedSound own ownChannel book cid old invoker reason b) := by
  simp only [movedSound, if_neg hne]
  split
  · split
    · exact .inl rfl
    · split
      · exact .inl rfl
      · by_cases hmem : cid ∈ b.handled
        · rw [insert_of_mem hmem]
          exact .inl rfl
        · rw [insert_of_not_mem hmem]
          exact .inr ⟨hmem, List.mem_cons_self, length_otherMoveSound_le _ _ _⟩
  · exact .inl rfl

/-- So is its removal. -/
theorem once_removedSound (hne : cid ≠ own) (old : PropertyValue) (reason : Option Reason) :
    Once cid b (removedSound own ownChannel (.client cid) old reason b) := by
  simp only [removedSound, if_neg hne]
  split
  · split
    · exact .inl rfl
    · by_cases hmem : cid ∈ b.handled
      · rw [insert_of_mem hmem]
        exact .inl rfl
      · rw [insert_of_not_mem hmem]
        exact .inr ⟨hmem, List.mem_cons_self, length_otherRemovedSound_le _ _⟩
  · exact .inl rfl

/-- An event about another client. -/
theorem once_of_trigger (armed : Bool) (ownChannel : Option ChannelId) (book : Book) (b : Batch)
    (habout : about ev = some cid) (hne : cid ≠ own) :
    Once cid b (maybeTriggerSfx armed ev (some own) ownChannel book b) := by
  unfold maybeTriggerSfx
  split
  · exact .inl rfl
  · cases ev with
    | message => cases habout
    | propertyAdded id invoker reason =>
        cases id <;> cases habout
        exact once_addedSound invoker reason
    | propertyChanged id old invoker reason =>
        cases id <;> cases habout
        exact once_movedSound hne old invoker reason
    | propertyRemoved id old reason =>
        cases id <;> cases habout
        exact once_removedSound hne old reason

/-! ### Marks are kept -/

/-- What was handled stays handled. -/
theorem handled_insert (cid cid' : ClientId) (h : cid ∈ b.handled) :
    cid ∈ (b.insert cid').2.handled := by
  unfold Batch.insert
  split
  · exact h
  · exact List.mem_cons_of_mem _ h

/-- What was handled stays handled when something is added. -/
theorem handled_addedSound (id : PropertyId) (invoker : Option Invoker) (reason : Option Reason)
    (h : cid ∈ b.handled) :
    cid ∈ (addedSound own ownChannel book id invoker reason b).1.handled := by
  unfold addedSound
  split
  · next cid' =>
    have hkept := handled_insert cid cid' h
    split
    · exact h
    · split
      · exact h
      · split
        · exact h
        · generalize b.insert cid' = r at hkept ⊢
          obtain ⟨isNew, b'⟩ := r
          cases isNew with
          | false => exact hkept
          | true =>
              dsimp only
              split <;> exact hkept
  · split <;> exact h
  · exact h

/-- What was handled stays handled when something moves. -/
theorem handled_movedSound (cid' : ClientId) (old : PropertyValue) (invoker : Option Invoker)
    (reason : Option Reason) (h : cid ∈ b.handled) :
    cid ∈ (movedSound own ownChannel book cid' old invoker reason b).1.handled := by
  have hkept := handled_insert cid cid' h
  unfold movedSound
  split
  · split
    · exact h
    · split
      · exact h
      · split
        · exact h
        · generalize b.insert cid' = r at hkept ⊢
          obtain ⟨isNew, b'⟩ := r
          cases isNew <;> exact hkept
  · exact h

/-- A change of a channel handles no client. -/
theorem handled_channelSound (property : ChannelProperty) (b : Batch) :
    (channelSound property b).1.handled = b.handled := by
  have hmoved := handled_dedupe sfxChannelMoved b
  have hedited := handled_dedupe sfxChannelEdited b
  unfold channelSound
  split
  · generalize b.dedupe sfxChannelMoved = r at hmoved ⊢
    obtain ⟨isOld, b'⟩ := r
    cases isOld <;> exact hmoved
  · rfl
  · rfl
  · rfl
  · generalize b.dedupe sfxChannelEdited = r at hedited ⊢
    obtain ⟨isOld, b'⟩ := r
    cases isOld <;> exact hedited

/-- What was handled stays handled when something is removed. -/
theorem handled_removedSound (id : PropertyId) (old : PropertyValue) (reason : Option Reason)
    (h : cid ∈ b.handled) : cid ∈ (removedSound own ownChannel id old reason b).1.handled := by
  unfold removedSound
  split
  · next cid' =>
    have hkept := handled_insert cid cid' h
    split
    · split
      · unfold ownRemovedSound
        split <;> exact h
      · split
        · exact h
        · generalize b.insert cid' = r at hkept ⊢
          obtain ⟨isNew, b'⟩ := r
          cases isNew <;> exact hkept
    · exact h
  · exact h
  · exact h

/-- A client that is marked stays marked. -/
theorem handled_trigger (own : Option ClientId) (ev : Event) (h : cid ∈ b.handled) :
    cid ∈ (maybeTriggerSfx armed ev own ownChannel book b).1.handled := by
  unfold maybeTriggerSfx
  split
  · exact h
  · split
    · exact h
    · cases ev with
      | message => exact h
      | propertyAdded id invoker reason => exact handled_addedSound id invoker reason h
      | propertyChanged id old invoker reason =>
          cases id <;> try exact h
          case clientChannel cid' => exact handled_movedSound cid' old invoker reason h
          case channelProperty property _ =>
            exact (handled_channelSound property b).symm ▸ h
      | propertyRemoved id old reason => exact handled_removedSound id old reason h

/-! ### Our own client -/

/-- The move is heard once, with or without the hint. -/
theorem length_ownMoveSound (c : Client) (invoker : Option Invoker) (reason : Option Reason) :
    (movements (ownMoveSound own book c invoker reason)).length = 1 := by
  simp only [ownMoveSound]
  split
  · rfl
  · have hhint : movements (if book.clients.values.any fun c' =>
          c'.id ≠ own && c'.channel = c.channel && c'.isRecording then
        [⟨sfxNeutralRecordingActive, "recorder in channel"⟩] else []) = [] := by
      split <;> rfl
    unfold movements at hhint ⊢
    rw [List.filter_append, hhint, List.nil_append]
    split
    · split <;> rfl
    · rfl

/-- Our own move gives one sound if the channel is another one, and none otherwise. -/
theorem length_movedSound (old : PropertyValue) (invoker : Option Invoker)
    (reason : Option Reason) :
    (movements
        (movedSound book.ownClient ownChannel book book.ownClient old invoker reason b).2).length =
      (ownMovement book
        (.propertyChanged (.clientChannel book.ownClient) old invoker reason)).toNat := by
  unfold movedSound ownMovement
  cases old with
  | channelId old =>
      cases hfound : book.clients.lookup book.ownClient with
      | none => simp [movements, hfound]
      | some c =>
          by_cases hsame : old = c.channel
          · simp [movements, hfound, hsame]
          · simp [length_ownMoveSound, hfound, hsame, Ne.symm hsame]
  | client => rfl
  | bool => rfl
  | other => rfl

/-- Our own removal gives one sound if we were kicked or banned, and none otherwise. -/
theorem length_ownRemovedSound (removed : Client) (reason : Option Reason) :
    (movements (ownRemovedSound removed reason b).2).length =
      (ownMovement book (.propertyRemoved (.client book.ownClient) (.client removed)
        reason)).toNat := by
  rcases reason with _ | reason
  · simp [ownMovement, ownRemovedSound, movements]
  · cases reason <;> simp [ownMovement, ownRemovedSound, movements, sfxYouKickedChannel,
      sfxYouKickedServer, sfxYouWereBanned, sfxNeutralRecordingActive]

/-- An event about our own client is heard iff it is in `ownMovement`. -/
theorem length_own (habout : about ev = some book.ownClient) :
    (movements (maybeTriggerSfx armed ev (some book.ownClient) ownChannel book b).2).length =
      (armed && ownMovement book ev).toNat := by
  cases armed with
  | false => rfl
  | true =>
      cases ev with
      | message => cases habout
      | propertyAdded id invoker reason =>
          cases id <;> cases habout
          simp [maybeTriggerSfx, addedSound, ownMovement, movements]
      | propertyChanged id old invoker reason =>
          cases id <;> cases habout
          exact length_movedSound old invoker reason
      | propertyRemoved id old reason =>
          cases id <;> cases habout
          cases old with
          | client removed =>
              have hown : removedSound book.ownClient ownChannel (.client book.ownClient)
                  (.client removed) reason b = ownRemovedSound removed reason b := if_pos rfl
              calc (movements (removedSound book.ownClient ownChannel (.client book.ownClient)
                    (.client removed) reason b).2).length
                  = (movements (ownRemovedSound removed reason b).2).length := by rw [hown]
                _ = _ := length_ownRemovedSound removed reason
          | channelId => rfl
          | bool => rfl
          | other => rfl

/-! ### The whole batch -/

/-- The log of a batch whose book has our own client. -/
def logOf (ownChannel : Option ChannelId) (book : Book) (events : List (Bool × Event)) (b : Batch) :
    List (Bool × Event × List Request) :=
  (batchLoop (some book.ownClient) ownChannel book events b).2

/-- The sounds of a batch, event by event. -/
theorem soundsOf_cons (cid : ClientId) (ownChannel : Option ChannelId) (book : Book) (armed : Bool)
    (ev : Event) (events : List (Bool × Event)) (b : Batch) :
    let r := maybeTriggerSfx armed ev (some book.ownClient) ownChannel book b
    soundsOf cid (logOf ownChannel book ((armed, ev) :: events) b) =
      (if about ev = some cid then movements r.2 else []) ++
        soundsOf cid (logOf ownChannel book events r.1) :=
  List.flatMap_cons

/-- Once another client is marked, it is silent. -/
theorem soundsOf_of_handled (hne : cid ≠ book.ownClient) (events : List (Bool × Event))
    (h : cid ∈ b.handled) : soundsOf cid (logOf ownChannel book events b) = [] := by
  induction events generalizing b with
  | nil => rfl
  | cons e events ih =>
      obtain ⟨armed, ev⟩ := e
      rw [soundsOf_cons, ih (handled_trigger _ ev h), List.append_nil]
      split
      · next habout =>
        rcases once_of_trigger armed ownChannel book b habout hne with hnone | ⟨hnew, -, -⟩
        · rw [hnone]
          rfl
        · exact absurd h hnew
      · rfl

/-- Another client has at most one sound. -/
theorem length_soundsOf_other (hne : cid ≠ book.ownClient) (events : List (Bool × Event))
    (b : Batch) : (soundsOf cid (logOf ownChannel book events b)).length ≤ 1 := by
  induction events generalizing b with
  | nil => exact Nat.zero_le 1
  | cons e events ih =>
      obtain ⟨armed, ev⟩ := e
      rw [soundsOf_cons]
      split
      · next habout =>
        rcases once_of_trigger armed ownChannel book b habout hne with
          hnone | ⟨-, hmarked, hone⟩
        · rw [hnone]
          exact ih _
        · rw [soundsOf_of_handled hne events hmarked, List.append_nil]
          exact Nat.le_trans (length_movements_le _) hone
      · exact ih _

/-- An event in `ownMovement` is about our own client. -/
theorem about_of_ownMovement (h : ownMovement book ev = true) : about ev = some book.ownClient := by
  unfold ownMovement at h
  split at h
  · exact congrArg some (of_decide_eq_true (Bool.and_eq_true _ _ |>.mp h).1)
  · exact congrArg some (of_decide_eq_true (Bool.and_eq_true _ _ |>.mp h).1)
  · cases h

/-- Our own client has one sound for each event in `ownMovement`. -/
theorem length_soundsOf_own (events : List (Bool × Event)) (b : Batch) :
    (soundsOf book.ownClient (logOf ownChannel book events b)).length =
      ownMovements book events := by
  induction events generalizing b with
  | nil => rfl
  | cons e events ih =>
      obtain ⟨armed, ev⟩ := e
      rw [soundsOf_cons, List.length_append, ih, ownMovements, ownMovements, List.countP_cons,
        Nat.add_comm]
      congr 1
      split
      · next habout =>
        rw [length_own habout]
        cases armed && ownMovement book ev <;> rfl
      · next habout =>
        cases hown : ownMovement book ev with
        | false => simp
        | true => exact absurd (about_of_ownMovement hown) habout

/-- Nothing is pushed while `SFX_ARMED` is false. -/
theorem silent_of_unarmed (own : Option ClientId) (events : List (Bool × Event)) (b : Batch) :
    ∀ e ∈ (batchLoop own ownChannel book events b).2, e.1 = false → e.2.2 = [] := by
  induction events generalizing b with
  | nil => exact List.forall_mem_nil _
  | cons e events ih =>
      obtain ⟨armed, ev⟩ := e
      refine List.forall_mem_cons.mpr ⟨?_, ih _⟩
      intro hunarmed
      show (maybeTriggerSfx armed ev own ownChannel book b).2 = []
      rw [show armed = false from hunarmed]
      rfl

/-- The log of a batch is the one of its events. -/
theorem log_handleBookEvents (book : Book) (suppressDisconnect : Bool)
    (events : List (Bool × Event)) :
    (handleBookEvents (some book) suppressDisconnect events).2 =
      logOf ((book.clients.lookup book.ownClient).map (·.channel)) book events
        { fired := 0, handled := [], suppressDisconnect := suppressDisconnect } := rfl

/-- A batch makes at most one sound for every client iff there is no book, or at most one of the
events that are looked at moves our own client to another channel or kicks or bans it: own events do
not consult `batch_handled`. -/
theorem oneSoundEach_iff (book : Option Book) (suppressDisconnect : Bool)
    (events : List (Bool × Event)) :
    OneSoundEach (handleBookEvents book suppressDisconnect events).2 ↔
      ∀ b, book = some b → ownMovements b events ≤ 1 := by
  cases book with
  | none =>
      have hlog : (handleBookEvents none suppressDisconnect events).2 = [] := rfl
      rw [hlog]
      constructor
      · intro _ b hb
        cases hb
      · intro _
        exact ⟨fun _ => Nat.zero_le 1, List.forall_mem_nil _⟩
  | some book =>
      rw [log_handleBookEvents]
      constructor
      · intro h b hb
        cases hb
        exact (length_soundsOf_own events _).symm.trans_le (h.1 book.ownClient)
      · intro h
        refine ⟨fun cid => ?_, silent_of_unarmed _ events _⟩
        by_cases hown : cid = book.ownClient
        · rw [hown, length_soundsOf_own]
          exact h book rfl
        · exact length_soundsOf_other hown events _

/-- Our own client, in a channel. -/
def me (channel : ChannelId) : Client where
  id := 1
  channel := channel
  name := "me"
  isRecording := false
  inputMuted := false
  outputMuted := false
  awayMessage := none

/-- We are in channel 2. -/
def kickedBook : Book where
  ownClient := 1
  clients := (∅ : Nek0.Lib.Table ClientId Client).insert 1 (me 2)

/-- We were kicked out of channel 1: our client left the view, and it was moved. -/
def kickedEvents : List (Bool × Event) :=
  [(true, .propertyRemoved (.client 1) (.client (me 1)) (some .kickChannel)),
    (true, .propertyChanged (.clientChannel 1) (.channelId 1) none (some .kickChannel))]

/-- In the example we are moved twice. -/
theorem ownMovements_kicked : ownMovements kickedBook kickedEvents = 2 := by
  have hfound : kickedBook.clients.lookup 1 = some (me 2) := AList.lookup_insert _
  have hleft : ownMovement kickedBook (.propertyRemoved (.client 1) (.client (me 1))
      (some .kickChannel)) = true := rfl
  have hmoved : ownMovement kickedBook (.propertyChanged (.clientChannel 1) (.channelId 1) none
      (some .kickChannel)) = true := by
    simp only [ownMovement, hfound]
    rfl
  simp [ownMovements, kickedEvents, hleft, hmoved]

/-- The kick is heard twice. -/
theorem not_oneSoundEach :
    ¬ OneSoundEach (handleBookEvents (some kickedBook) false kickedEvents).2 := by
  intro h
  have hone := h.1 kickedBook.ownClient
  rw [log_handleBookEvents, length_soundsOf_own, ownMovements_kicked] at hone
  exact absurd hone (by decide)

end Nek0.Proofs.Audio
