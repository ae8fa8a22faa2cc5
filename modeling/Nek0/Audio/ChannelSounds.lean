import Nek0.Lib.Table

/-!
# `Nek0.Audio.ChannelSounds`: the sounds of a `BookEvents` batch

`maybe_trigger_sfx` of `native/src/api.rs`, and the loop of `handle_control_item` that calls it for
the events of one batch. `Batch` is what the loop keeps between two events, and
`SFX_SUPPRESS_DISCONNECT`.

Other threads can write `SFX_ARMED` at any time, so each event comes with what it reads there. The
result of the loop is a log: each event with the requests that it pushed.

The properties of a channel are one constructor of `PropertyId`, and the properties of a client that
the function does not look at are `other`.

Left out: the chat messages and the lists that the loop also updates.
-/

set_option autoImplicit false

namespace Nek0.Audio

open Nek0.Lib

abbrev ClientId := UInt16

abbrev ChannelId := UInt64

/-! ### The events -/

/-- `Reason`. -/
inductive Reason where
  | none
  | moved
  | subscription
  | lostConnection
  | kickChannel
  | kickServer
  | kickServerBan
  | serverstop
  | clientdisconnect
  | channelupdate
  | channeledit
  | clientdisconnectServerShutdown
  deriving DecidableEq, Repr

/-- `Invoker`. -/
structure Invoker where
  name : String
  id : ClientId
  deriving DecidableEq, Repr

/-- `MessageTarget`. -/
inductive MessageTarget where
  | server
  | channel
  | client (id : ClientId)
  | poke (id : ClientId)
  deriving DecidableEq, Repr

/-- A property of a channel, without its `Channel`. -/
inductive ChannelProperty where
  | parent
  | order
  | subscribed
  | permissionHints
  | name
  | guid
  | topic
  | codec
  | codecQuality
  | maxClients
  | maxFamilyClients
  | channelType
  | isDefault
  | hasPassword
  | codecLatencyFactor
  | isUnencrypted
  | deleteDelay
  | neededTalkPower
  | forcedSilence
  | phoneticName
  | icon
  | isPrivate
  | storageQuota
  deriving DecidableEq, Repr

/-- `PropertyId`. -/
inductive PropertyId where
  | client (cid : ClientId)
  | channel (cid : ChannelId)
  | clientChannel (cid : ClientId)
  | clientIsRecording (cid : ClientId)
  | clientInputMuted (cid : ClientId)
  | clientOutputMuted (cid : ClientId)
  | clientAwayMessage (cid : ClientId)
  | clientChannelGroup (cid : ClientId)
  | channelProperty (property : ChannelProperty) (cid : ChannelId)
  | other
  deriving DecidableEq, Repr

/-- `Client`. -/
structure Client where
  id : ClientId
  channel : ChannelId
  name : String
  isRecording : Bool
  inputMuted : Bool
  outputMuted : Bool
  awayMessage : Option String
  deriving DecidableEq, Repr

/-- `PropertyValue`. -/
inductive PropertyValue where
  | channelId (ch : ChannelId)
  | client (c : Client)
  | bool (b : Bool)
  | other
  deriving DecidableEq, Repr

/-- `Event`. `extra` is its only field, the reason. -/
inductive Event where
  | message (target : MessageTarget) (invoker : Invoker)
  | propertyAdded (id : PropertyId) (invoker : Option Invoker) (reason : Option Reason)
  | propertyChanged (id : PropertyId) (old : PropertyValue) (invoker : Option Invoker)
      (reason : Option Reason)
  | propertyRemoved (id : PropertyId) (old : PropertyValue) (reason : Option Reason)
  deriving DecidableEq, Repr

/-- The book: our own client, and the clients that we see. -/
structure Book where
  ownClient : ClientId
  clients : Table ClientId Client

/-! ### The sounds -/

/-- The `SFX_` constants that `maybe_trigger_sfx` pushes. -/
def sfxChannelSwitched : UInt8 := 1
def sfxNeutralToCurrent : UInt8 := 2
def sfxNeutralAwayFromCurrent : UInt8 := 3
def sfxYouWereMoved : UInt8 := 4
def sfxYouKickedChannel : UInt8 := 5
def sfxYouKickedServer : UInt8 := 6
def sfxYouWereBanned : UInt8 := 7
def sfxYouWerePoked : UInt8 := 8
def sfxChatInbound : UInt8 := 9
def sfxMicActivated : UInt8 := 15
def sfxMicMuted : UInt8 := 16
def sfxSoundMuted : UInt8 := 17
def sfxSoundResumed : UInt8 := 18
def sfxAwayActivated : UInt8 := 19
def sfxAwayDeactivated : UInt8 := 20
def sfxChannelCreated : UInt8 := 21
def sfxChannelDeleted : UInt8 := 22
def sfxChannelEdited : UInt8 := 23
def sfxChannelMoved : UInt8 := 24
def sfxChannelgroupChanged : UInt8 := 25
def sfxNeutralConnConnected : UInt8 := 26
def sfxNeutralConnDisconnected : UInt8 := 27
def sfxNeutralConnLost : UInt8 := 28
def sfxNeutralMovedToCurrent : UInt8 := 29
def sfxNeutralMovedAway : UInt8 := 30
def sfxNeutralKickedChToCurrent : UInt8 := 31
def sfxNeutralKickedChAway : UInt8 := 32
def sfxNeutralKickedServer : UInt8 := 33
def sfxNeutralBannedServer : UInt8 := 34
def sfxNeutralRecordingStarted : UInt8 := 35
def sfxNeutralRecordingStopped : UInt8 := 36
def sfxNeutralRecordingActive : UInt8 := 37

/-- A request, with the detail of its log line. -/
structure Request where
  kind : UInt8
  detail : String
  deriving DecidableEq, Repr

/-- `batch_fired`, `batch_handled` and `SFX_SUPPRESS_DISCONNECT`. -/
structure Batch where
  fired : UInt32
  handled : List ClientId
  suppressDisconnect : Bool
  deriving DecidableEq, Repr

namespace Batch

/-- Did the batch push this kind already? It is marked. -/
def dedupe (kind : UInt8) (b : Batch) : Bool × Batch :=
  let bit : UInt32 := 1 <<< (kind - 1).toUInt32
  if b.fired &&& bit ≠ 0 then (true, b) else (false, { b with fired := b.fired ||| bit })

/-- `batch_handled.insert`: is the client new? -/
def insert (cid : ClientId) (b : Batch) : Bool × Batch :=
  if cid ∈ b.handled then (false, b) else (true, { b with handled := cid :: b.handled })

/-- `SFX_SUPPRESS_DISCONNECT` is set. -/
def suppress (b : Batch) : Batch := { b with suppressDisconnect := true }

end Batch

section

variable (ownClient : ClientId) (ownChannel : Option ChannelId) (book : Book)

/-- A text message, or a poke. -/
def messageSound (target : MessageTarget) (invoker : Invoker) : List Request :=
  match target with
  | .poke _ => [⟨sfxYouWerePoked, invoker.name⟩]
  | _ => if invoker.id ≠ ownClient then [⟨sfxChatInbound, invoker.name⟩] else []

/-- Someone entered our view, or a new channel appeared. -/
def addedSound (id : PropertyId) (invoker : Option Invoker) (reason : Option Reason) (b : Batch) :
    Batch × List Request :=
  match id with
  | .client cid =>
    -- Our own entry is heard elsewhere, and a subscription is no entry.
    if cid = ownClient ∨ reason = some .subscription then (b, [])
    else
      match book.clients.lookup cid with
      | none => (b, [])
      | some c =>
        if some c.channel ≠ ownChannel then (b, [])
        else
          -- The client's movement was accounted for already.
          match b.insert cid with
          | (false, b) => (b, [])
          | (true, b) =>
            match reason with
            | some .none => (b, [⟨sfxNeutralConnConnected, c.name⟩])
            | some .moved => (b, [⟨sfxNeutralMovedToCurrent, c.name⟩])
            | some .kickChannel => (b, [⟨sfxNeutralKickedChToCurrent, c.name⟩])
            | _ => (b, [])
  | .channel _ =>
    -- A live creation has an invoker. The first list and a subscription have none.
    match invoker with
    | some _ => (b, [⟨sfxChannelCreated, ""⟩])
    | none => (b, [])
  | _ => (b, [])

/-- Our own client is in another channel. -/
def ownMoveSound (c : Client) (invoker : Option Invoker) (reason : Option Reason) : List Request :=
  if reason = some .kickChannel then [⟨sfxYouKickedChannel, c.name⟩]
  else
    let sound :=
      match invoker with
      | some inv => if inv.id ≠ ownClient then sfxYouWereMoved else sfxChannelSwitched
      | none => sfxChannelSwitched
    let hint :=
      if book.clients.values.any fun c' =>
          c'.id ≠ ownClient && c'.channel = c.channel && c'.isRecording then
        [⟨sfxNeutralRecordingActive, "recorder in channel"⟩]
      else []
    hint ++ [⟨sound, c.name⟩]

/-- Another client is in another channel. -/
def otherMoveSound (c : Client) (oldChannel : ChannelId) (reason : Option Reason) : List Request :=
  if some oldChannel = ownChannel ∧ some c.channel ≠ ownChannel then
    match reason with
    | some .kickChannel => [⟨sfxNeutralKickedChAway, c.name⟩]
    | some .moved => [⟨sfxNeutralMovedAway, c.name⟩]
    | _ => [⟨sfxNeutralAwayFromCurrent, c.name⟩]
  else if some oldChannel ≠ ownChannel ∧ some c.channel = ownChannel then
    match reason with
    | some .kickChannel => [⟨sfxNeutralKickedChToCurrent, c.name⟩]
    | some .moved => [⟨sfxNeutralMovedToCurrent, c.name⟩]
    | _ => [⟨sfxNeutralToCurrent, c.name⟩]
  else []

/-- `ClientChannel` changed. -/
def movedSound (cid : ClientId) (old : PropertyValue) (invoker : Option Invoker)
    (reason : Option Reason) (b : Batch) : Batch × List Request :=
  match old with
  | .channelId oldChannel =>
    match book.clients.lookup cid with
    | none => (b, [])
    | some c =>
      -- The channel was set again, to the same one.
      if oldChannel = c.channel then (b, [])
      else if cid = ownClient then (b, ownMoveSound ownClient book c invoker reason)
      else
        match b.insert cid with
        | (false, b) => (b, [])
        | (true, b) => (b, otherMoveSound ownChannel c oldChannel reason)
  | _ => (b, [])

/-- `ClientIsRecording` changed. -/
def recordingSound (cid : ClientId) (old : PropertyValue) : List Request :=
  match book.clients.lookup cid with
  | none => []
  | some c =>
    if cid = ownClient ∨ some c.channel ≠ ownChannel then []
    else
      match old with
      | .bool oldRec =>
        if c.isRecording = oldRec then []
        else if c.isRecording then [⟨sfxNeutralRecordingStarted, c.name⟩]
        else [⟨sfxNeutralRecordingStopped, c.name⟩]
      | _ => []

/-- A property of a channel changed. Only its first change in the batch is heard. -/
def channelSound (property : ChannelProperty) (b : Batch) : Batch × List Request :=
  match property with
  | .parent =>
    match b.dedupe sfxChannelMoved with
    | (true, b) => (b, [])
    | (false, b) => (b, [⟨sfxChannelMoved, ""⟩])
  | .order | .subscribed | .permissionHints => (b, [])
  | _ =>
    match b.dedupe sfxChannelEdited with
    | (true, b) => (b, [])
    | (false, b) => (b, [⟨sfxChannelEdited, ""⟩])

/-- A flag of our own client was echoed by the server. -/
def flagSound (cid : ClientId) (flag : Client → Bool) (on off : UInt8) : List Request :=
  if cid = ownClient then
    match (book.clients.lookup cid).map flag with
    | some true => [⟨on, ""⟩]
    | some false => [⟨off, ""⟩]
    | none => []
  else []

/-- Our away message changed. -/
def awaySound (cid : ClientId) : List Request :=
  if cid = ownClient then
    match (book.clients.lookup cid).bind (·.awayMessage) with
    | some _ => [⟨sfxAwayActivated, ""⟩]
    | none => [⟨sfxAwayDeactivated, ""⟩]
  else []

/-- Our channel group changed. It is heard if someone else did it. -/
def channelGroupSound (cid : ClientId) (invoker : Option Invoker) : List Request :=
  if cid = ownClient then
    match invoker with
    | some inv => if inv.id ≠ ownClient ∧ inv.id ≠ 0 then [⟨sfxChannelgroupChanged, ""⟩] else []
    | none => []
  else []

/-- A property changed. -/
def changedSound (id : PropertyId) (old : PropertyValue) (invoker : Option Invoker)
    (reason : Option Reason) (b : Batch) : Batch × List Request :=
  match id with
  | .clientChannel cid => movedSound ownClient ownChannel book cid old invoker reason b
  | .clientIsRecording cid => (b, recordingSound ownClient ownChannel book cid old)
  | .channelProperty property _ => channelSound property b
  | .clientInputMuted cid =>
    (b, flagSound ownClient book cid (·.inputMuted) sfxMicMuted sfxMicActivated)
  | .clientOutputMuted cid =>
    (b, flagSound ownClient book cid (·.outputMuted) sfxSoundMuted sfxSoundResumed)
  | .clientAwayMessage cid => (b, awaySound ownClient book cid)
  | .clientChannelGroup cid => (b, channelGroupSound ownClient cid invoker)
  | _ => (b, [])

/-- Our own client left the view. -/
def ownRemovedSound (removed : Client) (reason : Option Reason) (b : Batch) :
    Batch × List Request :=
  match reason with
  | some .kickChannel => (b, [⟨sfxYouKickedChannel, removed.name⟩])
  | some .kickServer => (b.suppress, [⟨sfxYouKickedServer, removed.name⟩])
  | some .kickServerBan => (b.suppress, [⟨sfxYouWereBanned, removed.name⟩])
  | _ => (b, [])

/-- Someone in our channel left the server. -/
def otherRemovedSound (removed : Client) (reason : Option Reason) : List Request :=
  match reason with
  | some .lostConnection => [⟨sfxNeutralConnLost, removed.name⟩]
  | some .kickChannel => [⟨sfxNeutralKickedChAway, removed.name⟩]
  | some .kickServer => [⟨sfxNeutralKickedServer, removed.name⟩]
  | some .kickServerBan => [⟨sfxNeutralBannedServer, removed.name⟩]
  | some .moved => [⟨sfxNeutralMovedAway, removed.name⟩]
  | some .none | some .clientdisconnect => [⟨sfxNeutralConnDisconnected, removed.name⟩]
  | _ => []

/-- A client or a channel was removed. -/
def removedSound (id : PropertyId) (old : PropertyValue) (reason : Option Reason) (b : Batch) :
    Batch × List Request :=
  match id with
  | .client cid =>
    match old with
    | .client removed =>
      -- We were removed ourselves.
      if cid = ownClient then ownRemovedSound removed reason b
      -- The client left a channel that is not ours.
      else if some removed.channel ≠ ownChannel then (b, [])
      else
        match b.insert cid with
        | (false, b) => (b, [])
        | (true, b) => (b, otherRemovedSound removed reason)
    | _ => (b, [])
  | .channel _ => (b, [⟨sfxChannelDeleted, ""⟩])
  | _ => (b, [])

end

/-- `maybe_trigger_sfx`, with what it reads from `SFX_ARMED`. -/
def maybeTriggerSfx (armed : Bool) (ev : Event) (ownClient : Option ClientId)
    (ownChannel : Option ChannelId) (book : Book) (b : Batch) : Batch × List Request :=
  -- No sound before the session is up.
  if !armed then (b, [])
  else
    -- Without an own id there is nothing to relate the event to.
    match ownClient with
    | none => (b, [])
    | some ownClient =>
      match ev with
      | .message target invoker => (b, messageSound ownClient target invoker)
      | .propertyAdded id invoker reason =>
        addedSound ownClient ownChannel book id invoker reason b
      | .propertyChanged id old invoker reason =>
        changedSound ownClient ownChannel book id old invoker reason b
      | .propertyRemoved id old reason => removedSound ownClient ownChannel id old reason b

/-- The loop over the events of a batch. The log has each event with what it read from `SFX_ARMED`
and the requests it pushed. -/
def batchLoop (ownClient : Option ClientId) (ownChannel : Option ChannelId) (book : Book) :
    List (Bool × Event) → Batch → Batch × List (Bool × Event × List Request)
  | [], b => (b, [])
  | (armed, ev) :: events, b =>
    let r := maybeTriggerSfx armed ev ownClient ownChannel book b
    let rest := batchLoop ownClient ownChannel book events r.1
    (rest.1, (armed, ev, r.2) :: rest.2)

/-- `handle_control_item` for a batch. Without a book no event is looked at. -/
def handleBookEvents (book : Option Book) (suppressDisconnect : Bool)
    (events : List (Bool × Event)) : Batch × List (Bool × Event × List Request) :=
  let b : Batch := { fired := 0, handled := [], suppressDisconnect := suppressDisconnect }
  let ownClient := book.map (·.ownClient)
  let ownChannel := book.bind fun b => (b.clients.lookup b.ownClient).map (·.channel)
  match book with
  | none => (b, [])
  | some book => batchLoop ownClient ownChannel book events b

end Nek0.Audio
