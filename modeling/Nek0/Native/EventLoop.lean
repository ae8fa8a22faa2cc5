import Nek0.Native.Handlers

/-!
# `Nek0.Native.EventLoop`: `event_loop`

One iteration looks at the disconnect flags, processes the queued commands, polls the connection,
and handles what it yielded. The items drained after the first one are handled before it. There are
four ways out. A disconnect request first polls the stream to its end. Each way clears the session
only when `CONNECTION_GENERATION` is still the loop's own. The wrapper in `do_connect` then stores
`EVENT_LOOP_ALIVE = false`, whatever happened.

Left out: audio packets, the talking clients, the sounds, and the packets' contents.
-/

set_option autoImplicit false

namespace Nek0.Native

/-- The writes of an exit whose generation check passed. -/
def ExitWay.writes : ExitWay → List Write
  | .requested =>
      [.push (.disconnected "User disconnected") none, .setConnected false,
        .setDisconnectRequested false, .clearFtLists, .clearFtOps, .clearPermOps, .dropCommandTx]
  | .command =>
      [.endSession "User disconnected", .clearFtLists, .clearFtOps, .clearPermOps, .dropCommandTx]
  | .failed message =>
      [.push (.error message) none, .setConnected false,
        .push (.disconnected ("Connection error: " ++ message)) none, .clearFtLists, .clearFtOps,
        .clearPermOps, .dropCommandTx]
  | .ended =>
      [.endSession "Connection closed by server", .clearFtLists, .clearFtOps, .clearPermOps,
        .dropCommandTx]

/-- `event_loop` returns or unwinds, and its wrapper ends. -/
def leaveProgram (sess : Session) : List Stmt :=
  [.write (.dropReceiver sess.generation), .write (.dropConnection sess.con),
    .write (.setEventLoopAlive false)]

/-- What follows the generation check of an exit. -/
def exitProgram (s : Shared) (sess : Session) (way : ExitWay) : List Stmt :=
  (if s.connectionGeneration = sess.generation then way.writes.map Stmt.write else []) ++
    leaveProgram sess

/-- What follows a successful send. -/
def Reply.onSent (code : ReturnCode) (sid : SendId) : Reply → List Stmt
  | .permOp none => []
  | .permOp (some token) => [.write (.insertPermOp code token sid)]
  | .ownMove _ => []
  | .ftOp token => [.write (.insertFtOp code token sid)]
  | .ftList cid path token => [.write (.insertFtList code token cid path sid)]
  | .ftTask taskId _ => [.write (.insertFtTaskByRc code taskId sid)]

/-- What follows a failed send. -/
def Reply.onFailed (e : String) : Reply → List Stmt
  | .permOp none => []
  | .permOp (some token) => [.write (.push (.permOp token false (some e)) none)]
  | .ownMove _ => []
  | .ftOp token => [.write (.push (.ftOp token false (some e)) none)]
  | .ftList _ _ token => [.write (.push (.ftListing token [] (some e)) none)]
  | .ftTask taskId _ => [.handler (.finishFtTask taskId false (some e) none)]

/-- What the library remembers of a sent command. -/
def Conn.register (c : Conn) (sid : SendId) (reply : Reply) : Conn :=
  let c := { c with
    curReturnCode := c.curReturnCode + 1
    unanswered := c.unanswered ++ [(c.curReturnCode, sid)] }
  match reply with
  | .ftList cid path _ =>
      { c with listings := c.listings ++ [⟨sid, c.curReturnCode - 1, cid, path⟩] }
  | .ftTask _ clientFt => { c with transfers := c.transfers ++ [clientFt] }
  | _ => c

/-- The tokenless move of our own client that was sent, if it is one. -/
def Reply.moves (sid : SendId) (now : Instant) : Reply → List (SendId × UInt64 × Instant)
  | .ownMove channelId => [(sid, channelId, now)]
  | _ => []

/-- `send_with_result`: a failed send has used up its return code too, except without a link. -/
def Shared.sendWithResult (s : Shared) (con : Nat) (reply : Reply) (failure : Option String) :
    NativeOutcome :=
  let c := s.conns con
  if c.link = .connected then
    match failure with
    | some e =>
      { shared := s.setConn con { c with curReturnCode := c.curReturnCode + 1 }
        front := reply.onFailed (Conn.sendPacketError e) }
    | none =>
      { shared :=
          { s.setConn con (c.register s.history.sends reply) with
              history := { s.history with
                sends := s.history.sends + 1
                moves := s.history.moves ++ reply.moves s.history.sends s.now } }
        front := reply.onSent c.curReturnCode s.history.sends }
  -- Without a link no code is used.
  else { shared := s, front := reply.onFailed Conn.notConnected }

/-- `own_client_id_or_cache`: the own id, and the state with the refreshed cache. -/
def Shared.ownClientIdOrCache (s : Shared) (con : Nat) : Shared × UInt32 :=
  let c := s.conns con
  if c.link = .connected then
    let own := c.book.ownClient.toUInt32
    (if own ≠ 0 then { s with ownClientId := own } else s, own)
  else (s, s.ownClientId)

/-- A refused kick or ban answers its token at once. -/
def refuse (token : Option String) (message : String) : List Stmt :=
  match token with
  | none => []
  | some token => [.write (.push (.permOp token false (some message)) none)]

/-- A received command, `Disconnect` aside. -/
def commandProgram (sess : Session) : Command → List Stmt
  -- What becomes of these is not looked at.
  | .sendMessage _ | .setMuted _ _ | .setAway _ | .sendPoke _ _ | .refreshGroups | .ownPermList =>
      []
  | .disconnect => []
  | .moveChannel clientId channelId password token =>
      [.eventLoop (.ownClient sess (.moveChannel clientId channelId password token))]
  | .kickClient clientId fromServer reason token =>
      [.eventLoop (.ownClient sess (.kickClient clientId fromServer reason token))]
  | .banClient clientId timeSeconds reason token =>
      [.eventLoop (.ownClient sess (.banClient clientId timeSeconds reason token))]
  -- The answers to these come with their code.
  | .serverGroupAddClient _ _ token => [.eventLoop (.sendWithResult sess (.permOp (some token)))]
  | .serverGroupDelClient _ _ token => [.eventLoop (.sendWithResult sess (.permOp (some token)))]
  | .channelGroupSet _ _ _ token => [.eventLoop (.sendWithResult sess (.permOp (some token)))]
  | .channelGroupClear _ _ token => [.eventLoop (.sendWithResult sess (.permOp (some token)))]
  | .grantChannelPerm _ _ _ _ token =>
      [.eventLoop (.sendWithResult sess (.permOp (some token)))]
  | .revokeChannelPerm _ _ _ token =>
      [.eventLoop (.sendWithResult sess (.permOp (some token)))]
  | .grantServerPerm _ _ _ token => [.eventLoop (.sendWithResult sess (.permOp (some token)))]
  | .revokeServerPerm _ _ token => [.eventLoop (.sendWithResult sess (.permOp (some token)))]
  | .ftList cid path _ token => [.eventLoop (.sendWithResult sess (.ftList cid path token))]
  | .ftCreateDir _ _ _ token => [.eventLoop (.sendWithResult sess (.ftOp token))]
  | .ftDelete _ _ _ token => [.eventLoop (.sendWithResult sess (.ftOp token))]
  | .ftDownload _ _ _ taskId => [.eventLoop (.nextClientFt sess taskId)]
  | .ftUpload _ _ _ taskId => [.eventLoop (.nextClientFt sess taskId)]

/-- The branch of a command on the own client id. -/
def ownClientProgram (sess : Session) (own : UInt32) : Command → List Stmt
  | .moveChannel clientId channelId _ token =>
      -- Our own move. Without a token a bare error is put down to it.
      if clientId.toUInt32 = own then
        [.write (.armPendingMove channelId),
          .eventLoop (.sendWithResult sess
            (if token.isNone then .ownMove channelId else .permOp token))]
      else [.eventLoop (.sendWithResult sess (.permOp token))]
  | .kickClient clientId _ _ token =>
      if clientId.toUInt32 = own then refuse token "cannot kick yourself"
      else [.eventLoop (.sendWithResult sess (.permOp token))]
  | .banClient clientId timeSeconds reason token =>
      if reason.isEmpty && timeSeconds == 0 then
        refuse token "skip: empty reason (permanent ban)"
      else if clientId.toUInt32 = own then refuse token "cannot ban yourself"
      else [.eventLoop (.sendWithResult sess (.permOp token))]
  | _ => []

/-- A disconnect request was seen: the loop is on its way out. -/
def Shared.recordUserExit (s : Shared) (sess : Session) : Shared :=
  { s with
      history := { s.history with
        userExits := s.history.userExits ++
          [((s.queues sess.generation).attempt, sess.con, s.history.lastRequest)] } }

/-- The stream has yielded an item. -/
def Shared.recordYield (s : Shared) (con : Nat) (it : StreamItem) : Shared :=
  { s with history := { s.history with yielded := s.history.yielded ++ [(con, it)] } }

/-- An item is passed to `handle_event_item`. -/
def Shared.recordPassed (s : Shared) (con : Nat) (it : StreamItem) : Shared :=
  { s with history := { s.history with passed := s.history.passed ++ [(con, it, s.now)] } }

/-- What an event loop statement does. -/
def LoopStmt.exec (choice : Choice) (s : Shared) : LoopStmt → Option NativeOutcome
  | .takeStash generation =>
      match s.connectionStash with
      -- The panic is outside `catch_unwind`: the task ends, and the receiver is dropped.
      | none => some { shared := s, front := [.write (.dropReceiver generation)] }
      | some con =>
        some
          { shared := { s with connectionStash := none }
            front := [.write (.setEventLoopAlive true), .eventLoop (.top ⟨generation, con⟩)] }
  | .top sess =>
      some
        { shared := s
          front := if s.swipeDisconnect then
              [.write (.setDisconnectRequested true), .write (.setSwipeDisconnect false),
                .eventLoop (.checkDisconnect sess)]
            else [.eventLoop (.checkDisconnect sess)] }
  | .checkDisconnect sess =>
      if s.disconnectRequested then
        some
          { shared := s.recordUserExit sess
            front := [.eventLoop (.disconnect sess .requested)] }
      else some { shared := s, front := [.eventLoop (.receive sess)] }
  | .receive sess =>
      let q := s.queues sess.generation
      match q.commands with
      | [] => some { shared := s, front := [.eventLoop (.poll sess)] }
      | c :: rest =>
        let s := s.setQueue sess.generation { q with commands := rest }
        if c = .disconnect then
          some
            { shared := s.recordUserExit sess
              front := [.eventLoop (.disconnect sess .command)] }
        else
          some { shared := s, front := commandProgram sess c ++ [.eventLoop (.receive sess)] }
  | .ownClient sess c =>
      let r := s.ownClientIdOrCache sess.con
      some { shared := r.1, front := ownClientProgram sess r.2 c }
  | .sendWithResult sess reply =>
      match choice with
      | .sendFails e => some (s.sendWithResult sess.con reply (some e))
      | _ => some (s.sendWithResult sess.con reply none)
  | .nextClientFt sess taskId =>
      some
        { shared := { s with ftClientFt := s.ftClientFt + 1 }
          front := [.write (.bindClientFt taskId s.ftClientFt),
            .eventLoop (.sendWithResult sess (.ftTask taskId s.ftClientFt))] }
  | .poll sess =>
      match choice with
      | .incoming i =>
        match (s.conns sess.con).yield i with
        | none => none
        | some (c, .timeout) =>
          some { shared := s.setConn sess.con c, front := [.eventLoop (.drain sess)] }
        | some (c, .item it) =>
          some
            { shared := (s.setConn sess.con { c with deferred := some it }).recordYield sess.con it
              front := [.eventLoop (.drain sess)] }
        | some (c, .failed e) =>
          some
            { shared := s.setConn sess.con c
              front := [.eventLoop (.guardExit sess (.failed e))] }
        | some (c, .ended) =>
          some
            { shared := s.setConn sess.con c, front := [.eventLoop (.guardExit sess .ended)] }
      | _ => none
  | .drain sess =>
      match choice with
      | .incoming i =>
        match (s.conns sess.con).yield i with
        | none => none
        | some (c, .item it) =>
          some
            { shared := (s.setConn sess.con
                { c with deferredEvents := c.deferredEvents ++ [it] }).recordYield sess.con it
              front := [.eventLoop (.drain sess)] }
        | some (c, .failed e) =>
          some
            { shared := s.setConn sess.con c
              front := [.eventLoop (.guardExit sess (.failed e))] }
        | some (c, p) =>
          some
            { shared := s.setConn sess.con
                { c with
                    handling := c.deferredEvents ++ c.deferred.toList
                    deferredEvents := []
                    deferred := none }
              front := [.eventLoop (.handle sess (p == .ended))] }
      | _ => none
  | .handle sess ended =>
      let c := s.conns sess.con
      match c.handling with
      | [] =>
        some
          { shared := s
            front := if ended then [.eventLoop (.guardExit sess .ended)]
              else [.eventLoop (.top sess)] }
      | it :: rest =>
        some
          { shared := (s.setConn sess.con { c with handling := rest }).recordPassed sess.con it
            front := match it with
              | .fileDownload clientFt (.ok total) =>
                [.eventLoop (.acceptDownload sess ended clientFt total)]
              | it => itemProgram sess.con it ++ [.eventLoop (.handle sess ended)] }
  | .acceptDownload sess ended clientFt total =>
      some
        { shared := s
          front := match s.ftTaskIdByClientId clientFt with
            | none => [.eventLoop (.handle sess ended)]
            | some taskId => [.write (.storeTotal taskId total),
                .eventLoop (.startDownload sess ended taskId total)] }
  | .startDownload sess ended taskId total =>
      if taskId ∈ s.ftTasks then
        some
          { shared := s.maybePublishFtProgress taskId true
            front := [.eventLoop (.handle sess ended)]
            spawn := [⟨.worker taskId, [.task (.downloadStart taskId total)]⟩] }
      -- The task is gone: `unwrap` panics, and the wrapper catches the panic.
      else some { shared := s, front := leaveProgram sess }
  | .disconnect sess way =>
      match choice with
      | .sendFails _ => some { shared := s, front := [.eventLoop (.closeStream sess way)] }
      | _ =>
        some
          { shared := s.setConn sess.con (s.conns sess.con).disconnect
            front := [.eventLoop (.closeStream sess way)] }
  | .closeStream sess way =>
      match choice with
      | .incoming i =>
        match (s.conns sess.con).yield i with
        | none => none
        | some (c, .item it) =>
          some
            { shared := (s.setConn sess.con c).recordYield sess.con it
              front := [.eventLoop (.closeStream sess way)] }
        | some (c, .ended) =>
          some
            { shared := s.setConn sess.con c, front := [.eventLoop (.guardExit sess way)] }
        | some (c, _) =>
          some
            { shared := s.setConn sess.con c, front := [.eventLoop (.closeStream sess way)] }
      | _ => none
  | .guardExit sess way => some { shared := s, front := exitProgram s sess way }

end Nek0.Native
