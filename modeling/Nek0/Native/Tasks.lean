import Nek0.Native.EventLoop

/-!
# `Nek0.Native.Tasks`: the connect tasks, the listing timers and the transfer workers

`do_connect` runs the handshake, advances the generation, installs the command channel, publishes
the session, stashes the connection and starts the event loop. A listing timer finalizes the
listing that is then stored under its return code. A transfer worker moves the bytes and finishes
its task.
-/

set_option autoImplicit false

namespace Nek0.Native

/-- The text of an incomplete download. -/
def incompleteText (received total : UInt64) : String :=
  "incomplete transfer (" ++ toString received ++ "/" ++ toString total ++ " bytes)"

/-- The statements with which a worker ends its task. -/
def finishProgram (taskId : TaskId) (ok : Bool) (error : Option String) : List Stmt :=
  [.handler (.finishFtTask taskId ok error none)]

/-- What a task statement does. -/
def TaskStmt.exec (choice : Choice) (s : Shared) : TaskStmt → Option NativeOutcome
  | .handshake attempt =>
      match choice with
      -- A higher identity level is being computed.
      | .handshake (.identityLevel text) =>
        some
          { shared := s
            front := [.write (.push (.error ("Identity level " ++ text ++ "...")) none),
              .task (.handshake attempt)] }
      -- The attempt fails before there is a session.
      | .handshake (.failed message) =>
        some { shared := s, front := [.write (.failConnect message)] }
      -- The handshake is over, and the session is published.
      | .handshake (.ready serverName book) =>
        some
          { shared := s.setConn attempt (.fresh book)
            front := [.task (.advanceGeneration attempt serverName)] }
      | _ => none
  | .advanceGeneration attempt serverName =>
      let generation := s.connectionGeneration + 1
      some
        { shared :=
            { s with connectionGeneration := generation }.setQueue generation
              { commands := [], receiving := true, attempt := attempt }
          front := [.write (.installCommandTx generation),
            .write (.publish serverName (s.conns attempt).book),
            .write (.stashConnection attempt), .task (.spawnEventLoop generation)] }
  | .spawnEventLoop generation =>
      some
        { shared := s
          spawn := [⟨.eventLoop generation, [.eventLoop (.takeStash generation)]⟩] }
  | .finalizeFtList code timer =>
      match s.ftLists.lookup code with
      -- The listing is gone, since its session has ended.
      | none => some { shared := s }
      | some p =>
        some
          { shared := { s with ftLists := s.ftLists.erase code }
            front := [.write (.push p.event (some (.listing p timer)))] }
  | .downloadStart taskId total =>
      some
        { shared := s
          front := if taskId ∈ s.ftTasks then [.task (.downloadCheck taskId total 0)] else [] }
  | .downloadCheck taskId total received =>
      some
        -- The flag is looked at before every read.
        { shared := s
          front := if s.cancelFlags taskId then finishProgram taskId false (some "canceled")
            else [.task (.downloadRead taskId total received)] }
  | .downloadRead taskId total received =>
      match choice with
      | .chunk (.data n) =>
        some
          { shared := s
            front := [.write (.downloadProgress taskId (received + .ofNat n)),
              .task (.downloadCheck taskId total (received + .ofNat n))] }
      | .chunk .eof =>
        some
          { shared := s
            -- The stream ended before the announced length.
            front := if 0 < total ∧ received < total then
                finishProgram taskId false (some (incompleteText received total))
              else .write (.storeDone taskId received) :: finishProgram taskId true none }
      | .chunk (.failed message) =>
        some { shared := s, front := finishProgram taskId false (some message) }
      | _ => none
  | .uploadStart taskId =>
      some
        { shared := s
          front := if taskId ∈ s.ftTasks then [.task (.uploadCheck taskId)] else [] }
  | .uploadCheck taskId =>
      some
        { shared := s
          front := if s.cancelFlags taskId then finishProgram taskId false (some "canceled")
            else [.task (.uploadWrite taskId)] }
  | .uploadWrite taskId =>
      match choice with
      | .chunk (.data n) =>
        some
          { shared := s
            front := [.write (.uploadProgress taskId (.ofNat n)), .task (.uploadCheck taskId)] }
      | .chunk .eof => some { shared := s, front := [.task (.uploadWait taskId 32)] }
      | .chunk (.failed message) =>
        some { shared := s, front := finishProgram taskId false (some message) }
      | _ => none
  | .uploadWait taskId rounds =>
      -- The server has had 32 rounds to send its status.
      match rounds with
      | 0 => some { shared := s, front := finishProgram taskId true none }
      | rounds + 1 =>
        some
          { shared := s
            front := if taskId ∈ s.ftTasks then [.task (.uploadWaitCancel taskId rounds)]
              else [] }
  | .uploadWaitCancel taskId rounds =>
      some
        { shared := s
          front := if s.cancelFlags taskId then finishProgram taskId false (some "canceled")
            else [.task (.uploadWait taskId rounds)] }

end Nek0.Native
