import Nek0.Native.Machine

/-!
# `Nek0.Proofs.Native.Threads`: what a thread can still have to execute

`Shaped` says for each kind of thread which programs it can have. An event loop begins by taking
its connection. Then its program ends with one of the loop's own statements, and everything before
it is the body of an iteration. Once the loop is past its exit check, only the exit's writes are
left. A connect task that has advanced the generation has a rest of `startProgram` left.

`shaped_of_reachable` shows that every thread of every reachable state is shaped. The proof
goes by the statement at the head of the thread's program. For each kind of statement, one lemma
says what is put in its place.
-/

set_option autoImplicit false

namespace Nek0.Proofs.Native

open Nek0.Lib
open Nek0.Native

/-! ### The statements of each kind of thread -/

/-- The statements of an FFI call. -/
def Calls : Stmt → Prop
  | .write (.setDisconnectRequested b) => b = true
  | .write (.setSwipeDisconnect b) => b = true
  | .write (.dropConnection _) => True
  | .write .endStashed => True
  | .write (.insertTask _ _ _ _ _) => True
  | .write (.pushStarted _) => True
  | .write (.cancelTask _) => True
  | .write .pollEvents => True
  | .write (.push (.ftDone _ _ _ _) none) => True
  | .handler (.finishFtTask _ _ _ none) => True
  | .call _ => True
  | _ => False

/-- The statements of a listing timer. -/
def Finalizes : Stmt → Prop
  | .task (.finalizeFtList _ _) => True
  | .write (.push (.ftListing _ _ _) (some (.listing _ _))) => True
  | _ => False

/-- The statements of the worker of a task. -/
def Works (taskId : TaskId) : Stmt → Prop
  | .task (.downloadStart id _) => id = taskId
  | .task (.downloadCheck id _ _) => id = taskId
  | .task (.downloadRead id _ _) => id = taskId
  | .task (.uploadStart id) => id = taskId
  | .task (.uploadCheck id) => id = taskId
  | .task (.uploadWrite id) => id = taskId
  | .task (.uploadWait id _) => id = taskId
  | .task (.uploadWaitCancel id _) => id = taskId
  | .write (.downloadProgress id _) => id = taskId
  | .write (.uploadProgress id _) => id = taskId
  | .write (.storeDone id _) => id = taskId
  | .write (.push (.ftDone id _ _ _) none) => id = taskId
  | .handler (.finishFtTask id _ _ none) => id = taskId
  | _ => False

/-- An iteration of the event loop of generation `g` goes on with this statement. -/
def Iterates (g : Nat) : Stmt → Prop
  | .eventLoop (.top sess) => sess.generation = g
  | .eventLoop (.checkDisconnect sess) => sess.generation = g
  | .eventLoop (.receive sess) => sess.generation = g
  | .eventLoop (.poll sess) => sess.generation = g
  | .eventLoop (.drain sess) => sess.generation = g
  | .eventLoop (.handle sess _) => sess.generation = g
  | .eventLoop (.acceptDownload sess _ _ _) => sess.generation = g
  | .eventLoop (.startDownload sess _ _ _) => sess.generation = g
  | .eventLoop (.disconnect sess _) => sess.generation = g
  | .eventLoop (.closeStream sess _) => sess.generation = g
  | .eventLoop (.guardExit sess _) => sess.generation = g
  | _ => False

/-- The body of an iteration of the event loop of generation `g`. -/
def Body (g : Nat) : Stmt → Prop
  | .eventLoop (.ownClient sess _) => sess.generation = g
  | .eventLoop (.sendWithResult sess _) => sess.generation = g
  | .eventLoop (.nextClientFt sess _) => sess.generation = g
  | .handler _ => True
  | .write (.push (.disconnected _) _) => False
  | .write (.push _ _) => True
  | .write (.setDisconnectRequested b) => b = true
  | .write (.setSwipeDisconnect b) => b = false
  | .write (.setEventLoopAlive b) => b = true
  | .write .clearFtLists => True
  | .write (.refreshFromBook _) => True
  | .write (.armPendingMove _) => True
  | .write (.insertPermOp _ _ _) => True
  | .write (.insertFtOp _ _ _) => True
  | .write (.insertFtTaskByRc _ _ _) => True
  | .write (.insertFtList _ _ _ _ _) => True
  | .write (.addListRows _ _ _) => True
  | .write (.bindClientFt _ _) => True
  | .write (.storeTotal _ _) => True
  | _ => False

/-- The writes with which the event loop of generation `g` leaves. -/
def Leaves (g : Nat) : Stmt → Prop
  | .write (.push (.disconnected _) none) => True
  | .write (.push (.error _) none) => True
  | .write (.setConnected b) => b = false
  | .write (.setDisconnectRequested b) => b = false
  | .write (.setEventLoopAlive b) => b = false
  | .write .clearFtLists => True
  | .write .clearFtOps => True
  | .write .clearPermOps => True
  | .write .dropCommandTx => True
  | .write (.endSession _) => True
  | .write (.dropReceiver generation) => generation = g
  | .write (.dropConnection _) => True
  | _ => False

/-- The rest of an iteration of the event loop of generation `g`. -/
inductive Iteration (g : Nat) : List Stmt → Prop
  | last {st : Stmt} : Iterates g st → Iteration g [st]
  | body {st : Stmt} {prog : List Stmt} :
      Body g st → Iteration g prog → Iteration g (st :: prog)

/-- The programs of a connect task before it has advanced the generation. -/
inductive Connecting : List Stmt → Prop
  | done : Connecting []
  | handshake {attempt : Nat} : Connecting [.task (.handshake attempt)]
  | announce {attempt : Nat} {message : String} :
      Connecting [.write (.push (.error message) none), .task (.handshake attempt)]
  | advance {attempt : Nat} {serverName : String} :
      Connecting [.task (.advanceGeneration attempt serverName)]
  | fail {message : String} : Connecting [.write (.failConnect message)]

/-- What a connect task does once it has advanced the generation to `g`. -/
def startProgram (g attempt : Nat) (serverName : String) (book : Book) : List Stmt :=
  [.write (.installCommandTx g), .write (.publish serverName book),
    .write (.stashConnection attempt), .task (.spawnEventLoop g)]

/-- A connect task that has advanced the generation to `g`. -/
def Starting (g : Nat) (prog : List Stmt) : Prop :=
  ∃ attempt serverName book, prog <:+ startProgram g attempt serverName book

/-- The programs of a thread. -/
def Shaped (t : NativeThread) : Prop :=
  match t.owner with
  | .call => ∀ st ∈ t.prog, Calls st
  | .connect _ => Connecting t.prog ∨ ∃ g, Starting g t.prog
  | .eventLoop g =>
      t.prog = [.eventLoop (.takeStash g)] ∨ Iteration g t.prog ∨ ∀ st ∈ t.prog, Leaves g st
  | .listTimer => ∀ st ∈ t.prog, Finalizes st
  | .worker taskId => ∀ st ∈ t.prog, Works taskId st

/-! ### Iterations -/

/-- A statement of an iteration is the last one, or it belongs to the body. -/
theorem Iteration.cons {g : Nat} {st : Stmt} {rest : List Stmt} (h : Iteration g (st :: rest)) :
    (Iterates g st ∧ rest = []) ∨ (Body g st ∧ Iteration g rest) := by
  cases h with
  | last hst => exact .inl ⟨hst, rfl⟩
  | body hst hrest => exact .inr ⟨hst, hrest⟩

/-- More of the body can be put in front of an iteration. -/
theorem Iteration.append {g : Nat} {front rest : List Stmt} (hfront : ∀ st ∈ front, Body g st)
    (hrest : Iteration g rest) : Iteration g (front ++ rest) := by
  induction front with
  | nil => exact hrest
  | cons st front ih =>
      refine .body (hfront st List.mem_cons_self) (ih ?_)
      intro k hk
      exact hfront k (.tail _ hk)

/-- The last statement of an iteration. -/
theorem Iteration.exists_iterates {g : Nat} {prog : List Stmt} (h : Iteration g prog) :
    ∃ st ∈ prog, Iterates g st := by
  induction h with
  | last hst => exact ⟨_, List.mem_cons_self, hst⟩
  | body _ _ ih =>
      obtain ⟨k, hk, hit⟩ := ih
      exact ⟨k, .tail _ hk, hit⟩

/-! ### What a statement puts in its place -/

/-- Handling a stream item is part of a body. -/
theorem body_of_itemProgram (g con : Nat) (it : StreamItem) :
    ∀ st ∈ itemProgram con it, Body g st := by
  intro st hst
  cases it with
  | bookEvents events =>
      simp only [itemProgram, List.mem_map] at hst
      obtain ⟨e, _, rfl⟩ := hst
      cases e with
      | message target _ _ _ => cases target <;> simp [bookEventWrite, messageEvent, Body]
      | other => simp [bookEventWrite, Body]
  | commandError flags =>
      simp only [itemProgram, List.mem_map] at hst
      obtain ⟨_, _, rfl⟩ := hst
      trivial
  | fileDownload clientFt stream => cases stream <;> simp_all [itemProgram, Body]
  | fileUpload clientFt stream => cases stream <;> simp_all [itemProgram, Body]
  | messageResult code res sid =>
      simp only [itemProgram, List.mem_cons, List.not_mem_nil, or_false] at hst
      rcases hst with rfl | rfl | rfl | rfl <;> trivial
  | disconnectedTemporarily reason =>
      simp only [itemProgram, List.mem_cons, List.not_mem_nil, or_false] at hst
      rcases hst with rfl | rfl | rfl <;> trivial
  | _ => simp_all [itemProgram, Body]

/-- A handler statement leads to more of the body. -/
theorem body_of_handler (g : Nat) (s : Shared) (h : HandlerStmt) :
    ∀ st ∈ (h.exec s).front, Body g st := by
  intro st hst
  cases h <;> simp only [HandlerStmt.exec] at hst
  case takeFtTask code res sid =>
    split at hst
    · simp at hst
    · cases res <;> simp_all [Body]
  case markListFinished =>
    simp only [List.mem_map] at hst
    obtain ⟨_, _, rfl⟩ := hst
    trivial
  case drainPermOps =>
    simp only [List.mem_map] at hst
    obtain ⟨_, _, rfl⟩ := hst
    trivial
  all_goals
    repeat' split at hst
    all_goals simp_all [Body]

/-- A handler statement starts timers and workers only. -/
theorem shaped_of_handler (s : Shared) (h : HandlerStmt) :
    ∀ t ∈ (h.exec s).spawn, Shaped t := by
  intro t ht
  cases h <;> simp only [HandlerStmt.exec] at ht
  case scheduleFtListFinish code =>
    repeat' split at ht
    all_goals simp_all [Shaped, Finalizes]
  case startUpload taskId =>
    split at ht <;> simp_all [Shaped, Works]
  all_goals
    repeat' split at ht
    all_goals simp at ht

/-- A refusal is a body statement. -/
theorem body_of_refuse (g : Nat) (token : Option String) (message : String) :
    ∀ st ∈ refuse token message, Body g st := by
  intro st hst
  cases token <;> simp_all [refuse, Body]

/-- A command is more of the body. -/
theorem body_of_command (sess : Session) (c : Command) :
    ∀ st ∈ commandProgram sess c, Body sess.generation st := by
  intro st hst
  cases c <;> simp_all [commandProgram, Body]

/-- A command that looked at the own client id is more of the body. -/
theorem body_of_ownClient (sess : Session) (own : UInt32) (c : Command) :
    ∀ st ∈ ownClientProgram sess own c, Body sess.generation st := by
  intro st hst
  cases c <;> simp only [ownClientProgram, List.not_mem_nil] at hst
  case moveChannel =>
    split at hst
    · simp only [List.mem_cons, List.not_mem_nil, or_false] at hst
      rcases hst with rfl | rfl <;> simp [Body]
    · simp_all [Body]
  all_goals
    repeat' split at hst
    all_goals first
      | exact body_of_refuse _ _ _ st hst
      | simp_all [Body]

/-- What follows a send is more of the body. -/
theorem body_of_sendWithResult (g con : Nat) (s : Shared) (reply : Reply)
    (failure : Option String) :
    ∀ st ∈ (s.sendWithResult con reply failure).front, Body g st := by
  intro st hst
  simp only [Shared.sendWithResult] at hst
  cases reply with
  | permOp token =>
      cases token <;> repeat' split at hst
      all_goals simp_all [Reply.onSent, Reply.onFailed, Body]
  | _ =>
      repeat' split at hst
      all_goals simp_all [Reply.onSent, Reply.onFailed, Body]

/-- A body statement of the event loop leads to more of the body, and starts nothing. -/
theorem body_of_loop {g : Nat} {choice : Choice} {s : Shared} {l : LoopStmt}
    {out : NativeOutcome} (hexec : l.exec choice s = some out) (hbody : Body g (.eventLoop l)) :
    (∀ st ∈ out.front, Body g st) ∧ out.spawn = [] := by
  cases l <;> simp only [Body] at hbody <;> subst hbody
  case ownClient sess c =>
    obtain rfl := Option.some.inj hexec
    exact ⟨body_of_ownClient sess _ c, rfl⟩
  case sendWithResult sess reply =>
    have hspawn : ∀ failure, (s.sendWithResult sess.con reply failure).spawn = [] := by
      intro failure
      simp only [Shared.sendWithResult]
      repeat' split
      all_goals rfl
    simp only [LoopStmt.exec] at hexec
    split at hexec
    all_goals
      obtain rfl := Option.some.inj hexec
      exact ⟨body_of_sendWithResult _ _ s reply _, hspawn _⟩
  case nextClientFt sess taskId =>
    obtain rfl := Option.some.inj hexec
    simp [Body]

/-- The statements after the exit check are writes of the exit. -/
theorem leaves_of_leaveProgram (sess : Session) :
    ∀ st ∈ leaveProgram sess, Leaves sess.generation st := by
  intro st hst
  simp only [leaveProgram, List.mem_cons, List.not_mem_nil, or_false] at hst
  rcases hst with rfl | rfl | rfl <;> simp [Leaves]

/-- The writes of an exit leave the session. -/
theorem leaves_of_exitWay (g : Nat) (way : ExitWay) :
    ∀ st ∈ way.writes.map Stmt.write, Leaves g st := by
  intro st hst
  cases way <;> simp only [ExitWay.writes, List.map_cons, List.map_nil, List.mem_cons,
    List.not_mem_nil, or_false] at hst
  all_goals
    repeat' rcases hst with rfl | hst
    all_goals simp_all [Leaves]

/-- The ways out of the loop: it panics, or it leaves with its exit check. -/
def LoopLeaves (s : Shared) (l : LoopStmt) (front : List Stmt) : Prop :=
  (∃ sess ended taskId total, l = .startDownload sess ended taskId total ∧ taskId ∉ s.ftTasks ∧
    front = leaveProgram sess) ∨
  (∃ sess way, l = .guardExit sess way ∧ front = exitProgram s sess way)

/-- Every statement that ends a program of the event loop leads to an iteration, or out of the
loop. -/
theorem iterates_step {g : Nat} {choice : Choice} {s : Shared} {l : LoopStmt}
    {out : NativeOutcome} (hexec : l.exec choice s = some out)
    (hit : Iterates g (.eventLoop l)) :
    (Iteration g out.front ∨ LoopLeaves s l out.front ∧ out.shared = s) ∧
      ∀ t ∈ out.spawn, Shaped t := by
  cases l <;> simp only [Iterates] at hit <;> subst hit
  -- The loop's own statements, in the order of the source. The exits are the two that leave it.
  case top sess =>
    cases hexec
    refine ⟨.inl ?_, by simp⟩
    dsimp only
    split
    · exact .body rfl (.body rfl (.last rfl))
    · exact .last rfl
  case checkDisconnect sess =>
    dsimp only [LoopStmt.exec] at hexec
    split at hexec <;> cases hexec
    all_goals exact ⟨.inl (.last rfl), by simp⟩
  case receive sess =>
    dsimp only [LoopStmt.exec] at hexec
    split at hexec
    · cases hexec
      exact ⟨.inl (.last rfl), by simp⟩
    · rename_i c rest _
      split at hexec <;> cases hexec
      · exact ⟨.inl (.last rfl), by simp⟩
      · exact ⟨.inl (.append (body_of_command sess c) (.last rfl)), by simp⟩
  case poll sess =>
    dsimp only [LoopStmt.exec] at hexec
    repeat' split at hexec
    all_goals cases hexec
    all_goals exact ⟨.inl (.last rfl), by simp⟩
  case drain sess =>
    dsimp only [LoopStmt.exec] at hexec
    repeat' split at hexec
    all_goals cases hexec
    all_goals exact ⟨.inl (.last rfl), by simp⟩
  case handle sess ended =>
    dsimp only [LoopStmt.exec] at hexec
    split at hexec
    · cases hexec
      refine ⟨.inl ?_, by simp⟩
      dsimp only
      split <;> exact .last rfl
    · cases hexec
      refine ⟨.inl ?_, by simp⟩
      dsimp only
      split
      · exact .last rfl
      · exact .append (body_of_itemProgram _ _ _) (.last rfl)
  case acceptDownload sess ended clientFt total =>
    cases hexec
    refine ⟨.inl ?_, by simp⟩
    dsimp only
    split
    · exact .last rfl
    · exact .body trivial (.last rfl)
  case startDownload sess ended taskId total =>
    dsimp only [LoopStmt.exec] at hexec
    split at hexec <;> cases hexec
    · refine ⟨.inl (.last rfl), ?_⟩
      simp [Shaped, Works]
    · rename_i hgone
      exact ⟨.inr ⟨.inl ⟨_, _, _, _, rfl, hgone, rfl⟩, rfl⟩, by simp⟩
  case disconnect sess way =>
    dsimp only [LoopStmt.exec] at hexec
    split at hexec <;> cases hexec
    all_goals exact ⟨.inl (.last rfl), by simp⟩
  case closeStream sess way =>
    dsimp only [LoopStmt.exec] at hexec
    repeat' split at hexec
    all_goals cases hexec
    all_goals exact ⟨.inl (.last rfl), by simp⟩
  case guardExit sess way =>
    cases hexec
    exact ⟨.inr ⟨.inr ⟨_, _, rfl, rfl⟩, rfl⟩, by simp⟩

/-- So does the whole exit program. -/
theorem leaves_of_exitProgram (s : Shared) (sess : Session) (way : ExitWay) :
    ∀ st ∈ exitProgram s sess way, Leaves sess.generation st := by
  intro st hst
  rcases List.mem_append.mp hst with hw | hl
  · split at hw
    · exact leaves_of_exitWay _ way st hw
    · simp at hw
  · exact leaves_of_leaveProgram sess st hl

/-- Out of the loop, only writes of the exit are left. -/
theorem LoopLeaves.leaves {g : Nat} {s : Shared} {l : LoopStmt} {front : List Stmt}
    (h : LoopLeaves s l front) (hit : Iterates g (.eventLoop l)) : ∀ st ∈ front, Leaves g st := by
  intro st hst
  rcases h with ⟨sess, _, _, _, rfl, _, rfl⟩ | ⟨sess, way, rfl, rfl⟩
  · obtain rfl : sess.generation = g := hit
    exact leaves_of_leaveProgram sess st hst
  · obtain rfl : sess.generation = g := hit
    exact leaves_of_exitProgram s sess way st hst

/-- An event loop begins with its connection, or it ends at once. -/
theorem takeStash_step {g : Nat} (choice : Choice) {s : Shared} {out : NativeOutcome}
    (hexec : (LoopStmt.takeStash g).exec choice s = some out) :
    out.spawn = [] ∧
      ((s.connectionStash = none ∧ out.shared = s ∧ out.front = [.write (.dropReceiver g)]) ∨
        ∃ con, s.connectionStash = some con ∧
          out.shared = { s with connectionStash := none } ∧
          out.front = [.write (.setEventLoopAlive true), .eventLoop (.top ⟨g, con⟩)]) := by
  dsimp only [LoopStmt.exec] at hexec
  split at hexec <;> cases hexec
  · exact ⟨rfl, .inl ⟨by assumption, rfl, rfl⟩⟩
  · exact ⟨rfl, .inr ⟨_, by assumption, rfl, rfl⟩⟩

/-- A call statement leads to statements of a call. -/
theorem calls_of_call (s : Shared) (c : CallStmt) : ∀ st ∈ (c.exec s).front, Calls st := by
  intro st hst
  cases c <;> simp only [CallStmt.exec] at hst
  case ftNewTask t =>
    simp only [List.mem_cons, List.not_mem_nil, or_false] at hst
    rcases hst with rfl | rfl | rfl <;> trivial
  case disconnect =>
    split at hst
    · simp only [List.mem_cons, List.not_mem_nil, or_false] at hst
      rcases hst with rfl | rfl
      · exact rfl
      · trivial
    · obtain rfl := List.mem_singleton.mp hst
      trivial
  case disconnectStashed =>
    split at hst
    · simp at hst
    · simp only [List.mem_cons, List.not_mem_nil, or_false] at hst
      rcases hst with rfl | rfl <;> trivial
  case ftReadyAlive r =>
    split at hst
    · cases r
      all_goals
        obtain rfl := List.mem_singleton.mp hst
        trivial
    · simp at hst
  all_goals
    repeat' split at hst
    all_goals first
      | exact absurd hst List.not_mem_nil
      | obtain rfl := List.mem_singleton.mp hst
        trivial

/-- A call statement starts connect tasks only. -/
theorem shaped_of_call (s : Shared) (c : CallStmt) : ∀ t ∈ (c.exec s).spawn, Shaped t := by
  intro t ht
  cases c <;> simp only [CallStmt.exec] at ht
  case connect =>
    split at ht
    · simp at ht
    · obtain rfl := List.mem_singleton.mp ht
      exact .inl .handshake
  all_goals
    repeat' split at ht
    all_goals simp at ht

/-- The statements of a call. -/
theorem calls_of_program (c : Call) : ∀ st ∈ c.program, Calls st := by
  intro st hst
  cases c <;> simp only [Call.program] at hst
  case swipeDisconnect =>
    simp only [List.mem_cons, List.not_mem_nil, or_false] at hst
    rcases hst with rfl | rfl | rfl | rfl
    · exact rfl
    · exact rfl
    · trivial
    · trivial
  all_goals
    repeat' split at hst
    all_goals first
      | exact absurd hst List.not_mem_nil
      | obtain rfl := List.mem_singleton.mp hst
        trivial

/-- A worker's statement leads to statements of the worker, and starts nothing. -/
theorem works_of_task {taskId : TaskId} {choice : Choice} {s : Shared} {t : TaskStmt}
    {out : NativeOutcome} (hexec : t.exec choice s = some out) (hworks : Works taskId (.task t)) :
    (∀ st ∈ out.front, Works taskId st) ∧ out.spawn = [] := by
  cases t <;> simp only [Works] at hworks <;> subst hworks
  all_goals simp only [TaskStmt.exec] at hexec
  all_goals
    repeat' split at hexec
    all_goals cases hexec
    all_goals
      refine ⟨?_, rfl⟩
      intro st hst
      simp only [finishProgram] at hst
      all_goals
        simp only [List.mem_cons, List.not_mem_nil, or_false] at hst
        repeat' rcases hst with rfl | hst
        all_goals simp_all [Works]

/-- A listing timer's statement leads to the push of the listing, and starts nothing. -/
theorem finalizes_of_task {choice : Choice} {s : Shared} {t : TaskStmt} {out : NativeOutcome}
    (hexec : t.exec choice s = some out) (hfin : Finalizes (.task t)) :
    (∀ st ∈ out.front, Finalizes st) ∧ out.spawn = [] := by
  cases t <;> simp only [Finalizes] at hfin
  case finalizeFtList code timer =>
    simp only [TaskStmt.exec] at hexec
    split at hexec <;> obtain rfl := Option.some.inj hexec
    all_goals simp [Finalizes, PendingFtList.event]

/-- A connect task before the advance goes on before it, or it advances the generation. -/
theorem connecting_step {choice : Choice} {s : Shared} {st : Stmt} {rest : List Stmt}
    {out : NativeOutcome} (hexec : st.exec choice s = some out)
    (hcon : Connecting (st :: rest)) :
    out.spawn = [] ∧ (Connecting (out.front ++ rest) ∨
      ∃ attempt serverName, st = .task (.advanceGeneration attempt serverName) ∧
        out.front ++ rest = startProgram (s.connectionGeneration + 1) attempt serverName
          (s.conns attempt).book) := by
  cases hcon with
  | handshake =>
      simp only [Stmt.exec, TaskStmt.exec] at hexec
      split at hexec
      · cases hexec
        exact ⟨rfl, .inl .announce⟩
      · cases hexec
        exact ⟨rfl, .inl .fail⟩
      · cases hexec
        exact ⟨rfl, .inl .advance⟩
      · cases hexec
  | announce =>
      cases hexec
      exact ⟨rfl, .inl .handshake⟩
  | advance =>
      cases hexec
      exact ⟨rfl, .inr ⟨_, _, rfl, rfl⟩⟩
  | fail =>
      cases hexec
      exact ⟨rfl, .inl .done⟩

/-- A connect task after the advance goes on with what is left of `startProgram`. Its last
statement starts the event loop. -/
theorem starting_step {g : Nat} {choice : Choice} {s : Shared} {st : Stmt} {rest : List Stmt}
    {out : NativeOutcome} (hexec : st.exec choice s = some out)
    (hstart : Starting g (st :: rest)) :
    out.front = [] ∧ Starting g rest ∧
      (out.spawn = [] ∨
        (st = .task (.spawnEventLoop g) ∧ rest = [] ∧
          out.spawn = [⟨.eventLoop g, [.eventLoop (.takeStash g)]⟩])) := by
  obtain ⟨a, serverName, book, hsuffix⟩ := hstart
  have hrest : rest <:+ startProgram g a serverName book :=
    (List.suffix_cons st rest).trans hsuffix
  refine ⟨?_, ⟨a, serverName, book, hrest⟩, ?_⟩
  all_goals
    simp only [startProgram, List.suffix_cons_iff, List.cons.injEq, List.suffix_nil] at hsuffix
    rcases hsuffix with ⟨rfl, rfl⟩ | ⟨rfl, rfl⟩ | ⟨rfl, rfl⟩ | ⟨rfl, rfl⟩ | h
    all_goals first
      | cases hexec
        simp
      | simp at h

/-- `finish_ft_task` leads to the push of the `FtDone` event, and starts nothing. -/
theorem finishFtTask_front (s : Shared) (taskId : TaskId) (ok : Bool) (error : Option String)
    (origin : Option Origin) :
    (∀ st ∈ ((HandlerStmt.finishFtTask taskId ok error origin).exec s).front,
      ∃ done, st = .write (.push (.ftDone taskId ok done error) origin)) ∧
    ((HandlerStmt.finishFtTask taskId ok error origin).exec s).spawn = [] := by
  simp only [HandlerStmt.exec]
  split <;> simp

/-- A statement of a call leads to statements of a call. -/
theorem calls_step {choice : Choice} {s : Shared} {st : Stmt} {out : NativeOutcome}
    (hexec : st.exec choice s = some out) (hst : Calls st) :
    (∀ k ∈ out.front, Calls k) ∧ ∀ t ∈ out.spawn, Shaped t := by
  cases st with
  | write w =>
      cases hexec
      simp
  | handler h =>
      cases hexec
      cases h with
      | finishFtTask taskId ok error origin =>
          obtain ⟨hfront, hspawn⟩ := finishFtTask_front s taskId ok error origin
          refine ⟨?_, by simp [hspawn]⟩
          intro k hk
          obtain ⟨done, rfl⟩ := hfront k hk
          cases origin with
          | none => trivial
          | some o => exact hst.elim
      | _ => exact hst.elim
  | eventLoop l => exact hst.elim
  | call c =>
      cases hexec
      exact ⟨calls_of_call s c, shaped_of_call s c⟩
  | task t => exact hst.elim

/-- A statement of a worker leads to statements of the worker, and starts nothing. -/
theorem works_step {taskId : TaskId} {choice : Choice} {s : Shared} {st : Stmt}
    {out : NativeOutcome} (hexec : st.exec choice s = some out) (hst : Works taskId st) :
    (∀ k ∈ out.front, Works taskId k) ∧ out.spawn = [] := by
  cases st with
  | write w =>
      cases hexec
      simp
  | handler h =>
      cases hexec
      cases h <;> simp only [Works] at hst
      case finishFtTask id ok error origin =>
        obtain ⟨hfront, hspawn⟩ := finishFtTask_front s id ok error origin
        refine ⟨?_, hspawn⟩
        intro k hk
        obtain ⟨done, rfl⟩ := hfront k hk
        cases origin <;> simp_all [Works]
  | eventLoop l => exact hst.elim
  | call c => exact hst.elim
  | task t => exact works_of_task hexec hst

/-- A statement of a listing timer leads to statements of the timer, and starts nothing. -/
theorem finalizes_step {choice : Choice} {s : Shared} {st : Stmt} {out : NativeOutcome}
    (hexec : st.exec choice s = some out) (hst : Finalizes st) :
    (∀ k ∈ out.front, Finalizes k) ∧ out.spawn = [] := by
  cases st with
  | write w =>
      cases hexec
      simp
  | handler h => exact hst.elim
  | eventLoop l => exact hst.elim
  | call c => exact hst.elim
  | task t => exact finalizes_of_task hexec hst

/-- A body statement leads to more of the body. -/
theorem body_step {g : Nat} {choice : Choice} {s : Shared} {st : Stmt} {out : NativeOutcome}
    (hexec : st.exec choice s = some out) (hst : Body g st) :
    (∀ k ∈ out.front, Body g k) ∧ ∀ t ∈ out.spawn, Shaped t := by
  cases st with
  | write w =>
      cases hexec
      simp
  | handler h =>
      cases hexec
      exact ⟨body_of_handler g s h, shaped_of_handler s h⟩
  | eventLoop l =>
      obtain ⟨hfront, hspawn⟩ := body_of_loop hexec hst
      exact ⟨hfront, by simp [hspawn]⟩
  | call c => exact hst.elim
  | task t => exact hst.elim

/-- A write of the exit leads to nothing. -/
theorem leaves_step {g : Nat} {choice : Choice} {s : Shared} {st : Stmt} {out : NativeOutcome}
    (hexec : st.exec choice s = some out) (hst : Leaves g st) :
    ∃ w, st = .write w ∧ out = { shared := w.apply s } := by
  cases st with
  | write w => exact ⟨w, rfl, (Option.some.inj hexec).symm⟩
  | handler h => exact hst.elim
  | eventLoop l => exact hst.elim
  | call c => exact hst.elim
  | task t => exact hst.elim

/-- A step of an event loop's thread. -/
theorem shaped_of_eventLoop {g : Nat} {choice : Choice} {s : Shared} {st : Stmt}
    {rest : List Stmt} {out : NativeOutcome} (hexec : st.exec choice s = some out)
    (hshaped : Shaped ⟨.eventLoop g, st :: rest⟩) :
    Shaped ⟨.eventLoop g, out.front ++ rest⟩ ∧ ∀ t ∈ out.spawn, Shaped t := by
  rcases hshaped with hbegin | hiter | hleave
  · obtain ⟨rfl, rfl⟩ := List.cons.inj hbegin
    rw [List.append_nil]
    obtain ⟨hspawn, ⟨_, _, hfront⟩ | ⟨con, _, _, hfront⟩⟩ := takeStash_step choice hexec
    · refine ⟨.inr (.inr ?_), by simp [hspawn]⟩
      rw [hfront]
      simp [Leaves]
    · refine ⟨.inr (.inl ?_), by simp [hspawn]⟩
      rw [hfront]
      exact .body rfl (.last rfl)
  · rcases hiter.cons with ⟨hst, rfl⟩ | ⟨hst, hrest⟩
    · rw [List.append_nil]
      cases st with
      | eventLoop l =>
          obtain ⟨hself, hspawn⟩ := iterates_step hexec hst
          refine ⟨.inr ?_, hspawn⟩
          rcases hself with hiter | ⟨hleave, _⟩
          · exact .inl hiter
          · exact .inr (hleave.leaves hst)
      | _ => exact hst.elim
    · obtain ⟨hfront, hspawn⟩ := body_step hexec hst
      exact ⟨.inr (.inl (.append hfront hrest)), hspawn⟩
  · obtain ⟨w, rfl, rfl⟩ := leaves_step hexec (hleave st List.mem_cons_self)
    refine ⟨.inr (.inr ?_), by simp⟩
    intro k hk
    exact hleave k (.tail _ hk)

/-- A step of a thread keeps every thread shaped. -/
theorem shaped_step {choice : Choice} {s : Shared} {owner : Owner} {st : Stmt}
    {rest : List Stmt} {out : NativeOutcome} (hexec : st.exec choice s = some out)
    (hshaped : Shaped ⟨owner, st :: rest⟩) :
    Shaped ⟨owner, out.front ++ rest⟩ ∧ ∀ t ∈ out.spawn, Shaped t := by
  cases owner with
  | call =>
      have hall : ∀ k ∈ st :: rest, Calls k := hshaped
      obtain ⟨hst, hrest⟩ := List.forall_mem_cons.mp hall
      obtain ⟨hfront, hspawn⟩ := calls_step hexec hst
      exact ⟨List.forall_mem_append.mpr ⟨hfront, hrest⟩, hspawn⟩
  | connect attempt =>
      rcases hshaped with hcon | ⟨g, hstart⟩
      · obtain ⟨hspawn, hself⟩ := connecting_step hexec hcon
        refine ⟨?_, by simp [hspawn]⟩
        rcases hself with hself | ⟨a, serverName, _, hself⟩
        · exact .inl hself
        · exact .inr ⟨_, a, serverName, _, by rw [hself]⟩
      · obtain ⟨hfront, hself, hspawn⟩ := starting_step hexec hstart
        refine ⟨.inr ⟨g, by rw [hfront]; exact hself⟩, ?_⟩
        rcases hspawn with hspawn | ⟨_, _, hspawn⟩
        · simp [hspawn]
        · rw [hspawn]
          intro t ht
          obtain rfl := List.mem_singleton.mp ht
          exact .inl rfl
  | eventLoop g => exact shaped_of_eventLoop hexec hshaped
  | listTimer =>
      have hall : ∀ k ∈ st :: rest, Finalizes k := hshaped
      obtain ⟨hst, hrest⟩ := List.forall_mem_cons.mp hall
      obtain ⟨hfront, hspawn⟩ := finalizes_step hexec hst
      exact ⟨List.forall_mem_append.mpr ⟨hfront, hrest⟩, by simp [hspawn]⟩
  | worker taskId =>
      have hall : ∀ k ∈ st :: rest, Works taskId k := hshaped
      obtain ⟨hst, hrest⟩ := List.forall_mem_cons.mp hall
      obtain ⟨hfront, hspawn⟩ := works_step hexec hst
      exact ⟨List.forall_mem_append.mpr ⟨hfront, hrest⟩, by simp [hspawn]⟩

/-- The statement that ends an iteration is the last one of its thread. -/
theorem rest_of_iterates {g : Nat} {owner : Owner} {st : Stmt} {rest : List Stmt}
    (h : Shaped ⟨owner, st :: rest⟩) (hst : Iterates g st) : rest = [] := by
  cases st with
  | eventLoop l =>
      cases owner with
      | call => exact (h _ List.mem_cons_self).elim
      | connect attempt =>
          rcases h with hcon | ⟨g', _, _, _, hsuffix⟩
          · cases hcon
          · simp [startProgram, List.suffix_cons_iff] at hsuffix
      | eventLoop g' =>
          rcases h with hbegin | hiter | hleave
          · exact (List.cons.inj hbegin).2
          · rcases hiter.cons with ⟨_, hnil⟩ | ⟨hbody, _⟩
            · exact hnil
            · cases l <;> first | exact hst.elim | exact hbody.elim
          · exact (hleave _ List.mem_cons_self).elim
      | listTimer => exact (h _ List.mem_cons_self).elim
      | worker taskId => exact (h _ List.mem_cons_self).elim
  | _ => exact hst.elim

/-- The statements of a connect task. -/
def Connects : Stmt → Prop
  | .write (.push (.error _) none) => True
  | .write (.failConnect _) => True
  | .write (.installCommandTx _) => True
  | .write (.publish _ _) => True
  | .write (.stashConnection _) => True
  | .task (.handshake _) => True
  | .task (.advanceGeneration _ _) => True
  | .task (.spawnEventLoop _) => True
  | _ => False

/-- The statements of a thread. -/
def Executes (st : Stmt) : Owner → Prop
  | .call => Calls st
  | .connect _ => Connects st
  | .eventLoop g => st = .eventLoop (.takeStash g) ∨ Iterates g st ∨ Body g st ∨ Leaves g st
  | .listTimer => Finalizes st
  | .worker taskId => Works taskId st

/-- The statements of an iteration. -/
theorem Iteration.mem {g : Nat} {prog : List Stmt} (h : Iteration g prog) {st : Stmt}
    (hst : st ∈ prog) : Iterates g st ∨ Body g st := by
  induction h with
  | last hlast =>
      rw [List.mem_singleton.mp hst]
      exact .inl hlast
  | body hbody _ ih =>
      rcases List.mem_cons.mp hst with rfl | hrest
      · exact .inr hbody
      · exact ih hrest

/-- A shaped thread has statements of its kind only. -/
theorem executes_of_shaped {t : NativeThread} (h : Shaped t) {st : Stmt} (hst : st ∈ t.prog) :
    Executes st t.owner := by
  obtain ⟨owner, prog⟩ := t
  cases owner with
  | call => exact h st hst
  | listTimer => exact h st hst
  | worker taskId => exact h st hst
  | connect attempt =>
      rcases h with hcon | ⟨g, _, _, _, hsuffix⟩
      · cases hcon <;> simp only [List.mem_cons, List.not_mem_nil, or_false] at hst
        all_goals rcases hst with rfl | rfl <;> trivial
      · have hstart := hsuffix.subset hst
        simp only [startProgram, List.mem_cons, List.not_mem_nil, or_false] at hstart
        rcases hstart with rfl | rfl | rfl | rfl <;> trivial
  | eventLoop g =>
      rcases h with hbegin | hiter | hleave
      · rw [show prog = _ from hbegin] at hst
        exact .inl (List.mem_singleton.mp hst)
      · exact .inr ((hiter.mem hst).imp_right .inl)
      · exact .inr (.inr (.inr (hleave st hst)))

/-- What a statement starts: nothing, a connect task, an event loop, a listing timer or a transfer
worker. -/
theorem spawn_cases {choice : Choice} {s : Shared} {st : Stmt} {out : NativeOutcome}
    (hexec : st.exec choice s = some out) :
    out.spawn = [] ∨
    (st = .call .connect ∧ out.shared = s.acceptConnect ∧
      out.spawn = [⟨.connect (s.history.attempts + 1),
        [.task (.handshake (s.history.attempts + 1))]⟩]) ∨
    (∃ g, st = .task (.spawnEventLoop g) ∧
      out.spawn = [⟨.eventLoop g, [.eventLoop (.takeStash g)]⟩]) ∨
    (∃ code sid, out.spawn = [⟨.listTimer, [.task (.finalizeFtList code sid)]⟩]) ∨
    (∃ sess ended taskId total, st = .eventLoop (.startDownload sess ended taskId total) ∧
      out.spawn = [⟨.worker taskId, [.task (.downloadStart taskId total)]⟩]) ∨
    ∃ taskId, st = .handler (.startUpload taskId) ∧
      out.spawn = [⟨.worker taskId, [.task (.uploadStart taskId)]⟩] := by
  cases st with
  | write w =>
      cases hexec
      exact .inl rfl
  | handler h =>
      cases hexec
      cases h <;> dsimp only [HandlerStmt.exec]
      all_goals repeat' split
      all_goals simp
  | eventLoop l =>
      cases l <;> dsimp only [Stmt.exec, LoopStmt.exec, Shared.sendWithResult] at hexec
      all_goals repeat' split at hexec
      all_goals cases hexec
      all_goals simp
  | call c =>
      cases hexec
      cases c <;> dsimp only [CallStmt.exec]
      all_goals repeat' split
      all_goals simp
  | task t =>
      cases t <;> dsimp only [Stmt.exec, TaskStmt.exec] at hexec
      all_goals repeat' split at hexec
      all_goals cases hexec
      all_goals simp

/-- What the outside does: a call comes in, time passes, or a link is lost. -/
theorem happening_cases {s s' : Shared} {event : Happening} {spawn : List NativeThread}
    (h : event.exec s = some (s', spawn)) :
    (∃ c, event = .call c ∧ s' = s.noteRequest c ∧ spawn = [⟨.call, c.program⟩]) ∨
    (∃ milliseconds, event = .tick milliseconds ∧ s' = { s with now := s.now + milliseconds } ∧
      spawn = []) ∨
    (∃ con, event = .linkLost con ∧ (s.conns con).link = .connected ∧
      s' = s.setConn con { s.conns con with link := .lost } ∧ spawn = []) := by
  cases event with
  | call c =>
      obtain ⟨rfl, rfl⟩ := Prod.mk.inj (Option.some.inj h)
      exact .inl ⟨c, rfl, rfl, rfl⟩
  | tick milliseconds =>
      obtain ⟨rfl, rfl⟩ := Prod.mk.inj (Option.some.inj h)
      exact .inr (.inl ⟨milliseconds, rfl, rfl, rfl⟩)
  | linkLost con =>
      simp only [Happening.exec] at h
      split at h
      · rename_i hlink
        obtain ⟨rfl, rfl⟩ := Prod.mk.inj (Option.some.inj h)
        exact .inr (.inr ⟨con, rfl, hlink, rfl, rfl⟩)
      · cases h

/-- Every thread of a run is shaped. -/
theorem shaped_of_run {ok : Machine → NativeLabel → Prop} {P : Machine}
    (hrun : native.Run ok P) : ∀ t ∈ P.threads, Shaped t := by
  suffices h : Pool.Keeps (fun _ => True) (fun _ => Shaped) P from h.threads
  refine hrun.invariant (P := Pool.Keeps (fun _ => True) fun _ => Shaped) ?_ ?_
  · rintro P ⟨_, hthreads⟩
    exact ⟨trivial, by simp [hthreads]⟩
  · intro P P' label hkeeps _ hnext
    cases label with
    | run i choice =>
        refine Pool.keeps_run hnext hkeeps ?_
        intro th st rest out hth hprog hexec
        have hshaped : Shaped ⟨th.owner, st :: rest⟩ :=
          hprog ▸ hkeeps.threads th (List.mem_of_getElem? hth)
        obtain ⟨hself, hspawn⟩ := shaped_step hexec hshaped
        exact ⟨trivial, fun _ _ h => h, hself, hspawn⟩
    | env event =>
        refine Pool.keeps_env hnext hkeeps ?_
        intro s spawn henv
        refine ⟨trivial, fun _ _ h => h, ?_⟩
        intro t ht
        rcases happening_cases henv with ⟨c, _, _, rfl⟩ | ⟨_, _, _, rfl⟩ | ⟨_, _, _, _, rfl⟩
        · obtain rfl := List.mem_singleton.mp ht
          exact calls_of_program c
        · simp at ht
        · simp at ht

/-- The statement that ends an iteration is the last one of a thread in a run. -/
theorem rest_eq_nil {ok : Machine → NativeLabel → Prop} {P : Machine} (hrun : native.Run ok P)
    {th : NativeThread} {st : Stmt} {rest : List Stmt} {g : Nat} (hth : th ∈ P.threads)
    (hprog : th.prog = st :: rest) (hst : Iterates g st) : rest = [] := by
  have hshaped := shaped_of_run hrun th hth
  have hth' : th = ⟨th.owner, st :: rest⟩ := by rw [← hprog]
  rw [hth'] at hshaped
  exact rest_of_iterates hshaped hst

end Nek0.Proofs.Native
