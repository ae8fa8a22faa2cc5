import Nek0.Native.Types

/-!
# `Nek0.Native.Tsclientlib`: the connection as the library gives it

The part of the vendored `tsclientlib` that the event loop relies on. A `Conn` counts the return
codes of its current link from 0, remembers which commands the server still has to answer, and
yields stream items. `yield` says what an item does to the connection, and when the connection
can yield it:

* an answer belongs to a command sent on the current link, and a command has at most one;
* the rows and the finished marker of a directory listing belong to a listing sent on the current
  link, and no row follows the marker;
* a transfer is accepted at most once;
* after a lost link nothing sent on it is answered any more, and a new link starts with return
  code 0.

`disconnect` says goodbye on a link that is up. From then on the stream ends where it would
otherwise report a timeout. Without a link it does nothing, and the stream goes on to reconnect.

Each command sent with a return code has a number of its own, its `SendId`. Answers carry the
number of the command they answer. The code never sees these numbers: they say which command an
event is about.
-/

set_option autoImplicit false

namespace Nek0.Native

/-- The number of one sent command, for the specification only. -/
abbrev SendId := Nat

/-- The parts of the book that `refresh_from_book` and the self checks read. -/
structure Book where
  ownClient : UInt16
  channels : List TsChannel
  clients : List TsClient
  deriving DecidableEq, Repr

/-- `tsclientlib::MessageTarget`, as far as the routing of a text message looks at it. -/
inductive MessageTarget where
  | server
  | channel
  | client
  | poke
  deriving DecidableEq, Repr

/-- `tsclientlib::events::Event`: a message, or anything else. -/
inductive BookEvent where
  | message (target : MessageTarget) (invoker : String) (invokerId : UInt16) (message : String)
  | other
  deriving DecidableEq, Repr

/-- What a `FiletransferFailed` item carries: a transfer status, or a TCP error. -/
inductive TransferStatus where
  | status (error : TsError) (isOk : Bool)
  | failure (message : String)
  deriving DecidableEq, Repr

/-- `StreamItem`, without `Audio`. `sid` is the command that the item is about. A bare error
message says for each of its entries whether it is an invalid channel password. -/
inductive StreamItem where
  | bookEvents (events : List BookEvent)
  | fileList (code : ReturnCode) (rows : List TsFtEntry) (sid : SendId)
  | fileListFinished (cid : UInt64) (path : String) (sid : SendId)
  | textMessage (invoker : String) (invokerId : UInt16) (targetMode : UInt8) (message : String)
  | commandError (invalidPassword : List Bool)
  | messageResult (handle : ReturnCode) (res : Except TsError Unit) (sid : SendId)
  | fileDownload (clientFt : UInt16) (stream : Except String UInt64)
  | fileUpload (clientFt : UInt16) (stream : Except String Unit)
  | filetransferFailed (clientFt : UInt16) (status : TransferStatus)
  | disconnectedTemporarily (reason : String)
  | other
  deriving DecidableEq, Repr

/-- `ConnectionState`. `lost` is `Connecting` while the notice of the loss is still queued, and
`closing` is `Connected` once the disconnect packet is sent. -/
inductive LinkState where
  | connected
  | closing
  | lost
  | connecting
  deriving DecidableEq, Repr

/-- A directory listing that the server may still stream rows for. -/
structure OpenListing where
  sid : SendId
  code : ReturnCode
  cid : UInt64
  path : String
  deriving DecidableEq, Repr

/-- `tsclientlib::Connection`. The last three fields are the event loop's own: the first item of
an iteration, the items drained after it, and the items whose handling has begun. -/
structure Conn where
  link : LinkState
  curReturnCode : ReturnCode
  book : Book
  unanswered : List (ReturnCode × SendId)
  listings : List OpenListing
  transfers : List UInt16
  deferred : Option StreamItem
  deferredEvents : List StreamItem
  handling : List StreamItem
  deriving DecidableEq, Repr

/-- What the connection can yield next. -/
inductive Incoming where
  | timeout
  | answer (code : ReturnCode) (sid : SendId) (res : Except TsError Unit)
  | rows (sid : SendId) (rows : List TsFtEntry)
  | finished (sid : SendId)
  | book (book : Book) (events : List BookEvent)
  | reconnected (book : Book)
  | accepted (clientFt : UInt16) (size : Option UInt64) (streamError : Option String)
  | transferFailed (clientFt : UInt16) (status : TransferStatus)
  | textMessage (invoker : String) (invokerId : UInt16) (targetMode : UInt8) (message : String)
  | commandError (invalidPassword : List Bool)
  | other
  | lost (reason : String)
  | failed (message : String)
  | ended
  deriving DecidableEq, Repr

/-- The result of polling the stream. -/
inductive Polled where
  | timeout
  | item (it : StreamItem)
  | failed (message : String)
  | ended
  deriving DecidableEq, Repr

namespace Conn

/-- A connection right after the handshake. -/
def fresh (book : Book) : Conn where
  link := .connected
  curReturnCode := 0
  book := book
  unanswered := []
  listings := []
  transfers := []
  deferred := none
  deferredEvents := []
  handling := []

/-- `Error::NotConnected`. -/
def notConnected : String := "Currently not connected"

/-- `Error::SendPacket`. -/
def sendPacketError (e : String) : String := "Failed to send packet: " ++ e

/-- The link is gone: nothing that was sent on it is answered any more. -/
def drop (c : Conn) : Conn :=
  { c with link := .connecting, unanswered := [], listings := [], transfers := [] }

/-- `Connection::disconnect`. -/
def disconnect (c : Conn) : Conn :=
  if c.link = .connected then { c with link := .closing } else c

/-- What polling the stream does and gives, if the connection can yield this. -/
def yield (c : Conn) : Incoming → Option (Conn × Polled)
  | .timeout => some (c, .timeout)
  | .answer code sid res =>
      -- Each sent command is answered once, by its return code.
      if c.link ≠ .connecting ∧ (code, sid) ∈ c.unanswered then
        some ({ c with unanswered := c.unanswered.erase (code, sid) },
          .item (.messageResult code res sid))
      else none
  | .rows sid rows =>
      -- Rows of a listing that this connection asked for.
      match c.listings.find? fun l => l.sid == sid with
      | none => none
      | some l => some (c, .item (.fileList l.code rows sid))
  | .finished sid =>
      match c.listings.find? fun l => l.sid == sid with
      | none => none
      | some l =>
        some ({ c with listings := c.listings.filter fun l => l.sid != sid },
          .item (.fileListFinished l.cid l.path sid))
  | .book book events =>
      if c.link = .connected ∨ c.link = .closing then
        some ({ c with book := book }, .item (.bookEvents events))
      else none
  -- A new link starts with return codes from 0.
  | .reconnected book =>
      if c.link = .connecting then
        some ({ c with link := .connected, curReturnCode := 0, book := book },
          .item (.bookEvents [.other]))
      else none
  | .accepted clientFt size streamError =>
      -- A transfer is accepted once.
      if clientFt ∈ c.transfers then
        some ({ c with transfers := c.transfers.erase clientFt },
          match size, streamError with
          | some size, none => .item (.fileDownload clientFt (.ok size))
          | some _, some e => .item (.fileDownload clientFt (.error e))
          | none, none => .item (.fileUpload clientFt (.ok ()))
          | none, some e => .item (.fileUpload clientFt (.error e)))
      else none
  | .transferFailed clientFt status => some (c, .item (.filetransferFailed clientFt status))
  | .textMessage invoker invokerId targetMode message =>
      some (c, .item (.textMessage invoker invokerId targetMode message))
  | .commandError invalidPassword => some (c, .item (.commandError invalidPassword))
  | .other => some (c, .item .other)
  | .lost reason =>
      if c.link ≠ .connecting then some (c.drop, .item (.disconnectedTemporarily reason)) else none
  | .failed message => some (c, .failed message)
  | .ended => some (c, .ended)

end Conn

end Nek0.Native
