import Nek0.Lib.System
import Nek0.Protocol.Resend

/-!
# `Nek0.Protocol.CommandLink`: commands from one side to the other

The commands of one type that one side sends and the other one receives. Between them is a network
that loses, delays, reorders and repeats datagrams: what was sent once can arrive at any time, and
any number of times. An acknowledgement is the id in it, and travels alike.

The connection is behind its handshake: both sides have the parameters, and agree on the number of
the next packet. The commands of the handshake, which acknowledge packets by what they say, do not
occur.
-/

set_option autoImplicit false

namespace Nek0.Protocol

open Nek0.Lib (System)

/-- What does not change. -/
structure LinkSetup where
  /-- The side that sends. -/
  session : Session
  cc : CongestionControl
  /-- `CommandLow`. -/
  low : Bool
  /-- The number of the first packet. -/
  first : Nat

namespace LinkSetup

variable (S : LinkSetup)

def packetType : PacketType := if S.low then .commandLow else .command

def resendType : ResendType := if S.low then .commandLow else .command

/-- The side that receives. -/
def peer : Session := { S.session with isClient := !S.session.isClient }

/-- The packet of an `OutCommand` with this text. -/
def command (content : List UInt8) : OutPacket :=
  (OutPacket.newWithDir S.session.dir .empty S.packetType).extend content

end LinkSetup

/-- Both ends of one direction of a connection, the network between them, and what was seen so far.
-/
structure Link where
  /-- The next id to send, of `outgoing_p_ids`. -/
  out : PartialPacketId
  resender : Resender
  /-- The sender ended with an error. -/
  failed : Bool
  /-- All datagrams that the sender sent. -/
  wire : List (List UInt8)
  lane : CommandLane
  /-- The receiver ended with an error. -/
  closed : Bool
  /-- All ids that the receiver acknowledged. -/
  acks : List UInt16
  /-- The commands that the sender has sent. -/
  sent : List (List UInt8)
  /-- The ids that `send_packet` has given for them. -/
  ids : List PacketId
  /-- The commands that the receiver has given. -/
  delivered : List (List UInt8)
  /-- The `AckPacket` items that the sender has given. -/
  items : List PacketId

/-- What can happen to the link. The network delivers any datagram that was sent, as often as it
likes. -/
inductive LinkEvent where
  /-- `Connection::send_packet` of a command. -/
  | send (now : Nat) (content : List UInt8)
  /-- `poll_resend`. -/
  | poll (rounds : List Resender.Round)
  /-- `set_state`. -/
  | setState (state : ResenderState)
  /-- A datagram arrives at the receiver. -/
  | arrive (data : List UInt8)
  /-- An acknowledgement arrives at the sender. -/
  | ackArrives (now : Nat) (id : UInt16)
  deriving DecidableEq

namespace Link

/-- The id that `send_packet` gives, of the last one of the packets. -/
def lastId (S : LinkSetup) (packets : List OutUdpPacket) : Option PacketId :=
  packets.getLast?.map fun p => ⟨S.resendType, p.generationId, p.data.udpPacketId⟩

/-- `send_packet`: the packets go to the resender. -/
def send (S : LinkSetup) (l : Link) (now : Nat) (content : List UInt8) : Link :=
  let encoded := encodePacket S.session l.out (S.command content)
  { l with
    out := encoded.2
    resender := encoded.1.foldl (fun r p => r.sendPacket S.cc now S.resendType p) l.resender
    sent := l.sent ++ [content]
    ids := l.ids ++ (lastId S encoded.1).toList }

/-- `poll_resend`: what it sends is on the wire. -/
def poll (S : LinkSetup) (l : Link) (rounds : List Resender.Round) : Option Link :=
  (l.resender.pollResend S.cc rounds).map fun result =>
    { l with
      resender := result.1.getD l.resender
      failed := result.1.isNone
      wire := l.wire ++ result.2.map fun packet => packet.data.data }

/-- `handle_udp_packet` of the receiver. -/
def arrive (S : LinkSetup) (l : Link) (data : List UInt8) : Link :=
  match handleUdpPacket S.peer S.packetType l.lane data with
  | .error _ => { l with closed := true }
  | .ok received =>
    { l with
      lane := received.lane
      acks := l.acks ++ received.ack.toList
      delivered := l.delivered ++ received.commands.map InPacket.content }

/-- `ack_packet` of the sender. -/
def ackArrives (S : LinkSetup) (l : Link) (now : Nat) (id : UInt16) : Link :=
  let acked := l.resender.ackPacket now l.out S.resendType id
  { l with
    resender := acked.1
    items := l.items ++ acked.2.toList }

/-- A step, if it can be taken. -/
def next (S : LinkSetup) : LinkEvent → Link → Option Link
  | .send now content, l => if l.failed then none else some (l.send S now content)
  | .poll rounds, l => if l.failed then none else l.poll S rounds
  | .setState state, l =>
    if l.failed then none else some { l with resender := { l.resender with state := state } }
  | .arrive data, l => if l.closed ∨ data ∉ l.wire then none else some (l.arrive S data)
  | .ackArrives now id, l =>
    if l.failed ∨ id ∉ l.acks then none else some (l.ackArrives S now id)

/-- Nothing was sent. The times and windows of the resender are any. -/
structure Starts (S : LinkSetup) (l : Link) : Prop where
  out : l.out = ⟨.ofNat (S.first / 2 ^ 16), .ofNat S.first⟩
  queues : ∀ i, (l.resender.fullSendQueue i).records = []
  wire : l.wire = []
  next : l.lane.next = l.out
  receiveQueue : l.lane.receiveQueue = []
  fragmentedQueue : l.lane.fragmentedQueue = none
  acks : l.acks = []
  sent : l.sent = []
  ids : l.ids = []
  delivered : l.delivered = []
  items : l.items = []

/-- The link as a system. -/
def system (S : LinkSetup) : System Link LinkEvent where
  init := Starts S
  next := next S

/-- Nothing is there yet. -/
def start (S : LinkSetup) : Link where
  out := ⟨.ofNat (S.first / 2 ^ 16), .ofNat S.first⟩
  resender := .default 0
  failed := false
  wire := []
  lane := ⟨⟨.ofNat (S.first / 2 ^ 16), .ofNat S.first⟩, [], none⟩
  closed := false
  acks := []
  sent := []
  ids := []
  delivered := []
  items := []

theorem starts_start (S : LinkSetup) : Starts S (start S) :=
  ⟨rfl, fun _ => rfl, rfl, rfl, rfl, rfl, rfl, rfl, rfl, rfl, rfl⟩

end Link

end Nek0.Protocol
