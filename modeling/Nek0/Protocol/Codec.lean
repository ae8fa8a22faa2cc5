import Nek0.Protocol.Packets

/-!
# `Nek0.Protocol.Codec`: commands in packets

`PacketCodec` compresses, splits, numbers and encrypts commands, and takes them apart again. Packet
ids have 16 bits, and count on in the next generation when they wrap. A received id is taken for the
number in the receive window. Packets that come early wait in the receive queue, and fragments are
collected until the last one is there.

This is a connection whose parameters are known, behind the handshake. Only commands are
modelled, and a `CommandLane` has the entries for one of their two types. The cipher and QuickLZ are
not part of the repository: `Cipher` and `Compressor` say what the code relies on.
-/

set_option autoImplicit false

namespace Nek0.Protocol

/-- The authenticated cipher, with the keys of a connection. The key depends on the generation, and
`info` (the header behind the mac) is authenticated too. -/
structure Cipher where
  encrypt : UInt32 → List UInt8 → List UInt8 → Bytes 8 × List UInt8
  decrypt : UInt32 → List UInt8 → List UInt8 → List UInt8 → Option (List UInt8)
  decrypt_encrypt : ∀ gen info content,
    decrypt gen info (encrypt gen info content).1.val (encrypt gen info content).2 = some content
  /-- Another generation has another key. -/
  decrypt_other : ∀ gen gen' info content, gen ≠ gen' →
    decrypt gen' info (encrypt gen info content).1.val (encrypt gen info content).2 = none

/-- `MAX_DECOMPRESSED_SIZE`. -/
def maxDecompressedSize : Nat := 2 * 1024 * 1024

/-- QuickLZ. It decompresses what is not too long. -/
structure Compressor where
  compress : List UInt8 → List UInt8
  decompress : List UInt8 → Option (List UInt8)
  decompress_compress : ∀ data, decompress (compress data) =
    if data.length ≤ maxDecompressedSize then some data else none

/-- `MAX_FRAGMENTS_LENGTH`. -/
def maxFragmentsLength : Nat := 40960

/-- `MAX_QUEUE_LEN`. -/
def maxQueueLen : UInt16 := 200

/-! ### Packet ids -/

/-- `PartialPacketId`. -/
structure PartialPacketId where
  generationId : UInt32
  packetId : UInt16
  deriving DecidableEq, Repr

namespace PartialPacketId

/-- `Ord::cmp`, as a strict order. -/
def lt (a b : PartialPacketId) : Prop :=
  a.generationId < b.generationId ∨ a.generationId = b.generationId ∧ a.packetId < b.packetId

instance (a b : PartialPacketId) : Decidable (lt a b) := by
  unfold lt
  infer_instance

/-- `Add<u16>`. -/
def add (p : PartialPacketId) (n : UInt16) : PartialPacketId where
  generationId := if p.packetId.toNat + n.toNat < 2 ^ 16 then p.generationId else p.generationId + 1
  packetId := p.packetId + n

end PartialPacketId

/-- `cur_next.overflowing_add(len)`: the limit, and whether it is in the next generation. -/
def limitOf (curNext len : UInt16) : UInt16 × Bool :=
  (curNext + len, decide (2 ^ 16 ≤ curNext.toNat + len.toNat))

/-- The id is one of `len` ids from `curNext` on. -/
def inRange (curNext len id : UInt16) : Bool :=
  let (limit, nextGen) := limitOf curNext len
  (!nextGen && decide (id ≥ curNext) && decide (id < limit)) ||
    (nextGen && (decide (id ≥ curNext) || decide (id < limit)))

/-- `in_receive_window`, with the id that is expected next: whether the id is in the window, and the
generation that it is taken for. The window is the next half of the ids. -/
def inReceiveWindow (next : PartialPacketId) (pId : UInt16) : Bool × UInt32 :=
  let curNext := next.packetId
  let (limit, nextGen) := limitOf curNext (0xffff / 2)
  let gen := next.generationId
  let inRecvWin := inRange curNext (0xffff / 2) pId
  let genId :=
    if inRecvWin then (if nextGen && decide (pId < limit) then gen + 1 else gen)
    else if pId < curNext then gen
    else gen - 1
  (inRecvWin, genId)

/-! ### Sending -/

/-- What both sides know of a connection. -/
structure Session where
  isClient : Bool
  cId : UInt16
  cipher : Cipher
  compressor : Compressor

/-- Where packets go to. -/
def Session.dir (s : Session) : Direction := if s.isClient then .c2s else .s2c

/-- The data in pieces of `maxSize` bytes, and the rest. -/
def splitData (maxSize : Nat) (data : List UInt8) : List (List UInt8) :=
  if _h : 0 < maxSize ∧ maxSize < data.length then
    data.take maxSize :: splitData maxSize (data.drop maxSize)
  else [data]
termination_by data.length
decreasing_by
  rw [List.length_drop]
  omega

namespace OutPacket

/-- A packet with the same header and another content. -/
def withContent (p : OutPacket) (content : List UInt8) : OutPacket where
  dir := p.dir
  data := p.header ++ content
  complete := by
    have hlen : p.header.length = p.dir.headerLen := by
      rw [header, List.length_take, Nat.min_eq_left p.complete]
    rw [List.length_append, hlen]
    exact Nat.le_add_right _ _

/-- The flags of the header. -/
def headerFlags (p : OutPacket) : Flags := p.fields.flags

end OutPacket

/-- `compress_and_split`. The flag `COMPRESSED` is set on the first fragment, and `FRAGMENTED` on
the first and the last one. -/
def compressAndSplit (s : Session) (packet : OutPacket) : List OutPacket :=
  let data := packet.content
  let maxSize := 500 - s.dir.headerLen
  if data.length > maxSize then
    let cdata := s.compressor.compress data
    -- Used only if it is efficient.
    let compressed := !decide (cdata.length > data.length)
    let datas := splitData maxSize (if compressed then cdata else data)
    let fragmented := decide (datas.length > 1)
    datas.mapIdx fun i d =>
      let packet := packet.withContent d
      let packet := if i = 0 ∧ compressed then
          packet.flags { packet.headerFlags with compressed := true }
        else packet
      if fragmented ∧ (i = 0 ∨ i = datas.length - 1) then
        packet.flags { packet.headerFlags with fragmented := true }
      else packet
  else [packet]

/-- `OutUdpPacket`. -/
structure OutUdpPacket where
  generationId : UInt32
  data : OutPacket

/-- `encrypt`: the content is encrypted, and the mac is written into the header. -/
def encrypt (s : Session) (packet : OutPacket) (generationId : UInt32) : OutPacket :=
  let sealed := s.cipher.encrypt generationId (packet.header.drop 8) packet.content
  (packet.withContent sealed.2).setMac sealed.1

/-- One part gets its id and is encrypted. The generation that is kept with it is the one of the
next id. -/
def encodePart (s : Session) (out : PartialPacketId) (packet : OutPacket) :
    OutUdpPacket × PartialPacketId :=
  let packet := encrypt s (packet.packetId out.packetId) out.generationId
  let out := out.add 1
  (⟨out.generationId, packet⟩, out)

/-- The parts, one after the other. -/
def encodeParts (s : Session) (out : PartialPacketId) :
    List OutPacket → List OutUdpPacket × PartialPacketId
  | [] => ([], out)
  | packet :: packets =>
    let first := encodePart s out packet
    let others := encodeParts s first.2 packets
    (first.1 :: others.1, others.2)

/-- What `encode_packet` sets before it splits the packet: a client sets its flag and its id. -/
def prepared (s : Session) (packet : OutPacket) : OutPacket :=
  let packet :=
    if s.isClient then packet.flags { packet.headerFlags with newprotocol := true } else packet
  if h : s.isClient ∧ packet.dir = .c2s then packet.clientId s.cId h.2 else packet

/-- `encode_packet` of a command, with the next id to send. -/
def encodePacket (s : Session) (out : PartialPacketId) (packet : OutPacket) :
    List OutUdpPacket × PartialPacketId :=
  encodeParts s out (compressAndSplit s (prepared s packet))

/-! ### Receiving -/

/-- Errors that end a connection. -/
inductive CodecError where
  | maxLengthExceeded (what : String)
  | decompressPacket
  deriving DecidableEq, Repr

/-- What a `PacketCodec` has for incoming packets of one type of command. -/
structure CommandLane where
  /-- The next packet id that is expected. -/
  next : PartialPacketId
  /-- Used for incoming out-of-order packets. -/
  receiveQueue : List InPacket
  /-- The accumulated data from fragmented packets, with the header of the first packet. -/
  fragmentedQueue : Option InPacket

namespace InPacket

def packetId (p : InPacket) : UInt16 := p.fields.packetId

def withContent (p : InPacket) (content : List UInt8) : InPacket := { p with content := content }

/-- The length of the header and the content. -/
def dataLen (p : InPacket) : Nat := p.header.length + p.content.length

end InPacket

/-- The content is decompressed if the header says that it is compressed. -/
def decompress (c : Compressor) (p : InPacket) : Except CodecError InPacket :=
  if p.fields.flags.compressed then
    match c.decompress p.content with
    | some content => .ok (p.withContent content)
    | none => .error .decompressPacket
  else .ok p

/-- One round of the loop of `handle_command_packet`: the packet is the next one. It gives a whole
command, or is kept as a fragment. -/
def takePacket (c : Compressor) (lane : CommandLane) (packet : InPacket) :
    Except CodecError (CommandLane × Option InPacket) :=
  let lane := { lane with next := lane.next.add 1 }
  if packet.fields.flags.fragmented then
    match lane.fragmentedQueue with
    | some fragments => do
      -- Last fragmented packet.
      let whole ← decompress c (fragments.withContent (fragments.content ++ packet.content))
      return ({ lane with fragmentedQueue := none }, some whole)
    | none => .ok ({ lane with fragmentedQueue := some packet }, none)
  else
    match lane.fragmentedQueue with
    | some fragments =>
      if fragments.dataLen < maxFragmentsLength then
        .ok ({ lane with
          fragmentedQueue := some (fragments.withContent (fragments.content ++ packet.content)) },
          none)
      else .error (.maxLengthExceeded "fragment queue")
    | none => do
      let whole ← decompress c packet
      return (lane, some whole)

/-- The first packet with this id is removed from the queue. -/
def removeQueued (queue : List InPacket) (id : UInt16) : Option (InPacket × List InPacket) :=
  (queue.findIdx? fun p => p.packetId == id).bind fun pos =>
    (queue[pos]?).map fun p => (p, queue.eraseIdx pos)

/-- The loop: packets that wait in the queue follow the one that came. The number is the length of
the queue: each round but the first takes a packet from it. -/
def takePackets (c : Compressor) : Nat → CommandLane → InPacket →
    Except CodecError (CommandLane × List InPacket)
  | 0, lane, packet => do
    let taken ← takePacket c lane packet
    return (taken.1, taken.2.toList)
  | n + 1, lane, packet => do
    let taken ← takePacket c lane packet
    match removeQueued taken.1.receiveQueue (packet.packetId + 1) with
    | some (following, queue) => do
      let rest ← takePackets c n { taken.1 with receiveQueue := queue } following
      return (rest.1, taken.2.toList ++ rest.2)
    | none => return (taken.1, taken.2.toList)

/-- `handle_command_packet`: the commands that are complete now, in the right order. -/
def handleCommandPacket (c : Compressor) (lane : CommandLane) (packet : InPacket) :
    Except CodecError (CommandLane × List InPacket) :=
  let id := packet.packetId
  let curNext := lane.next.packetId
  if curNext = id then takePackets c lane.receiveQueue.length lane packet
  else if inRange curNext maxQueueLen id then
    .ok ({ lane with receiveQueue := lane.receiveQueue ++ [packet] }, [])
  else .error (.maxLengthExceeded "command queue")

/-- What became of a datagram: the commands, and the id to acknowledge, if any. -/
structure Received where
  lane : CommandLane
  commands : List InPacket
  ack : Option UInt16

/-- `handle_udp_packet`, as far as it is about commands of the type of the lane. A datagram that is
not taken is reported and does nothing else. -/
def handleUdpPacket (s : Session) (packetType : PacketType) (lane : CommandLane)
    (data : List UInt8) : Except CodecError Received :=
  match InPacket.tryNew s.dir.reverse data with
  | .error _ => .ok ⟨lane, [], none⟩
  | .ok packet =>
    if packet.packetType ≠ packetType then .ok ⟨lane, [], none⟩
    else if !s.isClient && packet.fields.clientId != some s.cId then .ok ⟨lane, [], none⟩
    else
      let id := packet.packetId
      let (inRecvWin, genId) := inReceiveWindow lane.next id
      if inRecvWin then
        -- Commands have to be encrypted.
        if packet.fields.flags.unencrypted then .ok ⟨lane, [], none⟩
        else
          match s.cipher.decrypt genId (packet.header.drop 8) packet.fields.mac packet.content with
          | none => .ok ⟨lane, [], none⟩
          | some content => do
            let (lane, commands) ← handleCommandPacket s.compressor lane
              (packet.withContent content)
            return ⟨lane, commands, some id⟩
      else
        -- An ack for the case when it was lost.
        .ok ⟨lane, [], some id⟩

end Nek0.Protocol
