import Nek0.Lib.Outcomes
import Nek0.Lib.Transducer
import Nek0.Proofs.Protocol.Headers
import Nek0.Proofs.Protocol.PacketIds

/-!
# `Nek0.Proofs.Protocol.Fragments`: commands are put together as they were split

What matters of the packets of a command are two flags and the content (`Part`). Taken in their
order they give the command, and nothing before the last of them (`isCut_parts`).
-/

set_option autoImplicit false

namespace Nek0.Proofs.Protocol

open Nek0.Protocol
open Nek0.Lib.Outcomes (bind_eq_ok)
open Nek0.Lib.Transducer

/-- What a packet brings for the command that it is a part of. -/
structure Part where
  compressed : Bool
  fragmented : Bool
  content : List UInt8
  deriving DecidableEq, Repr

/-- A packet to send, as a part. -/
def outPart (p : OutPacket) : Part :=
  ⟨p.fields.flags.compressed, p.fields.flags.fragmented, p.content⟩

/-- A received packet, as a part. -/
def inPart (p : InPacket) : Part :=
  ⟨p.fields.flags.compressed, p.fields.flags.fragmented, p.content⟩

/-- The content of a command. -/
def unpack (c : Compressor) (compressed : Bool) (data : List UInt8) : Option (List UInt8) :=
  if compressed then c.decompress data else some data

/-- The fragments so far: whether they are compressed, and the data. -/
abbrev Fragments := Option (Bool × List UInt8)

/-- A part is taken. `headerLen` counts for the length of the fragments. -/
def takePart (c : Compressor) (headerLen : Nat) :
    Fragments → Part → Option (Fragments × List (List UInt8))
  | some (compressed, data), part =>
    if part.fragmented then
      (unpack c compressed (data ++ part.content)).map fun command => (none, [command])
    else if headerLen + data.length < maxFragmentsLength then
      some (some (compressed, data ++ part.content), [])
    else none
  | none, part =>
    if part.fragmented then some (some (part.compressed, part.content), [])
    else (unpack c part.compressed part.content).map fun command => (none, [command])

/-! ### The receiver takes parts -/

/-- The fragments in the queue. -/
def fragmentsOf (lane : CommandLane) : Fragments :=
  lane.fragmentedQueue.map fun p => (p.fields.flags.compressed, p.content)

/-- The headers of all fragments are equally long. -/
def HeaderLen (headerLen : Nat) (lane : CommandLane) : Prop :=
  ∀ p, lane.fragmentedQueue = some p → p.header.length = headerLen

/-- If `decompress` succeeds, its content is the unpacked one. -/
theorem decompress_ok {c : Compressor} {p q : InPacket} (h : decompress c p = .ok q) :
    unpack c p.fields.flags.compressed p.content = some q.content := by
  rw [decompress] at h
  rw [unpack]
  split at h
  · next hcompressed =>
      rw [if_pos hcompressed]
      split at h
      · next content hcontent =>
          cases h
          exact hcontent
      · cases h
  · next hplain =>
      rw [if_neg hplain]
      cases h
      rfl

/-- `take_packet` does with a packet what `takePart` does with the part. -/
theorem takePacket_ok {c : Compressor} {headerLen : Nat} {lane lane' : CommandLane}
    {packet : InPacket} {command : Option InPacket} (hlane : HeaderLen headerLen lane)
    (hpacket : packet.header.length = headerLen)
    (h : takePacket c lane packet = .ok (lane', command)) :
    takePart c headerLen (fragmentsOf lane) (inPart packet) =
        some (fragmentsOf lane', command.toList.map InPacket.content) ∧
      HeaderLen headerLen lane' ∧ lane'.next = lane.next.add 1 ∧
        lane'.receiveQueue = lane.receiveQueue := by
  obtain ⟨next, receiveQueue, queue⟩ := lane
  rw [takePacket] at h
  -- The fragments are those of the queue: none yet, or a first packet with what was added to it.
  cases queue with
  | none =>
      -- A fragmented packet starts a command. Any other is a command of its own.
      by_cases hfrag : packet.fields.flags.fragmented = true
      · rw [if_pos hfrag] at h
        cases h
        refine ⟨?_, ?_, rfl, rfl⟩
        · simp [takePart, fragmentsOf, inPart, hfrag]
        · intro p hp
          cases hp
          exact hpacket
      · rw [if_neg hfrag] at h
        obtain ⟨whole, hwhole, heq⟩ := bind_eq_ok h
        cases heq
        refine ⟨?_, hlane, rfl, rfl⟩
        simp [takePart, fragmentsOf, inPart, hfrag, decompress_ok hwhole]
  | some fragments =>
      have hlen : fragments.header.length = headerLen := hlane fragments rfl
      -- Behind a start, a fragmented packet ends the command. Any other is a part in the middle.
      by_cases hfrag : packet.fields.flags.fragmented = true
      · rw [if_pos hfrag] at h
        obtain ⟨whole, hwhole, heq⟩ := bind_eq_ok h
        cases heq
        have hunpack : unpack c fragments.fields.flags.compressed
            (fragments.content ++ packet.content) = some whole.content := decompress_ok hwhole
        refine ⟨?_, ?_, rfl, rfl⟩
        · simp [takePart, fragmentsOf, inPart, hfrag, hunpack]
        · intro p hp
          cases hp
      · rw [if_neg hfrag] at h
        dsimp only at h
        split at h
        -- The part is appended, if the command is not too long already.
        · next hroom =>
            cases h
            rw [InPacket.dataLen, hlen] at hroom
            refine ⟨?_, ?_, rfl, rfl⟩
            · simp only [takePart, fragmentsOf, inPart, Option.map_some, if_neg hfrag, if_pos hroom]
              rfl
            · intro p hp
              cases hp
              exact hlen
        · cases h

/-! ### The parts of a command -/

/-- The pieces of the data of a command, as parts. -/
def cutParts (compressed : Bool) (datas : List (List UInt8)) : List Part :=
  datas.mapIdx fun i d =>
    { compressed := decide (i = 0) && compressed
      fragmented := decide (1 < datas.length) && decide (i = 0 ∨ i = datas.length - 1)
      content := d }

/-- A part in the middle of a command. -/
def middlePart (d : List UInt8) : Part := ⟨false, false, d⟩

/-- Two parts or more: the flags are set on the first and the last, and on none between them. -/
theorem cutParts_of_two (compressed : Bool) (d e : List UInt8) (mid : List (List UInt8)) :
    cutParts compressed (d :: (mid ++ [e])) =
      ⟨compressed, true, d⟩ :: (mid.map middlePart ++ [⟨false, true, e⟩]) := by
  have hlen : (d :: (mid ++ [e])).length = mid.length + 2 := by simp
  rw [cutParts, hlen]
  refine List.ext_getElem (by simp) fun i hi hi' => ?_
  rw [List.getElem_mapIdx]
  -- The first part by its index, then the middle ones and the last by theirs.
  cases i with
  | zero => simp
  | succ i =>
      rw [List.length_mapIdx, hlen] at hi
      have hone : (1 < mid.length + 2) = True := by
        rw [eq_iff_iff, iff_true]
        omega
      cases Nat.lt_or_ge i mid.length with
      | inl hlt =>
          simp [List.getElem_append_left, hlt, middlePart]
          omega
      | inr hge =>
          have heq : i = mid.length := by omega
          subst heq
          simp

section Taken

variable {c : Compressor} {headerLen : Nat} {compressed : Bool}

/-- Middle parts are appended, as long as there is room. -/
theorem feed_middle {data : List UInt8} {mid : List (List UInt8)} {s : Fragments}
    {os : List (List UInt8)}
    (h :
      feed (takePart c headerLen) (some (compressed, data)) (mid.map middlePart) = some (s, os)) :
    s = some (compressed, data ++ mid.flatten) ∧ os = [] := by
  induction mid generalizing data s os with
  | nil =>
      cases h
      rw [List.flatten_nil, List.append_nil]
      exact ⟨rfl, rfl⟩
  | cons d mid ih =>
      rw [List.map_cons, feed] at h
      obtain ⟨⟨s₁, os₁⟩, hstep, hrest⟩ := Option.bind_eq_some_iff.mp h
      obtain ⟨⟨s₂, os₂⟩, hfeed, heq⟩ := Option.map_eq_some_iff.mp hrest
      cases heq
      have htake : s₁ = some (compressed, data ++ d) ∧ os₁ = [] := by
        rw [takePart, if_neg (by simp [middlePart])] at hstep
        split at hstep
        · cases hstep
          exact ⟨rfl, rfl⟩
        · cases hstep
      obtain ⟨rfl, rfl⟩ := htake
      obtain ⟨hs, hos⟩ := ih hfeed
      rw [hs, hos, List.flatten_cons, List.append_assoc]
      exact ⟨rfl, rfl⟩

/-- A command in one part. -/
theorem isCut_one {d message : List UInt8}
    (hmessage : ∀ m, unpack c compressed d = some m → m = message) :
    IsCut (takePart c headerLen) none [⟨compressed, false, d⟩] message where
  whole := by
    intro s os h
    rw [feed] at h
    obtain ⟨⟨s₁, os₁⟩, hstep, hrest⟩ := Option.bind_eq_some_iff.mp h
    cases hrest
    obtain ⟨m, hm, heq⟩ := Option.map_eq_some_iff.mp hstep
    cases heq
    exact ⟨rfl, congrArg (fun m => [m] ++ []) (hmessage m hm)⟩
  before := by
    intro front back s os hparts hback h
    cases front with
    | nil =>
        cases h
        rfl
    | cons part front =>
        have hlen := congrArg List.length hparts
        rw [List.length_singleton, List.cons_append, List.length_cons, List.length_append] at hlen
        exact absurd (List.eq_nil_of_length_eq_zero (by omega)) hback

/-- A command in two parts or more. -/
theorem isCut_two {d e message : List UInt8} {mid : List (List UInt8)}
    (hmessage : ∀ m, unpack c compressed (d ++ mid.flatten ++ e) = some m → m = message) :
    IsCut (takePart c headerLen) none
      (⟨compressed, true, d⟩ :: (mid.map middlePart ++ [⟨false, true, e⟩])) message := by
  have hfirst : takePart c headerLen none ⟨compressed, true, d⟩ =
      some (some (compressed, d), []) := rfl
  -- All parts give the message, and a proper front of them gives nothing.
  constructor
  · intro s os h
    rw [feed_cons_of_some hfirst] at h
    obtain ⟨⟨s₁, os₁⟩, hrest, heq⟩ := Option.map_eq_some_iff.mp h
    cases heq
    obtain ⟨s₂, os₂, os₃, hmid, hlast, rfl⟩ := feed_of_append hrest
    obtain ⟨rfl, rfl⟩ := feed_middle hmid
    rw [feed] at hlast
    obtain ⟨⟨s₄, os₄⟩, hstep, hdone⟩ := Option.bind_eq_some_iff.mp hlast
    cases hdone
    obtain ⟨m, hm, heq⟩ := Option.map_eq_some_iff.mp hstep
    cases heq
    rw [hmessage m hm]
    exact ⟨rfl, rfl⟩
  -- The first part alone opens the command, and middle parts keep it open.
  · intro front back s os hparts hback h
    cases front with
    | nil =>
        cases h
        rfl
    | cons part front =>
        rw [List.cons_append] at hparts
        obtain ⟨rfl, hrest⟩ := List.cons.inj hparts
        rw [feed_cons_of_some hfirst] at h
        obtain ⟨⟨s₁, os₁⟩, hfeed, heq⟩ := Option.map_eq_some_iff.mp h
        cases heq
        -- Without the last part only middle parts are there.
        obtain ⟨taken, left, rfl, htaken⟩ : ∃ taken left, mid = taken ++ left ∧
            front = taken.map middlePart := by
          obtain ⟨back', rfl⟩ : ∃ back', back = back' ++ [⟨false, true, e⟩] := by
            have hlast := congrArg List.getLast? hrest
            rw [List.getLast?_append_of_ne_nil _ (List.cons_ne_nil _ _),
              List.getLast?_append_of_ne_nil _ hback] at hlast
            rw [List.getLast?_eq_some_getLast hback] at hlast
            refine ⟨back.dropLast, ?_⟩
            rw [show (⟨false, true, e⟩ : Part) = back.getLast hback from Option.some.inj hlast]
            exact (List.dropLast_append_getLast hback).symm
          rw [← List.append_assoc] at hrest
          have hmid := List.append_inj_left' hrest rfl
          obtain ⟨taken, left, rfl, htaken, -⟩ := List.map_eq_append_iff.mp hmid
          exact ⟨taken, left, rfl, htaken.symm⟩
        rw [htaken] at hfeed
        rw [(feed_middle hfeed).2]
        rfl

/-- The pieces of a command give the command. -/
theorem isCut_cutParts {datas : List (List UInt8)} {message : List UInt8} (hne : datas ≠ [])
    (hmessage : ∀ m, unpack c compressed datas.flatten = some m → m = message) :
    IsCut (takePart c headerLen) none (cutParts compressed datas) message := by
  obtain ⟨d, rest, rfl⟩ := List.exists_cons_of_ne_nil hne
  cases hrest : rest with
  | nil =>
      have hone : cutParts compressed [d] = [⟨compressed, false, d⟩] := by
        simp [cutParts]
      rw [hrest, List.flatten_cons, List.flatten_nil, List.append_nil] at hmessage
      rw [hone]
      exact isCut_one hmessage
  | cons e rest' =>
      obtain ⟨mid, last, hlast⟩ : ∃ mid last, rest = mid ++ [last] :=
        ⟨rest.dropLast, rest.getLast (by rw [hrest]; exact List.cons_ne_nil _ _),
          (List.dropLast_append_getLast _).symm⟩
      rw [hlast, List.flatten_cons, List.flatten_append, List.flatten_cons, List.flatten_nil,
        List.append_nil, ← List.append_assoc] at hmessage
      rw [← hrest, hlast, cutParts_of_two]
      exact isCut_two hmessage

end Taken

/-! ### The packets of a command -/

/-- The pieces put together are the data. -/
theorem splitData_flatten (n : Nat) (data : List UInt8) : (splitData n data).flatten = data := by
  induction data using splitData.induct n with
  | case1 data h ih =>
      rw [splitData, dif_pos h, List.flatten_cons, ih, List.take_append_drop]
  | case2 data h =>
      rw [splitData, dif_neg h, List.flatten_cons, List.flatten_nil, List.append_nil]

theorem splitData_ne_nil (n : Nat) (data : List UInt8) : splitData n data ≠ [] := by
  rw [splitData]
  split <;> exact List.cons_ne_nil _ _

section Packets

variable (p : OutPacket) (content : List UInt8)

theorem length_header : p.header.length = p.dir.headerLen := by
  rw [OutPacket.header, List.length_take, Nat.min_eq_left p.complete]

theorem fields_withContent : (p.withContent content).fields = p.fields := by
  show headerFields p.dir (p.header ++ content) = headerFields p.dir p.data
  rw [← headerFields_take, List.take_left' (length_header p), ← @headerFields_take p.dir p.data]
  rfl

theorem content_withContent : (p.withContent content).content = content :=
  List.drop_left' (length_header p)

theorem content_flags (f : Flags) : (p.flags f).content = p.content := by
  rw [OutPacket.flags, content_write]

end Packets

/-- A header without the two flags that say how a command was split. -/
def unsplit (f : Fields) : Fields :=
  { f with flags := { f.flags with compressed := false, fragmented := false } }

/-- How a packet of a command goes with the command: the whole header is the same, but for the flags
about the splitting. -/
structure SameHeader (p q : OutPacket) : Prop where
  dir : q.dir = p.dir
  fields : unsplit q.fields = unsplit p.fields

theorem SameHeader.refl (p : OutPacket) : SameHeader p p := ⟨rfl, rfl⟩

/-- Other flags for compression and fragments leave the rest of the header. -/
theorem SameHeader.flags {p q : OutPacket} (h : SameHeader p q) {f : Flags}
    (hunencrypted : f.unencrypted = q.fields.flags.unencrypted)
    (hnewprotocol : f.newprotocol = q.fields.flags.newprotocol) : SameHeader p (q.flags f) where
  dir := h.dir
  fields := by
    rw [← h.fields, fields_flags]
    simp only [unsplit, hunencrypted, hnewprotocol]

theorem SameHeader.withContent {p q : OutPacket} (h : SameHeader p q) (content : List UInt8) :
    SameHeader p (q.withContent content) where
  dir := h.dir
  fields := by rw [fields_withContent, h.fields]

theorem SameHeader.packetType {p q : OutPacket} (h : SameHeader p q) :
    q.fields.packetType = p.fields.packetType := by
  have hfield := congrArg Fields.packetType h.fields
  exact hfield

theorem SameHeader.clientId {p q : OutPacket} (h : SameHeader p q) :
    q.fields.clientId = p.fields.clientId := by
  have hfield := congrArg Fields.clientId h.fields
  exact hfield

theorem SameHeader.unencrypted {p q : OutPacket} (h : SameHeader p q) :
    q.fields.flags.unencrypted = p.fields.flags.unencrypted := by
  have hfield := congrArg (fun f : Fields => f.flags.unencrypted) h.fields
  exact hfield

/-- One packet of a command that is split, with the flags that it gets. -/
def splitPacket (p : OutPacket) (first last : Bool) (d : List UInt8) : OutPacket :=
  let packet := p.withContent d
  let packet := if first then packet.flags { packet.headerFlags with compressed := true }
    else packet
  if last then packet.flags { packet.headerFlags with fragmented := true } else packet

/-- A part keeps the header of the packet, with the two flags for its place. -/
theorem splitPacket_spec (p : OutPacket) (first last : Bool) (d : List UInt8)
    (hcompressed : p.fields.flags.compressed = false)
    (hfragmented : p.fields.flags.fragmented = false) :
    outPart (splitPacket p first last d) = ⟨first, last, d⟩ ∧
      SameHeader p (splitPacket p first last d) := by
  have hcontent := content_withContent p d
  have hfields := fields_withContent p d
  constructor
  · cases first <;> cases last <;>
      simp [splitPacket, outPart, OutPacket.headerFlags, fields_flags, content_flags, hfields,
        hcontent, hcompressed, hfragmented]
  -- Both flags are set on the packet with the new content, one behind the other.
  · have hsame : SameHeader p (p.withContent d) := (SameHeader.refl p).withContent d
    have hone : SameHeader p (if first = true then (p.withContent d).flags
        { (p.withContent d).headerFlags with compressed := true } else p.withContent d) := by
      split
      · exact hsame.flags rfl rfl
      · exact hsame
    rw [splitPacket]
    dsimp only
    split
    · exact hone.flags rfl rfl
    · exact hone

/-- The data that is split, and whether it is compressed. -/
def splitInput (s : Session) (data : List UInt8) : Bool × List UInt8 :=
  let cdata := s.compressor.compress data
  let compressed := !decide (cdata.length > data.length)
  (compressed, if compressed then cdata else data)

/-- The packets of a long command. -/
theorem compressAndSplit_of_gt (s : Session) (p : OutPacket)
    (h : p.content.length > 500 - s.dir.headerLen) :
    let input := splitInput s p.content
    let datas := splitData (500 - s.dir.headerLen) input.2
    compressAndSplit s p = datas.mapIdx fun i d =>
      splitPacket p (decide (i = 0) && input.1)
        (decide (1 < datas.length) && decide (i = 0 ∨ i = datas.length - 1)) d := by
  dsimp only
  rw [compressAndSplit]
  dsimp only
  rw [if_pos h]
  simp only [splitInput, splitPacket, Bool.and_eq_true, decide_eq_true_eq, gt_iff_lt]

/-- `send_packet` can take the last packet. -/
theorem compressAndSplit_ne_nil (s : Session) (p : OutPacket) : compressAndSplit s p ≠ [] := by
  by_cases hlong : p.content.length > 500 - s.dir.headerLen
  · rw [compressAndSplit_of_gt s p hlong]
    exact fun hnil => splitData_ne_nil _ _ (List.mapIdx_eq_nil_iff.mp hnil)
  · rw [compressAndSplit]
    dsimp only
    rw [if_neg hlong]
    exact List.cons_ne_nil _ _

section Parts

variable {s : Session} {p : OutPacket} (hcompressed : p.fields.flags.compressed = false)
  (hfragmented : p.fields.flags.fragmented = false)

include hcompressed hfragmented

/-- The parts of a long command. -/
theorem map_outPart_of_gt (h : p.content.length > 500 - s.dir.headerLen) :
    (compressAndSplit s p).map outPart = cutParts (splitInput s p.content).1
      (splitData (500 - s.dir.headerLen) (splitInput s p.content).2) := by
  have hsplit := compressAndSplit_of_gt s p h
  dsimp only at hsplit
  rw [hsplit, cutParts]
  refine List.ext_getElem (by simp) fun i _ _ => ?_
  rw [List.getElem_map, List.getElem_mapIdx, List.getElem_mapIdx]
  exact (splitPacket_spec p _ _ _ hcompressed hfragmented).1

/-- The part of a short command. -/
theorem map_outPart_of_le (h : ¬p.content.length > 500 - s.dir.headerLen) :
    (compressAndSplit s p).map outPart = cutParts false [p.content] := by
  rw [compressAndSplit]
  dsimp only
  rw [if_neg h, List.map_singleton, outPart, hcompressed, hfragmented]
  rfl

/-- The parts of a command give the command. -/
theorem isCut_parts (s : Session) (headerLen : Nat) :
    IsCut (takePart s.compressor headerLen) none ((compressAndSplit s p).map outPart)
      p.content := by
  by_cases hlong : p.content.length > 500 - s.dir.headerLen
  · rw [map_outPart_of_gt hcompressed hfragmented hlong]
    refine isCut_cutParts (splitData_ne_nil _ _) ?_
    intro m hm
    rw [splitData_flatten, splitInput] at hm
    cases hc : (!decide ((s.compressor.compress p.content).length > p.content.length)) with
    | false =>
        simp only [hc, unpack, if_false, Bool.false_eq_true, Option.some.injEq] at hm
        exact hm.symm
    | true =>
        simp only [hc, unpack, if_true, s.compressor.decompress_compress] at hm
        split at hm
        · exact (Option.some.inj hm).symm
        · cases hm
  · rw [map_outPart_of_le hcompressed hfragmented hlong]
    refine isCut_cutParts (List.cons_ne_nil _ _) fun m hm => ?_
    rw [List.flatten_cons, List.flatten_nil, List.append_nil] at hm
    exact (Option.some.inj hm).symm

/-- The packets of a command have its header. -/
theorem sameHeader_of_mem {q : OutPacket} (h : q ∈ compressAndSplit s p) : SameHeader p q := by
  by_cases hlong : p.content.length > 500 - s.dir.headerLen
  · rw [compressAndSplit_of_gt s p hlong] at h
    obtain ⟨i, hi, rfl⟩ := List.mem_mapIdx.mp h
    exact (splitPacket_spec p _ _ _ hcompressed hfragmented).2
  · rw [compressAndSplit] at h
    dsimp only at h
    rw [if_neg hlong] at h
    rw [List.mem_singleton.mp h]
    exact .refl p

end Parts

namespace PlainLink

open Nek0.Lib.BigEndian (fromBe fromBe_toBe_of_lt)

/-- A mac that only tells the generation. -/
def mac (generationId : UInt32) : Bytes 8 := ⟨writeU64 generationId.toUInt64, rfl⟩

/-- The test ciphers tell the generations apart. -/
theorem mac_inj {a b : UInt32} (h : mac a = mac b) : a = b := by
  have hbytes : fromBe (writeU64 a.toUInt64) = fromBe (writeU64 b.toUInt64) :=
    congrArg (fun m : Bytes 8 => fromBe m.val) h
  rw [writeU64, writeU64, fromBe_toBe_of_lt a.toUInt64.toNat_lt,
    fromBe_toBe_of_lt b.toUInt64.toNat_lt] at hbytes
  exact UInt32.toNat_inj.mp hbytes

/-- A cipher that does not encrypt. -/
def cipher : Cipher where
  encrypt generationId _ content := (mac generationId, content)
  decrypt generationId _ received content :=
    if received = (mac generationId).val then some content else none
  decrypt_encrypt _ _ _ := if_pos rfl
  decrypt_other _ _ _ _ h := if_neg fun heq => h (mac_inj (Subtype.ext heq))

/-- A compressor that does not compress. -/
def compressor : Compressor where
  compress data := data
  decompress data := if data.length ≤ maxDecompressedSize then some data else none
  decompress_compress _ := rfl

/-- A client. -/
def session : Session := ⟨true, 1, cipher, compressor⟩

end PlainLink

end Nek0.Proofs.Protocol
