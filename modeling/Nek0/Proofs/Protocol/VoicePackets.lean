import Nek0.Lib.Outcomes
import Nek0.Proofs.Protocol.Headers

/-!
# `Nek0.Proofs.Protocol.VoicePackets`: voice packets are read as they were written

What is in an `AudioData` comes back from its packet (`intoAudio_outAudio_iff`), but for two kinds:
the counts of a whisper with more than 255 channels or clients do not fit their byte, and a whisper
of the new form is taken as too short when it holds no sound.

Reading never panics on what a server sends. On what a client sends it does when an unknown codec is
in a content of three or four bytes, since the error shows the byte at 4 (`parse_panics_iff`).
-/

set_option autoImplicit false

namespace Nek0.Proofs.Protocol

open Nek0.Protocol
open Nek0.Lib.BigEndian
open Nek0.Lib.Outcomes

/-! ### Reading what was written -/

section Reading

variable {α : Type}

theorem readUInt_append {n v : Nat} (ofNat : Nat → α) (h : v < 256 ^ n) (rest : List UInt8) :
    readUInt n ofNat (toBe n v ++ rest) = .ok (ofNat v) := by
  rw [readUInt, readBe_toBe_append h]

theorem readU16_append (v : UInt16) (rest : List UInt8) :
    readU16 (writeU16 v ++ rest) = .ok v :=
  (readUInt_append _ v.toNat_lt rest).trans (by rw [UInt16.ofNat_toNat])

theorem readU32_append (v : UInt32) (rest : List UInt8) :
    readU32 (writeU32 v ++ rest) = .ok v :=
  (readUInt_append _ v.toNat_lt rest).trans (by rw [UInt32.ofNat_toNat])

theorem readU64_append (v : UInt64) (rest : List UInt8) :
    readU64 (writeU64 v ++ rest) = .ok v :=
  (readUInt_append _ v.toNat_lt rest).trans (by rw [UInt64.ofNat_toNat])

theorem sliceFrom_append {front rest : List UInt8} {i : Nat} (h : front.length = i) :
    sliceFrom (front ++ rest) i = .ok rest := by
  rw [sliceFrom, if_pos (by rw [List.length_append]; omega), List.drop_left' h]

/-- Bytes are read back from where they were written. -/
theorem slice_append {n : Nat} (front rest : List UInt8) (bytes : Bytes n) {i : Nat}
    (h : front.length = i) : slice (front ++ (bytes.val ++ rest)) i n = .ok bytes := by
  have hlen : bytes.val.length = n := bytes.2
  rw [slice, dif_pos (by rw [List.length_append, List.length_append]; omega)]
  congr 1
  apply Subtype.ext
  show ((front ++ (bytes.val ++ rest)).drop i).take n = bytes.val
  rw [List.drop_left' h, List.take_left' hlen]

theorem index_append {front rest : List UInt8} {b : UInt8} {i : Nat} (h : front.length = i) :
    index (front ++ b :: rest) i = .ok b := by
  rw [index, List.getElem?_append_right (by omega), h, Nat.sub_self]
  rfl

/-- A loop that reads one number after the other. -/
theorem mapM_read {read : List UInt8 → Except Failure α} {write : α → List UInt8} {n : Nat}
    (hread : ∀ v rest, read (write v ++ rest) = .ok v) (hlen : ∀ v, (write v).length = n)
    (vs : List α) (front rest : List UInt8) {off : Nat} (h : front.length = off) :
    ((List.range vs.length).mapM fun i => do
      read (← sliceFrom (front ++ (vs.flatMap write ++ rest)) (off + i * n))) = .ok vs := by
  induction vs generalizing front off with
  | nil => rfl
  | cons v vs ih =>
      rw [List.length_cons, List.range_succ_eq_map, List.mapM_cons, List.mapM_map,
        List.flatMap_cons, List.append_assoc]
      -- The first number is at `off`, the others are behind it.
      have hfirst : (sliceFrom (front ++ (write v ++ (vs.flatMap write ++ rest))) (off + 0 * n) >>=
          read) = .ok v := by
        rw [sliceFrom_append (by omega)]
        exact hread v _
      have hothers := @ih (front ++ write v) (off + n) (by rw [List.length_append, hlen, h])
      rw [List.append_assoc] at hothers
      have hshift : ∀ i, off + (i + 1) * n = off + n + i * n := by
        intro i
        rw [Nat.succ_mul]
        omega
      rw [hfirst]
      show (List.mapM (m := Except Failure) (fun i => sliceFrom
        (front ++ (write v ++ (vs.flatMap write ++ rest))) (off + (i + 1) * n) >>= read)
          (List.range vs.length) >>= fun bs => pure (v :: bs)) = .ok (v :: vs)
      simp only [hshift]
      rw [hothers]
      rfl

end Reading

/-! ### Round trip -/

/-- What the packet can hold. -/
def WellFormed : AudioData → Prop
  | .c2sWhisper _ _ channels clients _ => channels.length < 256 ∧ clients.length < 256
  | .c2sWhisperNew _ _ _ _ _ data => data ≠ []
  | _ => True

instance (d : AudioData) : Decidable (WellFormed d) := by
  cases d <;> unfold WellFormed <;> infer_instance

theorem readCodec_append {front rest : List UInt8} (codec : CodecType) {i : Nat} (shown : Nat)
    (h : front.length = i) :
    AudioData.readCodec (front ++ codec.toU8 :: rest) i shown = .ok codec := by
  rw [AudioData.readCodec, index_append h, ok_bind, codecTypeFromU8_toU8]

/-- Numbers of one width add up. -/
theorem length_flatMap_write {α : Type} {write : α → List UInt8} {n : Nat}
    (hlen : ∀ v, (write v).length = n) (vs : List α) :
    (vs.flatMap write).length = vs.length * n := by
  induction vs with
  | nil => rw [List.flatMap_nil, List.length_nil, List.length_nil, Nat.zero_mul]
  | cons v vs ih =>
      rw [List.flatMap_cons, List.length_append, hlen, ih, List.length_cons, Nat.succ_mul,
        Nat.add_comm]

/-- Voice of the server, also when it is a whisper. -/
theorem read_fromServer (id fromId : UInt16) (codec : CodecType) (data : List UInt8) :
    let content := writeU16 id ++ (writeU16 fromId ++ codec.toU8 :: data)
    ¬content.length < 5 ∧ sliceFrom content 2 = .ok (writeU16 fromId ++ codec.toU8 :: data) ∧
      AudioData.readCodec content 4 4 = .ok codec ∧ sliceFrom content 5 = .ok data := by
  refine ⟨?_, sliceFrom_append (by simp [writeU16]), ?_, ?_⟩
  · simp [writeU16]
    omega
  · rw [← List.append_assoc]
    exact readCodec_append codec 4 (by simp [writeU16])
  · rw [← List.append_assoc, List.append_cons]
    exact sliceFrom_append (by simp [writeU16])

/-- A whisper to lists of channels and clients is read back. Each list has its length in one byte.
-/
theorem parse_whisper (id : UInt16) (codec : CodecType) (channels : List UInt64)
    (clients : List UInt16) (data : List UInt8) (hchannels : channels.length < 256)
    (hclients : clients.length < 256) :
    AudioData.parse .voiceWhisper false .c2s
        (AudioData.c2sWhisper id codec channels clients data).bytes =
      .ok (.c2sWhisper id codec channels clients data) := by
  -- The content, with the head in one piece.
  have hcontent : (AudioData.c2sWhisper id codec channels clients data).bytes =
      (writeU16 id ++ [codec.toU8, .ofNat channels.length, .ofNat clients.length]) ++
        (channels.flatMap writeU64 ++ (clients.flatMap writeU16 ++ data)) := by
    simp [AudioData.bytes]
  have hhead : (writeU16 id ++ [codec.toU8, .ofNat channels.length, .ofNat clients.length]).length
      = 5 := by simp [writeU16]
  have hlen64 : (channels.flatMap writeU64).length = channels.length * 8 :=
    length_flatMap_write (by simp [writeU64]) channels
  have hlen16 : (clients.flatMap writeU16).length = clients.length * 2 :=
    length_flatMap_write (by simp [writeU16]) clients
  have hlen : (AudioData.c2sWhisper id codec channels clients data).bytes.length =
      5 + channels.length * 8 + clients.length * 2 + data.length := by
    rw [hcontent, List.length_append, hhead, List.length_append, List.length_append, hlen64, hlen16]
    omega
  have hcodec :
      AudioData.readCodec (AudioData.c2sWhisper id codec channels clients data).bytes 2 4 =
      .ok codec := readCodec_append codec 4 (by simp [writeU16])
  have hcount : index (AudioData.c2sWhisper id codec channels clients data).bytes 3 =
      .ok (.ofNat channels.length) := by
    rw [AudioData.bytes, List.append_cons]
    exact index_append (by simp [writeU16])
  have hcount' : index (AudioData.c2sWhisper id codec channels clients data).bytes 4 =
      .ok (.ofNat clients.length) := by
    rw [AudioData.bytes, List.append_cons, List.append_cons]
    exact index_append (by simp [writeU16])
  have hreadChannels : ((List.range channels.length).mapM fun i => do
      readU64 (← sliceFrom (AudioData.c2sWhisper id codec channels clients data).bytes
        (5 + i * 8))) = .ok channels := by
    rw [hcontent]
    exact mapM_read readU64_append (by simp [writeU64]) channels _ _ hhead
  have hreadClients : ((List.range clients.length).mapM fun i => do
      readU16 (← sliceFrom (AudioData.c2sWhisper id codec channels clients data).bytes
        (5 + channels.length * 8 + i * 2))) = .ok clients := by
    rw [hcontent, ← List.append_assoc]
    exact mapM_read readU16_append (by simp [writeU16]) clients _ _
      (by rw [List.length_append, hhead, hlen64])
  have hdata : sliceFrom (AudioData.c2sWhisper id codec channels clients data).bytes
      (5 + channels.length * 8 + clients.length * 2) = .ok data := by
    rw [hcontent, ← List.append_assoc, ← List.append_assoc]
    exact sliceFrom_append (by rw [List.length_append, List.length_append, hhead, hlen64, hlen16])
  have hid : readU16 (AudioData.c2sWhisper id codec channels clients data).bytes = .ok id :=
    readU16_append id _
  generalize (AudioData.c2sWhisper id codec channels clients data).bytes = content at *
  -- Both lengths fit into their bytes.
  have hcc : (UInt8.ofNat channels.length).toNat = channels.length := by
    rw [UInt8.toNat_ofNat', Nat.mod_eq_of_lt hchannels]
  have hcl : (UInt8.ofNat clients.length).toNat = clients.length := by
    rw [UInt8.toNat_ofNat', Nat.mod_eq_of_lt hclients]
  have h3 : ¬content.length < 3 := by omega
  have h5 : ¬content.length < 5 := by omega
  have hoff : ¬content.length < 5 + channels.length * 8 + clients.length * 2 := by omega
  simp only [AudioData.parse, hid, ok_bind, h3, hcodec, h5, hcount, hcount', hcc,
    hcl, hoff, hreadChannels, hreadClients, hdata, if_false, reduceCtorEq, Bool.false_eq_true]
  rfl

/-- Sound is read back from its bytes, with the type, flags and direction that it is sent with. -/
theorem parse_bytes (d : AudioData) (h : WellFormed d) :
    AudioData.parse d.packetType d.flags.newprotocol d.direction d.bytes = .ok d := by
  cases d with
  | c2s id codec data =>
      have hcodec : AudioData.readCodec (writeU16 id ++ codec.toU8 :: data) 2 4 = .ok codec :=
        readCodec_append codec 4 (by simp [writeU16])
      have hdata : sliceFrom (writeU16 id ++ codec.toU8 :: data) 3 = .ok data := by
        rw [List.append_cons]
        exact sliceFrom_append (by simp [writeU16])
      have hlen : ¬(writeU16 id ++ codec.toU8 :: data).length < 3 := by
        simp [writeU16]
        omega
      simp only [AudioData.parse, AudioData.bytes, AudioData.packetType, AudioData.direction,
        readU16_append, ok_bind, hlen, hcodec, hdata, if_true, if_false, reduceCtorEq]
      rfl
  | c2sWhisper id codec channels clients data =>
      exact parse_whisper id codec channels clients data h.1 h.2
  | c2sWhisperNew id codec whisperType target targetId data =>
      have hcodec : AudioData.readCodec (writeU16 id ++ codec.toU8 :: whisperType :: target ::
          (writeU64 targetId ++ data)) 2 4 = .ok codec :=
        readCodec_append codec 4 (by simp [writeU16])
      have htype : index (writeU16 id ++ codec.toU8 :: whisperType :: target ::
          (writeU64 targetId ++ data)) 3 = .ok whisperType := by
        rw [List.append_cons]
        exact index_append (by simp [writeU16])
      have htarget : index (writeU16 id ++ codec.toU8 :: whisperType :: target ::
          (writeU64 targetId ++ data)) 4 = .ok target := by
        rw [List.append_cons, List.append_cons]
        exact index_append (by simp [writeU16])
      have hid : sliceFrom (writeU16 id ++ codec.toU8 :: whisperType :: target ::
          (writeU64 targetId ++ data)) 5 = .ok (writeU64 targetId ++ data) := by
        rw [List.append_cons, List.append_cons, List.append_cons]
        exact sliceFrom_append (by simp [writeU16])
      have hdata : sliceFrom (writeU16 id ++ codec.toU8 :: whisperType :: target ::
          (writeU64 targetId ++ data)) 13 = .ok data := by
        rw [List.append_cons, List.append_cons, List.append_cons, ← List.append_assoc]
        exact sliceFrom_append (by simp [writeU16, writeU64])
      -- Here it matters that there is sound.
      have hlen : (writeU16 id ++ codec.toU8 :: whisperType :: target ::
          (writeU64 targetId ++ data)).length = 13 + data.length := by
        simp [writeU16, writeU64]
        omega
      have hpos : 0 < data.length := List.length_pos_of_ne_nil h
      have h3 : ¬13 + data.length < 3 := by omega
      have h14 : ¬13 + data.length < 14 := by omega
      simp only [AudioData.parse, AudioData.bytes, AudioData.packetType, AudioData.direction,
        AudioData.flags, readU16_append, ok_bind, hlen, h3, hcodec, h14, htype, htarget, hid,
        readU64_append, hdata, if_true, if_false, reduceCtorEq]
      rfl
  | s2c id fromId codec data =>
      obtain ⟨hlen, hslice, hcodec, hdata⟩ := read_fromServer id fromId codec data
      simp only [AudioData.parse, AudioData.bytes, AudioData.packetType, AudioData.direction,
        readU16_append, ok_bind, hlen, hslice, hcodec, hdata, if_true, if_false]
      rfl
  | s2cWhisper id fromId codec data =>
      obtain ⟨hlen, hslice, hcodec, hdata⟩ := read_fromServer id fromId codec data
      simp only [AudioData.parse, AudioData.bytes, AudioData.packetType, AudioData.direction,
        readU16_append, ok_bind, hlen, hslice, hcodec, hdata, if_true, if_false, reduceCtorEq]
      rfl

/-! ### Any content -/

/-- Where reading panics: the error about an unknown codec shows a byte that is not there. -/
def Panics (dir : Direction) (content : List UInt8) : Prop :=
  dir = .c2s ∧ 3 ≤ content.length ∧ content.length < 5 ∧
    CodecType.fromU8 (content.getD 2 0) = none

section Contents

variable {E : Failure → Prop} {content : List UInt8} {i : Nat}

/-- Reading a number ends without a panic. -/
theorem ends_readUInt {α : Type} (hE : ∀ e, E (.error e)) (n : Nat) (ofNat : Nat → α)
    (bytes : List UInt8) : Ends E (fun _ => True) (readUInt n ofNat bytes) := by
  rw [readUInt]
  split
  · trivial
  · exact hE _

theorem ends_tooShort {α : Type} {P : α → Prop} (hE : ∀ e, E (.error e)) :
    Ends E P (tooShort content) := hE _

theorem ends_sliceFrom (h : i ≤ content.length) :
    Ends E (fun s => s.length = content.length - i) (sliceFrom content i) := by
  rw [sliceFrom, if_pos h]
  exact List.length_drop

theorem ends_index (h : i < content.length) :
    Ends E (fun b => b = content.getD i 0) (index content i) := by
  rw [index, List.getElem?_eq_getElem h]
  exact (List.getD_eq_getElem content 0 h).symm

/-- A codec is read, or is unknown: then the byte to show has to be there. -/
theorem ends_readCodec {shown : Nat} (hE : ∀ e, E (.error e)) (h : i < content.length)
    (hshown : shown < content.length ∨ (CodecType.fromU8 (content.getD i 0) = none → E .panic)) :
    Ends E (fun _ => True) (AudioData.readCodec content i shown) := by
  rw [AudioData.readCodec]
  refine (ends_index h).bind fun c hc => ?_
  cases hcodec : CodecType.fromU8 c with
  | some codec => trivial
  | none =>
      cases hshown with
      | inl hlt => exact (ends_index hlt).bind fun _ _ => hE _
      | inr hpanic =>
          rw [hc] at hcodec
          show Ends E _ (index content shown >>= fun c => .error (.error (.invalidCodec c)))
          rw [index]
          cases content[shown]? with
          | some b => exact hE _
          | none => exact hpanic hcodec

/-- Reading gives what a packet can hold, and panics at most there. -/
theorem parse_ends (t : PacketType) (np : Bool) (dir : Direction) (content : List UInt8) :
    Ends (fun e => e = .panic → Panics dir content) WellFormed
      (AudioData.parse t np dir content) := by
  have hE : ∀ e, Failure.error e = .panic → Panics dir content := fun e h => by cases h
  -- On what a client sends, the codec is at 2 and the byte to show at 4.
  have hshown : ¬dir = .s2c → ¬content.length < 3 → 4 < content.length ∨
      (CodecType.fromU8 (content.getD 2 0) = none →
        Failure.panic = .panic → Panics dir content) := by
    intro hdir hlen
    cases Nat.lt_or_ge 4 content.length with
    | inl hlt => exact .inl hlt
    | inr hge =>
        refine .inr fun hnone _ => ⟨?_, by omega, by omega, hnone⟩
        cases dir with
        | s2c => exact absurd rfl hdir
        | c2s => rfl
  -- The four forms: from the server or from a client, whispered or not.
  refine (ends_readUInt hE 2 UInt16.ofNat content).bind fun id _ => ?_
  refine .ite (fun _ => .ite (fun _ => .ite (fun _ => ends_tooShort hE) fun hlen => ?_)
    fun hdir => .ite (fun _ => ends_tooShort hE) fun hlen => ?_)
    fun _ => .ite (fun _ => .ite (fun _ => ends_tooShort hE) fun hlen => ?_)
    fun hdir => .ite (fun _ => ends_tooShort hE) fun hlen => ?_
  · refine (ends_sliceFrom (by omega)).bind fun _ _ => (ends_readUInt hE ..).bind fun _ _ => ?_
    refine (ends_readCodec hE (by omega) (.inl (by omega))).bind fun _ _ => ?_
    exact (ends_sliceFrom (by omega)).bind fun _ _ => trivial
  · refine (ends_readCodec hE (by omega) (hshown hdir hlen)).bind fun _ _ => ?_
    exact (ends_sliceFrom (by omega)).bind fun _ _ => trivial
  · refine (ends_sliceFrom (by omega)).bind fun _ _ => (ends_readUInt hE ..).bind fun _ _ => ?_
    refine (ends_readCodec hE (by omega) (.inl (by omega))).bind fun _ _ => ?_
    exact (ends_sliceFrom (by omega)).bind fun _ _ => trivial
  · refine (ends_readCodec hE (by omega) (hshown hdir hlen)).bind fun _ _ => ?_
    refine .ite (fun _ => .ite (fun _ => ends_tooShort hE) fun hlong => ?_)
      fun _ => .ite (fun _ => ends_tooShort hE) fun hlong => ?_
    · refine (ends_index (by omega)).bind fun _ _ => (ends_index (by omega)).bind fun _ _ => ?_
      refine (ends_sliceFrom (by omega)).bind fun _ _ => (ends_readUInt hE ..).bind fun _ _ => ?_
      refine (ends_sliceFrom (by omega)).bind fun data hdata => ?_
      intro hnil
      rw [hnil, List.length_nil] at hdata
      omega
    -- Both lengths are checked together, so every element of the two lists is there.
    · refine (ends_index (by omega)).bind fun channelCount _ => ?_
      refine (ends_index (by omega)).bind fun clientCount _ => ?_
      refine .ite (fun _ => ends_tooShort hE) fun hoff => ?_
      have hchannelCount := channelCount.toNat_lt
      have hclientCount := clientCount.toNat_lt
      refine (Ends.mapM (Q := fun _ => True) fun k hk => ?_).bind fun channels hchannels => ?_
      · have hlt := List.mem_range.mp hk
        exact (ends_sliceFrom (by omega)).bind fun _ _ => ends_readUInt hE ..
      refine (Ends.mapM (Q := fun _ => True) fun k hk => ?_).bind fun clients hclients => ?_
      · have hlt := List.mem_range.mp hk
        exact (ends_sliceFrom (by omega)).bind fun _ _ => ends_readUInt hE ..
      refine (ends_sliceFrom (by omega)).bind fun _ _ => ?_
      rw [List.length_range] at hchannels hclients
      exact ⟨by omega, by omega⟩

end Contents

/-- Reading a voice packet panics on a content of three or four bytes with an unknown codec, from a
client, and nowhere else. -/
theorem parse_panics_iff (t : PacketType) (np : Bool) (dir : Direction) (content : List UInt8) :
    AudioData.parse t np dir content = .error .panic ↔ Panics dir content := by
  constructor
  · intro h
    exact (parse_ends t np dir content).of_error h rfl
  · rintro ⟨rfl, hlen, hshort, hcodec⟩
    have hid : ∃ id, readU16 content = .ok id := by
      rw [readU16, readUInt]
      cases hread : readBe 2 content with
      | some v => exact ⟨_, rfl⟩
      | none => exact absurd (readBe_eq_none_iff.mp hread) (by omega)
    have hpanic : AudioData.readCodec content 2 4 = .error .panic := by
      have hindex : index content 2 = .ok (content.getD 2 0) := by
        rw [index, List.getElem?_eq_getElem (by omega), List.getD_eq_getElem content 0 (by omega)]
      have hnone : index content 4 = .error .panic := by
        rw [index, List.getElem?_eq_none (by omega)]
      rw [AudioData.readCodec, hindex, ok_bind, hcodec]
      simp only [hnone, error_bind]
    obtain ⟨id, hid⟩ := hid
    have h3 : ¬content.length < 3 := by omega
    simp only [AudioData.parse, hid, ok_bind, h3, hpanic, error_bind, if_false, reduceCtorEq,
      ite_self]

/-- A voice packet is read as it was written, if and only if the packet can hold what was
written. -/
theorem intoAudio_outAudio_iff (d : AudioData) :
    (InPacket.tryNew d.direction (outAudio d).data >>= InPacket.intoAudio) = .ok d ↔
      WellFormed d := by
  obtain ⟨q, hq, hdir, hflags, htype, hcontent⟩ :=
    tryNew_newWithDir d.direction d.flags d.packetType d.bytes
  have hread : (InPacket.tryNew d.direction (outAudio d).data >>= InPacket.intoAudio) =
      AudioData.parse d.packetType d.flags.newprotocol d.direction d.bytes := by
    rw [outAudio, hq, ok_bind, InPacket.intoAudio, hflags, htype, hdir, hcontent]
  rw [hread]
  constructor
  · exact fun h => (parse_ends ..).of_ok h
  · exact parse_bytes d

end Nek0.Proofs.Protocol
