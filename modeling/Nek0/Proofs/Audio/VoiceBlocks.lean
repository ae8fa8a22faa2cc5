import Nek0.Audio.Sending
import Nek0.Lib.Blocks

/-!
# `Nek0.Proofs.Audio.VoiceBlocks`: sending works block by block

`sent_of_chunks`: however the microphone's samples are cut into chunks, the packets are the
encodings of the voiced blocks of the whole input, in order. A block is `voiced` if the voice
detection is off or one of the last eleven blocks, itself included, is loud.

`sendAudio_eq` takes the chunks away: a chunk is a fold of `sendBlock` over the blocks that it
completes. The rest is an induction over the blocks, with the invariant `Encoded`. Its main part
says which blocks the hold count is above which number for.
-/

set_option autoImplicit false

namespace Nek0.Proofs.Audio

open Nek0.Audio
open Nek0.Lib.Blocks

variable {Enc Con : Type}

/-! ### The specification -/

/-- Block `i` is to be sent. -/
def voiced (m : MicState Enc) (bs : List (List Float32)) (i : Nat) : Bool :=
  !m.vadEnabled ||
    (List.range (i + 1)).any fun j => decide (i ≤ j + 10) && m.loud (bs.getD j [])

/-- The blocks to be sent. -/
def voicedBlocks (m : MicState Enc) (bs : List (List Float32)) : List (List Float32) :=
  ((List.range bs.length).filter (voiced m bs)).map fun i => bs.getD i []

/-- The encoder after some frames. -/
def encoderAfter (b : Backend Enc Con) (encoder : Enc) (frames : List (List Float32)) : Enc :=
  frames.foldl (fun e frame => (b.encode e frame).1) encoder

/-- The encodings of some frames, one after the other. -/
def encodings (b : Backend Enc Con) (encoder : Enc) : List (List Float32) → List (List UInt8)
  | [] => []
  | frame :: frames =>
    let r := b.encode encoder frame
    r.2.toOption.toList ++ encodings b r.1 frames

/-- The packets of some encodings: the sequence numbers count on from `seq`. -/
def packets (seq : UInt16) (datas : List (List UInt8)) : List OutAudio :=
  datas.zipIdx.map fun (data, k) => { id := seq + UInt16.ofNat k, data := data }

/-! ### A chunk is a fold over blocks -/

/-- The encoder is there and never fails. -/
def Encodes (b : Backend Enc Con) (m : MicState Enc) : Prop :=
  (∃ encoder, m.audioEncoder = some encoder) ∧
    ∀ encoder frame, ∃ data, (b.encode encoder frame).2 = .ok data

/-- Other samples in `pcm_in`. -/
def withPcm (pcm : List Float32) (s : Sender Enc Con) : Sender Enc Con :=
  { s with state := { s.state with pcmIn := pcm } }

variable {b : Backend Enc Con}

/-- A block that is encoded goes out amplified, under the number of the moment. -/
theorem encodeFrame_eq {m : MicState Enc} {encoder : Enc} {data : List UInt8}
    {frame : List Float32} (hencoder : m.audioEncoder = some encoder)
    (hdata : (b.encode encoder (gained m.micGain frame)).2 = .ok data) :
    m.encodeFrame b frame =
      ({ m with
          audioEncoder := some (b.encode encoder (gained m.micGain frame)).1
          audioSeq := m.audioSeq + 1 },
        some { id := m.audioSeq, data := data }) := by
  unfold MicState.encodeFrame
  simp [hencoder, hdata]

/-- The hold count is all that the voice detection changes. -/
theorem vadDrop_fst (m : MicState Enc) (frame : List Float32) :
    (m.vadDrop frame).1 = { m with vadHold := (m.vadDrop frame).1.vadHold } := by
  unfold MicState.vadDrop
  split
  · split
    · rfl
    · split <;> rfl
  · rfl

/-- A dropped frame. -/
theorem sendBlock_of_drop {s : Sender Enc Con} {frame : List Float32}
    (hdrop : (s.state.vadDrop frame).2 = true) :
    s.sendBlock b frame = { s with state := (s.state.vadDrop frame).1 } := by
  unfold Sender.sendBlock MicState.encodeResult
  simp [hdrop]

/-- A frame that is sent: the packet and the new state of the sender. -/
theorem sendBlock_of_send {s : Sender Enc Con} {frame : List Float32} {encoder : Enc}
    {data : List UInt8} (hsend : (s.state.vadDrop frame).2 = false)
    (hencoder : s.state.audioEncoder = some encoder)
    (hdata : (b.encode encoder (gained s.state.micGain frame)).2 = .ok data) :
    s.sendBlock b frame =
      { s with state := { (s.state.vadDrop frame).1 with
          audioEncoder := some (b.encode encoder (gained s.state.micGain frame)).1
          audioSeq := s.state.audioSeq + 1 } }.sendPacket b
        { id := s.state.audioSeq, data := data } := by
  have hstate := vadDrop_fst s.state frame
  have hencoder' : (s.state.vadDrop frame).1.audioEncoder = some encoder := by
    rw [hstate]
    exact hencoder
  have hgain : (s.state.vadDrop frame).1.micGain = s.state.micGain := by rw [hstate]
  have hseq : (s.state.vadDrop frame).1.audioSeq = s.state.audioSeq := by rw [hstate]
  have hframe := encodeFrame_eq hencoder' (hgain.symm ▸ hdata)
  unfold Sender.sendBlock MicState.encodeResult
  simp only [hsend, Bool.false_eq_true, if_false]
  rw [hframe, hgain, hseq]

/-- Sending does not look at what waits in `pcm_in`. -/
theorem sendPacket_withPcm (s : Sender Enc Con) (pcm : List Float32) (packet : OutAudio) :
    (withPcm pcm s).sendPacket b packet = withPcm pcm (s.sendPacket b packet) := by
  unfold Sender.sendPacket withPcm
  simp only
  split <;> rfl

/-- Nor does the gate. -/
theorem vadDrop_withPcm (s : Sender Enc Con) (pcm frame : List Float32) :
    (withPcm pcm s).state.vadDrop frame =
      ({ (s.state.vadDrop frame).1 with pcmIn := pcm }, (s.state.vadDrop frame).2) := by
  unfold MicState.vadDrop withPcm MicState.loud
  simp only
  split
  · split
    · rfl
    · split <;> rfl
  · rfl

/-- A round does not look at the samples that are left. -/
theorem sendBlock_withPcm {s : Sender Enc Con} (h : Encodes b s.state) (pcm frame : List Float32) :
    (withPcm pcm s).sendBlock b frame = withPcm pcm (s.sendBlock b frame) := by
  have hvad := vadDrop_withPcm s pcm frame
  obtain ⟨⟨encoder, hencoder⟩, htotal⟩ := h
  obtain ⟨data, hdata⟩ := htotal encoder (gained s.state.micGain frame)
  cases hdrop : (s.state.vadDrop frame).2 with
  | true =>
      have hdrop' : ((withPcm pcm s).state.vadDrop frame).2 = true := by rw [hvad, hdrop]
      rw [sendBlock_of_drop hdrop, sendBlock_of_drop hdrop', hvad]
      rfl
  | false =>
      have hsend' : ((withPcm pcm s).state.vadDrop frame).2 = false := by rw [hvad, hdrop]
      rw [sendBlock_of_send hdrop hencoder hdata, sendBlock_of_send hsend' hencoder hdata,
        ← sendPacket_withPcm, hvad]
      rfl

/-- Sending a packet changes `voice_active` and the connection, and appends to what was sent. -/
theorem sendPacket_eq (s : Sender Enc Con) (packet : OutAudio) :
    ∃ active con, s.sendPacket b packet =
      { state := { s.state with voiceActive := active }
        con := con
        sent := s.sent ++ [packet] } := by
  unfold Sender.sendPacket
  simp only
  split
  · exact ⟨true, _, rfl⟩
  · exact ⟨s.state.voiceActive, _, rfl⟩

/-- A round keeps the encoder working. -/
theorem encodes_sendBlock {s : Sender Enc Con} (h : Encodes b s.state) (frame : List Float32) :
    Encodes b (s.sendBlock b frame).state := by
  have htotal := h.2
  obtain ⟨encoder, hencoder⟩ := h.1
  obtain ⟨data, hdata⟩ := htotal encoder (gained s.state.micGain frame)
  refine ⟨?_, htotal⟩
  cases hdrop : (s.state.vadDrop frame).2 with
  | true =>
      rw [sendBlock_of_drop hdrop, vadDrop_fst]
      exact ⟨encoder, hencoder⟩
  | false =>
      rw [sendBlock_of_send hdrop hencoder hdata]
      obtain ⟨active, con, hsent⟩ := sendPacket_eq (b := b) _ _
      rw [hsent]
      exact ⟨_, rfl⟩

/-- So do many rounds, whatever waits. -/
theorem foldl_withPcm {s : Sender Enc Con} (h : Encodes b s.state) (pcm : List Float32)
    (bs : List (List Float32)) :
    bs.foldl (Sender.sendBlock b) (withPcm pcm s) =
      withPcm pcm (bs.foldl (Sender.sendBlock b) s) := by
  induction bs generalizing s with
  | nil => rfl
  | cons frame bs ih =>
      rw [List.foldl_cons, List.foldl_cons, sendBlock_withPcm h]
      exact ih (encodes_sendBlock h frame)

/-- And they keep it working. -/
theorem encodes_foldl {s : Sender Enc Con} (h : Encodes b s.state) (bs : List (List Float32)) :
    Encodes b (bs.foldl (Sender.sendBlock b) s).state := by
  induction bs generalizing s with
  | nil => exact h
  | cons frame bs ih => exact ih (encodes_sendBlock h frame)

theorem sendFrame_pos : 0 < sendFrame := by decide

/-- The loop sends the blocks of `pcm_in` and leaves the rest there. -/
theorem sendLoop_eq {s : Sender Enc Con} (h : Encodes b s.state) :
    s.sendLoop b = withPcm (rest sendFrame s.state.pcmIn)
      ((blocks sendFrame s.state.pcmIn).foldl (Sender.sendBlock b) s) := by
  induction hn : s.state.pcmIn.length using Nat.strong_induction_on generalizing s with
  | _ n ih =>
  rw [Sender.sendLoop]
  by_cases hlt : s.state.pcmIn.length < sendFrame
  · rw [if_pos hlt, blocks_of_lt hlt, rest_of_lt hlt]
    rfl
  · have hle : sendFrame ≤ s.state.pcmIn.length := Nat.le_of_not_lt hlt
    let pcm := s.state.pcmIn.drop sendFrame
    let frame := s.state.pcmIn.take sendFrame
    -- The next round starts from the state after the first frame, with the samples behind it.
    have hround : s.drainFrame.sendBlock b frame = withPcm pcm (s.sendBlock b frame) :=
      sendBlock_withPcm h pcm frame
    have hnext : Encodes b (withPcm pcm (s.sendBlock b frame)).state := by
      have h' := encodes_sendBlock h frame
      exact ⟨h'.1, h'.2⟩
    have hpcm : (withPcm pcm (s.sendBlock b frame)).state.pcmIn = pcm := rfl
    have hshorter : (withPcm pcm (s.sendBlock b frame)).state.pcmIn.length < n := by
      have hpos := sendFrame_pos
      rw [hpcm, List.length_drop]
      omega
    rw [if_neg hlt, hround, ih _ hshorter hnext rfl, hpcm,
      foldl_withPcm (encodes_sendBlock h frame), blocks_of_le sendFrame_pos hle,
      rest_of_le sendFrame_pos hle]
    rfl

/-- `ts_send_audio` sends the whole blocks, and keeps the rest. -/
theorem sendAudio_eq {s : Sender Enc Con} (h : Encodes b s.state) (data : List Float32) :
    s.sendAudio b data = withPcm (rest sendFrame (s.state.pcmIn ++ data))
      ((blocks sendFrame (s.state.pcmIn ++ data)).foldl (Sender.sendBlock b) s) := by
  have h' : Encodes b (withPcm (s.state.pcmIn ++ data) s).state := ⟨h.1, h.2⟩
  have hloop := sendLoop_eq h'
  rw [foldl_withPcm h] at hloop
  exact hloop

/-- The chunks send the blocks of the whole input. -/
theorem sendAudios_eq {s : Sender Enc Con} (h : Encodes b s.state)
    (hshort : s.state.pcmIn.length < sendFrame) (chunks : List (List Float32)) :
    chunks.foldl (Sender.sendAudio b) s =
      withPcm (rest sendFrame (s.state.pcmIn ++ chunks.flatten))
        ((blocks sendFrame (s.state.pcmIn ++ chunks.flatten)).foldl (Sender.sendBlock b) s) := by
  induction chunks generalizing s with
  | nil =>
      rw [List.flatten_nil, List.append_nil, blocks_of_lt hshort, rest_of_lt hshort]
      rfl
  | cons data chunks ih =>
      have hfirst := sendAudio_eq h data
      have hmid := encodes_foldl h (blocks sendFrame (s.state.pcmIn ++ data))
      have hpcm : (s.sendAudio b data).state.pcmIn = rest sendFrame (s.state.pcmIn ++ data) := by
        rw [hfirst]
        rfl
      have hnext : Encodes b (s.sendAudio b data).state := by
        rw [hfirst]
        exact ⟨hmid.1, hmid.2⟩
      have hrest := length_rest_lt sendFrame_pos (s.state.pcmIn ++ data)
      rw [List.foldl_cons, ih hnext (hpcm ▸ hrest), hpcm, hfirst, foldl_withPcm hmid,
        ← List.foldl_append, ← blocks_append sendFrame_pos, ← rest_append sendFrame_pos,
        List.flatten_cons, List.append_assoc]
      rfl

/-! ### The hold count -/

/-- `hold` is what the blocks so far leave in the hold count: it is above `d` if and only if a block
within the last `10 - d` is loud. -/
def Holds (m : MicState Enc) (bs : List (List Float32)) (hold : Nat) : Prop :=
  ∀ d, d < hold ↔ ∃ j < bs.length, m.loud (bs.getD j []) = true ∧ bs.length + d < j + 11

theorem getD_concat_of_lt {bs : List (List Float32)} {j : Nat} (h : j < bs.length)
    (frame : List Float32) : (bs ++ [frame]).getD j [] = bs.getD j [] := by
  rw [List.getD_eq_getElem?_getD, List.getD_eq_getElem?_getD, List.getElem?_append_left h]

theorem getD_concat_length (bs : List (List Float32)) (frame : List Float32) :
    (bs ++ [frame]).getD bs.length [] = frame := by simp

/-- A loud block fills the hold count. -/
theorem holds_concat_loud {m : MicState Enc} (bs : List (List Float32)) {frame : List Float32}
    (hloud : m.loud frame = true) : Holds m (bs ++ [frame]) 10 := by
  intro d
  rw [List.length_append, List.length_singleton]
  constructor
  · intro hd
    refine ⟨bs.length, by omega, ?_, by omega⟩
    rw [getD_concat_length]
    exact hloud
  · rintro ⟨j, hj, -, hlt⟩
    omega

/-- Any other block takes one from it. -/
theorem holds_concat_quiet {m : MicState Enc} {bs : List (List Float32)} {hold : Nat}
    (h : Holds m bs hold) {frame : List Float32} (hquiet : m.loud frame = false) :
    Holds m (bs ++ [frame]) (hold - 1) := by
  intro d
  have hd := h (d + 1)
  rw [List.length_append, List.length_singleton]
  constructor
  · intro hlt
    obtain ⟨j, hj, hloud, hbound⟩ := hd.mp (by omega)
    refine ⟨j, by omega, ?_, by omega⟩
    rw [getD_concat_of_lt hj]
    exact hloud
  · rintro ⟨j, hj, hloud, hbound⟩
    -- The new block is not the loud one.
    have hne : j ≠ bs.length := by
      rintro rfl
      rw [getD_concat_length, hquiet] at hloud
      exact Bool.false_ne_true hloud
    have hj' : j < bs.length := by omega
    rw [getD_concat_of_lt hj'] at hloud
    have hlt := hd.mpr ⟨j, hj', hloud, by omega⟩
    omega

/-- The next block is voiced if it is loud or the hold count is not used up. -/
theorem voiced_concat_iff {m : MicState Enc} {bs : List (List Float32)} {hold : Nat}
    (henabled : m.vadEnabled = true) (h : Holds m bs hold) (frame : List Float32) :
    voiced m (bs ++ [frame]) bs.length = true ↔ m.loud frame = true ∨ 0 < hold := by
  simp only [voiced, henabled, Bool.not_true, Bool.false_or, List.any_eq_true, List.mem_range,
    Bool.and_eq_true, decide_eq_true_eq]
  rw [h 0]
  constructor
  · rintro ⟨j, hj, hbound, hloud⟩
    by_cases hlast : j = bs.length
    · subst hlast
      rw [getD_concat_length] at hloud
      exact .inl hloud
    · have hj' : j < bs.length := by omega
      rw [getD_concat_of_lt hj'] at hloud
      exact .inr ⟨j, hj', hloud, by omega⟩
  · rintro (hloud | ⟨j, hj, hloud, hbound⟩)
    · exact ⟨bs.length, by omega, by omega, by rw [getD_concat_length]; exact hloud⟩
    · exact ⟨j, by omega, by omega, by rw [getD_concat_of_lt hj]; exact hloud⟩

/-! ### The blocks, one after the other -/

/-- A later block does not change whether an earlier one is voiced. -/
theorem voiced_concat_of_lt {m : MicState Enc} {bs : List (List Float32)} {i : Nat}
    (hi : i < bs.length) (frame : List Float32) :
    voiced m (bs ++ [frame]) i = voiced m bs i := by
  rw [voiced, voiced]
  congr 1
  rw [Bool.eq_iff_iff, List.any_eq_true, List.any_eq_true]
  refine exists_congr fun j => and_congr_right fun hj => ?_
  have hle := List.mem_range.mp hj
  rw [getD_concat_of_lt (by omega)]

/-- One more block adds itself, if it is voiced. -/
theorem voicedBlocks_concat (m : MicState Enc) (bs : List (List Float32)) (frame : List Float32) :
    voicedBlocks m (bs ++ [frame]) = voicedBlocks m bs ++
      if voiced m (bs ++ [frame]) bs.length = true then [frame] else [] := by
  have hold : (List.range bs.length).filter (voiced m (bs ++ [frame])) =
      (List.range bs.length).filter (voiced m bs) :=
    List.filter_congr fun i hi => voiced_concat_of_lt (List.mem_range.mp hi) frame
  have hmap :
      ((List.range bs.length).filter (voiced m bs)).map (fun i => (bs ++ [frame]).getD i []) =
      voicedBlocks m bs :=
    List.map_congr_left fun i hi =>
      getD_concat_of_lt (List.mem_range.mp (List.mem_filter.mp hi).1) frame
  rw [voicedBlocks, List.length_append, List.length_singleton, List.range_succ,
    List.filter_append, List.map_append, hold, hmap]
  congr 1
  by_cases hv : voiced m (bs ++ [frame]) bs.length = true
  · rw [if_pos hv, List.filter_cons_of_pos hv]
    simp
  · rw [if_neg hv, List.filter_cons_of_neg hv]
    rfl

/-- One block more is encoded behind the others. -/
theorem encodings_concat (encoder : Enc) (frames : List (List Float32)) (frame : List Float32) :
    encodings b encoder (frames ++ [frame]) = encodings b encoder frames ++
      (b.encode (encoderAfter b encoder frames) frame).2.toOption.toList := by
  induction frames generalizing encoder with
  | nil => simp [encodings, encoderAfter]
  | cons f frames ih =>
      rw [List.cons_append, encodings, encodings, ih, List.append_assoc]
      rfl

/-- The encoder behind one block more. -/
theorem encoderAfter_concat (encoder : Enc) (frames : List (List Float32)) (frame : List Float32) :
    encoderAfter b encoder (frames ++ [frame]) =
      (b.encode (encoderAfter b encoder frames) frame).1 := by
  rw [encoderAfter, List.foldl_append]
  rfl

/-- An encoder that never fails gives one encoding for each frame. -/
theorem length_encodings (htotal : ∀ encoder frame, ∃ data, (b.encode encoder frame).2 = .ok data)
    (encoder : Enc) (frames : List (List Float32)) :
    (encodings b encoder frames).length = frames.length := by
  induction frames generalizing encoder with
  | nil => rfl
  | cons frame frames ih =>
      obtain ⟨data, hdata⟩ := htotal encoder frame
      rw [encodings, hdata, List.length_append, ih, List.length_cons, Nat.add_comm]
      rfl

theorem packets_concat (seq : UInt16) (datas : List (List UInt8)) (data : List UInt8) :
    packets seq (datas ++ [data]) =
      packets seq datas ++ [{ id := seq + UInt16.ofNat datas.length, data := data }] := by
  simp [packets, List.zipIdx_append]

/-- The sender after the blocks `bs`, from the state `m` with the encoder `encoder` and the packets
`sent`. -/
structure Encoded (b : Backend Enc Con) (m : MicState Enc) (encoder : Enc) (sent : List OutAudio)
    (bs : List (List Float32)) (s : Sender Enc Con) : Prop where
  enabled : s.state.vadEnabled = m.vadEnabled
  threshold : s.state.vadThreshold = m.vadThreshold
  gain : s.state.micGain = m.micGain
  hold : m.vadEnabled = true → Holds m bs s.state.vadHold.toNat
  audioEncoder : s.state.audioEncoder =
    some (encoderAfter b encoder ((voicedBlocks m bs).map (gained m.micGain)))
  audioSeq : s.state.audioSeq = m.audioSeq + UInt16.ofNat (voicedBlocks m bs).length
  sent : s.sent = sent ++
    packets m.audioSeq (encodings b encoder ((voicedBlocks m bs).map (gained m.micGain)))

variable {m : MicState Enc} {encoder : Enc} {sent : List OutAudio} {bs : List (List Float32)}
  {s : Sender Enc Con}

/-- The voice detection drops what is not voiced, and the hold count goes on. -/
theorem vadDrop_spec (h : Encoded b m encoder sent bs s) (frame : List Float32) :
    (s.state.vadDrop frame).2 = !voiced m (bs ++ [frame]) bs.length ∧
      (m.vadEnabled = true → Holds m (bs ++ [frame]) (s.state.vadDrop frame).1.vadHold.toNat) := by
  have hloud : s.state.loud frame = m.loud frame := by
    rw [MicState.loud, MicState.loud, h.threshold]
  unfold MicState.vadDrop
  rw [h.enabled, hloud]
  cases henabled : m.vadEnabled with
  | false => simp [voiced, henabled]
  | true =>
      have hvoiced := voiced_concat_iff henabled (h.hold henabled) frame
      rw [if_pos rfl]
      cases hframe : m.loud frame with
      | true =>
          have hv := hvoiced.mpr (.inl hframe)
          rw [if_pos rfl, hv]
          exact ⟨rfl, fun _ => holds_concat_loud bs hframe⟩
      | false =>
          have hquiet := holds_concat_quiet (h.hold henabled) hframe
          rw [if_neg Bool.false_ne_true]
          by_cases hpos : s.state.vadHold > 0
          · have hpos' : 0 < s.state.vadHold.toNat := hpos
            have hv := hvoiced.mpr (.inr hpos')
            have hsub : (s.state.vadHold - 1).toNat = s.state.vadHold.toNat - 1 :=
              UInt32.toNat_sub_of_le _ _ (UInt32.le_iff_toNat_le.mpr hpos')
            rw [if_pos hpos, hv]
            refine ⟨rfl, fun _ => ?_⟩
            rw [hsub]
            exact hquiet
          · have hzero : s.state.vadHold.toNat = 0 := Nat.eq_zero_of_not_pos hpos
            have hv : voiced m (bs ++ [frame]) bs.length = false := by
              rw [← Bool.not_eq_true, hvoiced, hframe]
              exact fun hor => hor.elim Bool.false_ne_true hpos
            rw [if_neg hpos, hv]
            refine ⟨rfl, fun _ => ?_⟩
            rw [hzero] at hquiet ⊢
            exact hquiet

/-- One block keeps the invariant. -/
theorem encoded_sendBlock (h : Encoded b m encoder sent bs s)
    (htotal : ∀ encoder frame, ∃ data, (b.encode encoder frame).2 = .ok data)
    (frame : List Float32) :
    Encoded b m encoder sent (bs ++ [frame]) (s.sendBlock b frame) := by
  -- The gate drops the block if and only if it is not voiced.
  obtain ⟨hdrop, hhold⟩ := vadDrop_spec h frame
  have hblocks := voicedBlocks_concat m bs frame
  cases hv : voiced m (bs ++ [frame]) bs.length with
  | false =>
      -- A dropped block changes the hold count only.
      rw [hv, if_neg Bool.false_ne_true, List.append_nil] at hblocks
      rw [sendBlock_of_drop (hdrop.trans (congrArg not hv))]
      constructor
      · rw [vadDrop_fst]
        exact h.enabled
      · rw [vadDrop_fst]
        exact h.threshold
      · rw [vadDrop_fst]
        exact h.gain
      · exact hhold
      · rw [vadDrop_fst, hblocks]
        exact h.audioEncoder
      · rw [vadDrop_fst, hblocks]
        exact h.audioSeq
      · rw [hblocks]
        exact h.sent
  | true =>
      rw [hv, if_pos rfl] at hblocks
      -- A voiced block is amplified, encoded and sent under the next number.
      have hgained : gained s.state.micGain frame = gained m.micGain frame := by rw [h.gain]
      obtain ⟨data, hdata⟩ := htotal
        (encoderAfter b encoder ((voicedBlocks m bs).map (gained m.micGain)))
        (gained m.micGain frame)
      have hsend := sendBlock_of_send (hdrop.trans (congrArg not hv)) h.audioEncoder
        (hgained ▸ hdata)
      obtain ⟨active, con, hpacket⟩ := sendPacket_eq (b := b) _ _
      rw [hsend, hpacket, vadDrop_fst]
      constructor
      · exact h.enabled
      · exact h.threshold
      · exact h.gain
      · exact hhold
      · show some _ = some _
        rw [hblocks, List.map_append, List.map_singleton, encoderAfter_concat, hgained]
      · show s.state.audioSeq + 1 = _
        rw [hblocks, h.audioSeq, List.length_append, UInt16.ofNat_add, UInt16.add_assoc]
        rfl
      · show s.sent ++ [_] = _
        rw [hblocks, List.map_append, List.map_singleton, encodings_concat, hdata, h.sent,
          List.append_assoc]
        congr 1
        show _ = packets _ (_ ++ [data])
        rw [packets_concat, length_encodings htotal, List.length_map, h.audioSeq]

/-- The blocks are sent one by one. -/
theorem encoded_foldl (htotal : ∀ encoder frame, ∃ data, (b.encode encoder frame).2 = .ok data)
    (hencoder : s.state.audioEncoder = some encoder) (hhold : s.state.vadHold = 0)
    (bs : List (List Float32)) :
    Encoded b s.state encoder s.sent bs (bs.foldl (Sender.sendBlock b) s) := by
  induction bs using List.reverseRecOn with
  | nil =>
      constructor
      · rfl
      · rfl
      · rfl
      · intro _ d
        simp [hhold]
      · exact hencoder
      · simp [voicedBlocks]
      · simp [voicedBlocks, encodings, packets]
  | append_singleton bs frame ih =>
      rw [List.foldl_append]
      exact encoded_sendBlock ih htotal frame

/-- The packets are the encodings of the voiced blocks of the whole input, with consecutive sequence
numbers, and less than one frame is kept. -/
theorem sent_of_chunks {s : Sender Enc Con} {encoder : Enc}
    (hencoder : s.state.audioEncoder = some encoder)
    (htotal : ∀ encoder frame, ∃ data, (b.encode encoder frame).2 = .ok data)
    (hpcm : s.state.pcmIn = []) (hhold : s.state.vadHold = 0) (chunks : List (List Float32)) :
    let bs := blocks sendFrame chunks.flatten
    let frames := (voicedBlocks s.state bs).map (gained s.state.micGain)
    let s' := chunks.foldl (Sender.sendAudio b) s
    s'.sent = s.sent ++ packets s.state.audioSeq (encodings b encoder frames) ∧
      (encodings b encoder frames).length = (voicedBlocks s.state bs).length ∧
      s'.state.pcmIn = rest sendFrame chunks.flatten ∧ s'.state.pcmIn.length < sendFrame := by
  intro bs frames s'
  have hshort : s.state.pcmIn.length < sendFrame := by
    rw [hpcm]
    exact sendFrame_pos
  have heq := sendAudios_eq ⟨⟨encoder, hencoder⟩, htotal⟩ hshort chunks
  rw [hpcm, List.nil_append] at heq
  have hs' : s'.state.pcmIn = rest sendFrame chunks.flatten := congrArg (·.state.pcmIn) heq
  have hsent := (encoded_foldl htotal hencoder hhold bs).sent
  refine ⟨(congrArg Sender.sent heq).trans hsent, ?_, hs', ?_⟩
  · rw [length_encodings htotal, List.length_map]
  · rw [hs']
    exact length_rest_lt sendFrame_pos _

/-- An encoder that numbers its frames. -/
def numbering : Backend UInt8 Unit where
  newEncoder := some 0
  encode := fun n _ => (n + 1, .ok [n])
  sendAudio := fun _ _ => ((), .ok ())

/-- The microphone is started. -/
def started : Sender UInt8 Unit where
  state := (MicState.new.startAudio numbering).1
  con := ()
  sent := []

/-- 500 samples of silence. -/
def pause : List Float32 := List.replicate 500 0

theorem length_pauses : [pause, pause].flatten.length = 1000 := by
  rw [List.flatten_cons, List.flatten_singleton, List.length_append, pause, List.length_replicate]

/-- Two chunks of 500 samples make one packet, and 40 samples are kept. -/
theorem sent_two_chunks :
    let s' := [pause, pause].foldl (Sender.sendAudio numbering) started
    s'.sent = [{ id := 0, data := [0] }] ∧ s'.state.pcmIn.length = 40 := by
  intro s'
  obtain ⟨hsent, hlength, hrest, -⟩ := sent_of_chunks (b := numbering)
    (show started.state.audioEncoder = some 0 from rfl) (fun n _ => ⟨[n], rfl⟩) rfl rfl
    [pause, pause]
  constructor
  · have hone : (voicedBlocks started.state (blocks sendFrame [pause, pause].flatten)).length =
        1 := by
      rw [voicedBlocks, length_blocks, length_pauses]
      rfl
    rw [hone] at hlength
    -- One frame is encoded, whatever its samples are.
    generalize (voicedBlocks started.state _).map _ = frames at hsent hlength
    refine hsent.trans ?_
    cases frames with
    | nil => exact absurd hlength (by decide)
    | cons frame frames =>
        cases frames with
        | nil => rfl
        | cons frame' frames => simp [encodings, numbering, Except.toOption] at hlength
  · refine (congrArg List.length hrest).trans ?_
    rw [length_rest, length_pauses]
    rfl

end Nek0.Proofs.Audio
