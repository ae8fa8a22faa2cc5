import Nek0.Audio.Playback
import Nek0.Audio.Reception

/-!
# `Nek0.Proofs.Audio.Mixing`: one client's share of a playback step

The mixing callback and the packets of other clients touch other buffers too. This module gives
what they do to the talking client: `mix_buffer` and `mix_taken` reduce a mixed slot to one
`takeFrame`, and `otherPacket_buffer` says that another client's packet leaves it alone. The last
section does the same for the steps of a `Reception`.
-/

set_option autoImplicit false

namespace Nek0.Proofs.Audio

open Nek0.Audio
open Nek0.Native (Instant)

variable {Frame : Type}

/-! ### The fold over the snapshot -/

/-- The frames that a mixed slot took from one client. -/
abbrev share (id : UInt16) (r : List (UInt16 × Frame)) : List (UInt16 × Frame) :=
  r.filter fun x => x.1 == id

/-- Another client's turn leaves this client's buffer and share alone. -/
private theorem mixClient_of_ne {id clientId : UInt16} (hne : clientId ≠ id) (slot : UInt64)
    (st : AudioState Frame × List (UInt16 × Frame)) :
    (AudioState.mixClient slot st clientId).1.clientBuffers id = st.1.clientBuffers id ∧
      share id (AudioState.mixClient slot st clientId).2 = share id st.2 := by
  unfold AudioState.mixClient
  cases hbuf : st.1.clientBuffers clientId with
  | none => exact ⟨rfl, rfl⟩
  | some buf =>
      refine ⟨Function.update_of_ne (Ne.symm hne) _ _, ?_⟩
      cases (buf.takeFrame slot).2 <;> simp [share, List.filter_append, hne]

/-- The turns of other clients. -/
theorem foldl_mixClient_of_notMem {id : UInt16} (slot : UInt64) (ids : List UInt16)
    (hid : id ∉ ids) (st : AudioState Frame × List (UInt16 × Frame)) :
    (ids.foldl (AudioState.mixClient slot) st).1.clientBuffers id = st.1.clientBuffers id ∧
      share id (ids.foldl (AudioState.mixClient slot) st).2 = share id st.2 := by
  induction ids generalizing st with
  | nil => exact ⟨rfl, rfl⟩
  | cons clientId ids ih =>
      rw [List.mem_cons, not_or] at hid
      obtain ⟨h1, h2⟩ := mixClient_of_ne (Ne.symm hid.1) slot st
      obtain ⟨h3, h4⟩ := ih hid.2 (AudioState.mixClient slot st clientId)
      exact ⟨h3.trans h1, h4.trans h2⟩

/-- The client's own turn. -/
private theorem mixClient_self (id : UInt16) (slot : UInt64)
    (st : AudioState Frame × List (UInt16 × Frame)) :
    (AudioState.mixClient slot st id).1.clientBuffers id
        = (st.1.clientBuffers id).map (fun buf => (buf.takeFrame slot).1) ∧
      share id (AudioState.mixClient slot st id).2
        = share id st.2 ++ (((st.1.clientBuffers id).bind
            fun buf => (buf.takeFrame slot).2).map fun frame => (id, frame)).toList := by
  unfold AudioState.mixClient
  cases hbuf : st.1.clientBuffers id with
  | none => simp [hbuf]
  | some buf =>
      refine ⟨Function.update_self _ _ _, ?_⟩
      cases (buf.takeFrame slot).2 <;> simp [share, List.filter_append]

/-- A mixed slot takes exactly one `takeFrame` turn with each client of the snapshot. -/
theorem foldl_mixClient_of_mem {id : UInt16} (slot : UInt64) (ids : List UInt16)
    (hid : id ∈ ids) (hnodup : ids.Nodup) (st : AudioState Frame × List (UInt16 × Frame)) :
    (ids.foldl (AudioState.mixClient slot) st).1.clientBuffers id
        = (st.1.clientBuffers id).map (fun buf => (buf.takeFrame slot).1) ∧
      share id (ids.foldl (AudioState.mixClient slot) st).2
        = share id st.2 ++ (((st.1.clientBuffers id).bind
            fun buf => (buf.takeFrame slot).2).map fun frame => (id, frame)).toList := by
  induction ids generalizing st with
  | nil => exact absurd hid List.not_mem_nil
  | cons clientId ids ih =>
      rw [List.nodup_cons] at hnodup
      by_cases hself : clientId = id
      · subst hself
        obtain ⟨h1, h2⟩ := mixClient_self clientId slot st
        obtain ⟨h3, h4⟩ := foldl_mixClient_of_notMem slot ids hnodup.1
          (AudioState.mixClient slot st clientId)
        exact ⟨h3.trans h1, h4.trans h2⟩
      · have htail : id ∈ ids := (List.mem_cons.mp hid).resolve_left (Ne.symm hself)
        obtain ⟨h1, h2⟩ := mixClient_of_ne hself slot st
        obtain ⟨h3, h4⟩ := ih htail hnodup.2 (AudioState.mixClient slot st clientId)
        rw [List.foldl_cons, h3, h4, h1, h2]
        exact ⟨rfl, rfl⟩

/-! ### The playback steps -/

section
variable {st : Stream Frame} {p : Playback Frame}

/-- A mixed slot is one `takeFrame` on the talking client's buffer. -/
theorem mix_buffer {ids : List UInt16} (hid : st.client ∈ ids) (hnodup : ids.Nodup) :
    (p.mix st ids).buffer st
      = (p.buffer st).map fun buf => (buf.takeFrame (UInt64.ofNat p.nextSlot)).1 :=
  (foldl_mixClient_of_mem (UInt64.ofNat p.nextSlot) ids hid hnodup
    ({ p.audio with activeClientIds := ids }, [])).1

/-- What a mixed slot takes from the talking client. -/
theorem mix_taken {ids : List UInt16} (hid : st.client ∈ ids) (hnodup : ids.Nodup) :
    (p.mix st ids).taken = p.taken ++ (((p.buffer st).bind fun buf =>
      (buf.takeFrame (UInt64.ofNat p.nextSlot)).2).map fun frame =>
        (p.nextSlot, frame)).toList := by
  have h := (foldl_mixClient_of_mem (UInt64.ofNat p.nextSlot) ids hid hnodup
    ({ p.audio with activeClientIds := ids }, [])).2
  show p.taken ++ (share st.client _).map _ = _
  rw [AudioState.mixSlot, h]
  show _ ++ (([] : List (UInt16 × Frame)) ++ (((p.buffer st).bind _).map _).toList).map _ = _
  cases (p.buffer st).bind fun buf => (buf.takeFrame (UInt64.ofNat p.nextSlot)).2 <;> rfl

/-- A packet goes to the talking client's buffer, which is made at need. -/
theorem packet_buffer (played : UInt64) (now : Instant) :
    (p.packet st played now).buffer st
      = some (((p.buffer st).getD (.new (p.audio.inheritedGain st.client))).accept
          (played / frameSize) now (st.firstSeq + UInt16.ofNat p.sent) (st.frames p.sent)) :=
  Function.update_self _ _ _

/-- Another client's packet leaves the talking client's buffer alone. -/
theorem otherPacket_buffer {client : UInt16} (hne : client ≠ st.client) (seq : UInt16)
    (played : UInt64) (now : Instant) (decoded : Option Frame) :
    (p.otherPacket client seq played now decoded).buffer st = p.buffer st := by
  cases decoded with
  | none => rfl
  | some frame => exact Function.update_of_ne (Ne.symm hne) _ _

end

/-! ### The reception steps -/

section
variable {client : UInt16} {audio : AudioState (Numbered Frame)}

/-- A decoded packet goes to the client's buffer. -/
theorem decode_self (seq : UInt16) (played : UInt64) (now : Instant) (decoded : Option Frame) :
    (Reception.decode client seq played now decoded audio).clientBuffers client =
      match decoded with
      | none => audio.clientBuffers client
      | some frame => some ((Reception.entry client audio).accept (played / frameSize) now seq
          ⟨Reception.number client seq (played / frameSize) audio, frame⟩) := by
  cases decoded with
  | none => rfl
  | some frame => exact Function.update_self _ _ _

/-- Another client's packet leaves the client's buffer alone. -/
theorem decode_of_ne {from_ : UInt16} (hne : from_ ≠ client) (seq : UInt16) (played : UInt64)
    (now : Instant) (decoded : Option Frame) :
    (Reception.decode from_ seq played now decoded audio).clientBuffers client =
      audio.clientBuffers client := by
  cases decoded with
  | none => rfl
  | some frame => exact Function.update_of_ne (Ne.symm hne) _ _

/-- A mixed slot takes the client's turn, if the client is in the snapshot. -/
theorem mixSlot_buffer {ids : List UInt16} (hnodup : ids.Nodup) (slot : UInt64) :
    (({ audio with activeClientIds := ids }.mixSlot slot).1.clientBuffers client =
      if client ∈ ids then (audio.clientBuffers client).map fun buf => (buf.takeFrame slot).1
      else audio.clientBuffers client) ∧
    share client ({ audio with activeClientIds := ids }.mixSlot slot).2 =
      if client ∈ ids then (((audio.clientBuffers client).bind fun buf =>
        (buf.takeFrame slot).2).map fun frame => (client, frame)).toList
      else [] := by
  by_cases hid : client ∈ ids
  · rw [if_pos hid, if_pos hid]
    exact foldl_mixClient_of_mem slot ids hid hnodup ({ audio with activeClientIds := ids }, [])
  · rw [if_neg hid, if_neg hid]
    exact foldl_mixClient_of_notMem slot ids hid ({ audio with activeClientIds := ids }, [])

end

end Nek0.Proofs.Audio
