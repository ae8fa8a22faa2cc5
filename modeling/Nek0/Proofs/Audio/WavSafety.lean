import Nek0.Lib.Binary32
import Nek0.Proofs.Audio.WavFrames

/-!
# `Nek0.Proofs.Audio.WavSafety`: any file can be given to `parse_wav_pcm`

Whatever the bytes are, no access is out of range and the walk over the chunks comes to an end
(`parseWavPcm_ne_stuck`). What is returned has at most two seconds at 48 kHz, and lies within the
decoded samples (`parseWavPcm_bounded`). The decoding arithmetic is arbitrary here. The resampling
is over the rational numbers.

So what `ts_set_sfx_sample` installs is never empty and never too long
(`shortSamples_tsSetSfxSample`).
-/

set_option autoImplicit false

namespace Nek0.Proofs.Audio

open Nek0.Lib Nek0.Lib.LittleEndian Nek0.Lib.Blocks Nek0.Audio

variable {α β F : Type}

/-! ### No access out of range -/

/-- What is safe before and after is safe. -/
theorem bind_ne_stuck {p : Parsed α} {f : α → Parsed β} (hp : p ≠ .stuck)
    (hf : ∀ a, p = .ok a → f a ≠ .stuck) : (p >>= f) ≠ .stuck := by
  cases p with
  | ok a => exact hf a rfl
  | err e => exact nofun
  | stuck => exact absurd rfl hp

/-- A result comes through both halves. -/
theorem bind_eq_ok {p : Parsed α} {f : α → Parsed β} {b : β} (h : (p >>= f) = .ok b) :
    ∃ a, p = .ok a ∧ f a = .ok b := by
  cases p with
  | ok a => exact ⟨a, rfl, h⟩
  | err e => cases h
  | stuck => cases h

/-- A loop gets stuck only in a round. -/
theorem mapM_ne_stuck {f : α → Parsed β} {l : List α} (h : ∀ a ∈ l, f a ≠ .stuck) :
    l.mapM f ≠ .stuck := by
  induction l with
  | nil => exact nofun
  | cons a l ih =>
      rw [List.mapM_cons]
      refine bind_ne_stuck (h a List.mem_cons_self) fun b _ => ?_
      exact bind_ne_stuck (ih fun c hc => h c (List.mem_cons_of_mem a hc)) fun bs _ => nofun

theorem tryInto_ne_stuck (n : Nat) (bytes : List UInt8) (e : WavError) :
    tryInto n bytes e ≠ .stuck := by
  unfold tryInto
  split <;> exact nofun

theorem slice_ne_stuck {data : List UInt8} {a b : Nat} (hab : a ≤ b) (hb : b ≤ data.length) :
    slice data a b ≠ .stuck := by
  rw [slice_ok hab hb]
  exact nofun

theorem byteAt_ne_stuck {data : List UInt8} {i : Nat} (h : i < data.length) :
    byteAt data i ≠ .stuck := by
  rw [byteAt_ok h]
  exact nofun

/-- Reading the format does not get stuck. -/
theorem readFmt_ne_stuck (chunk : List UInt8) : readFmt chunk ≠ .stuck := by
  unfold readFmt
  split
  · exact nofun
  · rename_i hlong
    have hbyte : ∀ i < 16, byteAt chunk i ≠ .stuck := fun i hi => byteAt_ne_stuck (by omega)
    refine bind_ne_stuck (hbyte 0 (by decide)) fun _ _ => ?_
    refine bind_ne_stuck (hbyte 1 (by decide)) fun _ _ => ?_
    refine bind_ne_stuck (hbyte 2 (by decide)) fun _ _ => ?_
    refine bind_ne_stuck (hbyte 3 (by decide)) fun _ _ => ?_
    refine bind_ne_stuck (slice_ne_stuck (by decide) (by omega)) fun _ _ => ?_
    refine bind_ne_stuck (tryInto_ne_stuck _ _ _) fun _ _ => ?_
    refine bind_ne_stuck (hbyte 14 (by decide)) fun _ _ => ?_
    exact bind_ne_stuck (hbyte 15 (by decide)) fun _ _ => nofun

/-- Nor does reading a chunk. -/
theorem readChunk_ne_stuck (w : Walk) (id chunk : List UInt8) : readChunk w id chunk ≠ .stuck := by
  unfold readChunk
  split
  · exact bind_ne_stuck (readFmt_ne_stuck chunk) fun _ _ => nofun
  · split <;> exact nofun

/-- Nor does a step of the walk. -/
theorem walkStep_ne_stuck (data : List UInt8) (w : Walk) : walkStep data w ≠ .stuck := by
  unfold walkStep
  split
  · refine bind_ne_stuck (slice_ne_stuck (by omega) (by omega)) fun id _ => ?_
    refine bind_ne_stuck (slice_ne_stuck (by omega) (by omega)) fun _ _ => ?_
    refine bind_ne_stuck (tryInto_ne_stuck _ _ _) fun size _ => ?_
    dsimp only
    split
    · exact nofun
    · refine bind_ne_stuck (slice_ne_stuck (by omega) (by omega)) fun chunk _ => ?_
      exact bind_ne_stuck (readChunk_ne_stuck w id chunk) fun _ _ => nofun
  · exact nofun

/-- A round moves the offset by a chunk header at least. It stays within the file, but for the pad
byte of the last chunk. -/
theorem off_walkStep {data : List UInt8} {w w' : Walk} (h : walkStep data w = .ok (some w')) :
    w.off + 8 ≤ w'.off ∧ w'.off ≤ data.length + 1 := by
  unfold walkStep at h
  split at h
  · obtain ⟨id, -, h⟩ := bind_eq_ok h
    obtain ⟨_, -, h⟩ := bind_eq_ok h
    obtain ⟨size, -, h⟩ := bind_eq_ok h
    dsimp only at h
    split at h
    · cases h
    · obtain ⟨chunk, -, h⟩ := bind_eq_ok h
      obtain ⟨w₁, -, h⟩ := bind_eq_ok h
      cases h
      constructor
      · show w.off + 8 ≤ w.off + 8 + _ + _
        omega
      · show w.off + 8 + fromLe size + fromLe size % 2 ≤ data.length + 1
        omega
  · cases h

/-- The walk comes to an end: each round uses up a chunk header and one unit of the fuel. -/
theorem walk_ne_stuck (data : List UInt8) {fuel : Nat} {w : Walk} (hoff : w.off ≤ data.length + 1)
    (hfuel : data.length + 2 ≤ fuel + w.off) : walk data fuel w ≠ .stuck := by
  induction fuel generalizing w with
  | zero => omega
  | succ fuel ih =>
      rw [walk]
      refine bind_ne_stuck (walkStep_ne_stuck data w) fun step hstep => ?_
      cases step with
      | none => exact nofun
      | some w' =>
          have hmoved := off_walkStep hstep
          exact ih hmoved.2 (by omega)

/-- Nor does decoding. -/
theorem decode_ne_stuck (codec : Codec F) (fmt : Fmt) (chunk : List UInt8) :
    decode codec fmt chunk ≠ .stuck := by
  by_cases h : Supported fmt
  · rw [decode_of_supported codec h]
    exact nofun
  · rw [decode_of_not_supported codec h]
    exact nofun

/-- Nor does the whole parser. -/
theorem decodeWav_ne_stuck (codec : Codec F) (data : List UInt8) :
    decodeWav codec data ≠ .stuck := by
  unfold decodeWav
  split
  · exact nofun
  · refine bind_ne_stuck (slice_ne_stuck (by omega) (by omega)) fun _ _ => ?_
    split
    · exact nofun
    · refine bind_ne_stuck (slice_ne_stuck (by omega) (by omega)) fun _ _ => ?_
      split
      · exact nofun
      · refine bind_ne_stuck (walk_ne_stuck data (by show 12 ≤ _; omega)
          (by show _ ≤ _ + 12; omega)) fun w _ => ?_
        split
        · exact nofun
        · split
          · exact nofun
          · split
            · exact nofun
            · refine bind_ne_stuck (mapM_ne_stuck fun chunk _ => decode_ne_stuck codec _ chunk) ?_
              intro pcm _
              dsimp only
              split
              · exact nofun
              · split <;> exact nofun

/-- Whatever the arithmetic is, no access is out of range and the loops come to an end. -/
theorem parseWavPcm_ne_stuck (codec : Codec F) (interp : Interpolation F) (data : List UInt8) :
    parseWavPcm codec interp data ≠ .stuck := by
  refine bind_ne_stuck (decodeWav_ne_stuck codec data) fun decoded _ => ?_
  dsimp only
  split <;> exact nofun

/-! ### What is decoded -/

/-- There is at least one frame, and there are at most two seconds of them. -/
theorem length_decodeWav {codec : Codec F} {data : List UInt8} {pcm : List F} {rate : Nat}
    (h : decodeWav codec data = .ok (pcm, rate)) :
    1 ≤ pcm.length ∧ pcm.length ≤ 2 * rate ∧ 0 < rate := by
  unfold decodeWav at h
  split at h
  · cases h
  · obtain ⟨_, -, h⟩ := bind_eq_ok h
    split at h
    · cases h
    · obtain ⟨_, -, h⟩ := bind_eq_ok h
      split at h
      · cases h
      · obtain ⟨w, -, h⟩ := bind_eq_ok h
        split at h
        · cases h
        · rename_i fmt hfmt
          split at h
          · cases h
          · rename_i hrate
            split at h
            · cases h
            · obtain ⟨chunks, -, h⟩ := bind_eq_ok h
              dsimp only at h
              split at h
              · cases h
              · rename_i hsome
                split at h
                · cases h
                · rename_i hshort
                  cases h
                  have hpos : (0 : ℚ) < fmt.rate := by
                    exact_mod_cast Nat.pos_of_ne_zero hrate
                  refine ⟨?_, ?_, Nat.pos_of_ne_zero hrate⟩
                  · exact List.length_pos_iff.mpr fun hnil => hsome (List.isEmpty_iff.mpr hnil)
                  · rw [not_lt, div_le_iff₀ hpos, maxSeconds] at hshort
                    exact_mod_cast hshort

/-! ### The resampling -/

/-- The arithmetic of the rational numbers. -/
def exactInterpolation : Interpolation ℚ where
  zero := 0
  add := (· + ·)
  sub := (· - ·)
  mul := (· * ·)
  ofRat := id

/-- The number of samples at 48 kHz. -/
theorem length_resample (interp : Interpolation F) (pcm : List F) (rate : Nat) :
    ((resample interp pcm rate).length : ℤ) = ⌈(pcm.length : ℚ) * 48000 / rate⌉ := by
  have hpos : (0 : ℚ) ≤ (pcm.length : ℚ) * 48000 / rate := by positivity
  rw [resample, List.length_map, List.length_range, targetRate, Nat.cast_ofNat]
  exact Int.toNat_of_nonneg (Int.ceil_nonneg hpos)

/-- A value between two others is not below and not above both of them. -/
theorem interpolate_mem {a b t : ℚ} (h0 : 0 ≤ t) (h1 : t ≤ 1) :
    min a b ≤ a + (b - a) * t ∧ a + (b - a) * t ≤ max a b := by
  cases le_total a b with
  | inl hab =>
      rw [min_eq_left hab, max_eq_right hab]
      constructor <;> nlinarith
  | inr hba =>
      rw [min_eq_right hba, max_eq_left hba]
      constructor <;> nlinarith

/-- At a position inside the input, a sample lies between two samples of the input. -/
theorem resampledAt_between {pcm : List ℚ} {ratio : ℚ} {i : Nat} (hratio : 0 ≤ ratio)
    (hinside : i * ratio < pcm.length) :
    ∃ a ∈ pcm, ∃ b ∈ pcm, min a b ≤ resampledAt exactInterpolation pcm ratio i ∧
      resampledAt exactInterpolation pcm ratio i ≤ max a b := by
  have hpos : 0 ≤ i * ratio := mul_nonneg (Nat.cast_nonneg i) hratio
  have hidx : ((⌊i * ratio⌋.toNat : ℕ) : ℚ) = ⌊i * ratio⌋ := by
    exact_mod_cast Int.toNat_of_nonneg (Int.floor_nonneg.mpr hpos)
  have hlow := Int.floor_le (i * ratio)
  have hhigh := Int.lt_floor_add_one (i * ratio)
  have hlt : ⌊i * ratio⌋.toNat < pcm.length := by
    have hcast : ((⌊i * ratio⌋.toNat : ℕ) : ℚ) < pcm.length := by
      rw [hidx]
      linarith
    exact_mod_cast hcast
  -- The first sample exists, so the default is not used.
  have ha : pcm[⌊i * ratio⌋.toNat]?.getD 0 = pcm[⌊i * ratio⌋.toNat] := by
    rw [List.getElem?_eq_getElem hlt, Option.getD_some]
  have hb : pcm[⌊i * ratio⌋.toNat + 1]?.getD pcm[⌊i * ratio⌋.toNat] ∈ pcm := by
    cases hnext : pcm[⌊i * ratio⌋.toNat + 1]? with
    | none => exact List.getElem_mem hlt
    | some b => exact List.mem_of_getElem? hnext
  have hvalue : resampledAt exactInterpolation pcm ratio i = pcm[⌊i * ratio⌋.toNat] +
      (pcm[⌊i * ratio⌋.toNat + 1]?.getD pcm[⌊i * ratio⌋.toNat] - pcm[⌊i * ratio⌋.toNat]) *
        (i * ratio - (⌊i * ratio⌋.toNat : ℕ)) := by
    show pcm[⌊i * ratio⌋.toNat]?.getD 0 + (pcm[⌊i * ratio⌋.toNat + 1]?.getD
      (pcm[⌊i * ratio⌋.toNat]?.getD 0) - pcm[⌊i * ratio⌋.toNat]?.getD 0) * _ = _
    rw [ha]
    rfl
  refine ⟨_, List.getElem_mem hlt, _, hb, ?_⟩
  rw [hvalue, hidx]
  exact interpolate_mem (by linarith) (by linarith)

/-- Each sample of the output lies between two samples of the input. -/
theorem mem_resample {pcm : List ℚ} {rate : Nat} (hrate : 0 < rate) {x : ℚ}
    (hx : x ∈ resample exactInterpolation pcm rate) :
    ∃ a ∈ pcm, ∃ b ∈ pcm, min a b ≤ x ∧ x ≤ max a b := by
  obtain ⟨i, hi, rfl⟩ := List.mem_map.mp hx
  refine resampledAt_between (by positivity) ?_
  have hi : (i : ℚ) < (pcm.length : ℚ) * targetRate / rate := by
    have := Int.lt_ceil.mp (Int.lt_toNat.mp (List.mem_range.mp hi))
    exact_mod_cast this
  have hpos : (0 : ℚ) < rate := by exact_mod_cast hrate
  rw [targetRate, lt_div_iff₀ hpos] at hi
  rw [targetRate, ← mul_div_assoc, div_lt_iff₀ (by norm_num)]
  exact hi

/-- Two seconds at the rate of the input are two seconds at 48 kHz. -/
theorem length_resample_le {interp : Interpolation F} {pcm : List F} {rate : Nat}
    (hsome : 1 ≤ pcm.length) (hshort : pcm.length ≤ 2 * rate) (hrate : 0 < rate) :
    1 ≤ (resample interp pcm rate).length ∧ (resample interp pcm rate).length ≤ 96000 := by
  have hlength := length_resample interp pcm rate
  have hpos : (0 : ℚ) < rate := by exact_mod_cast hrate
  have hsome' : (0 : ℚ) < pcm.length := by exact_mod_cast hsome
  constructor
  · have hceil : 0 < ⌈(pcm.length : ℚ) * 48000 / rate⌉ := Int.ceil_pos.mpr (by positivity)
    omega
  · have hshort' : (pcm.length : ℚ) ≤ 2 * rate := by exact_mod_cast hshort
    have hceil : ⌈(pcm.length : ℚ) * 48000 / rate⌉ ≤ 96000 := by
      rw [Int.ceil_le, div_le_iff₀ hpos]
      push_cast
      linarith
    omega

/-- What is returned has between 1 and 96000 samples, as many as the decoded frames take at 48 kHz.
-/
theorem length_parseWavPcm {codec : Codec F} {interp : Interpolation F} {data : List UInt8}
    {out pcm : List F} {rate : Nat} (h : parseWavPcm codec interp data = .ok out)
    (hdecode : decodeWav codec data = .ok (pcm, rate)) :
    1 ≤ out.length ∧ out.length ≤ 96000 ∧
      (out.length : ℤ) = ⌈(pcm.length : ℚ) * 48000 / rate⌉ := by
  obtain ⟨hsome, hshort, hrate⟩ := length_decodeWav hdecode
  rw [parseWavPcm, hdecode, ok_bind] at h
  dsimp only at h
  split at h
  · rename_i hsame
    cases h
    subst hsame
    refine ⟨hsome, by rw [targetRate] at hshort; omega, ?_⟩
    rw [targetRate, Nat.cast_ofNat, mul_div_cancel_right₀ _ (by norm_num), Int.ceil_natCast]
  · cases h
    obtain ⟨hlow, hhigh⟩ := length_resample_le hsome hshort hrate
    exact ⟨hlow, hhigh, length_resample _ _ _⟩

/-- `parse_wav_pcm` ends on every list of bytes without an access out of range. When it returns
samples, there are between 1 and 96000 of them, as many as the decoded frames take at 48 kHz, and
each lies between two of the decoded samples. -/
theorem parseWavPcm_bounded (codec : Codec ℚ) (data : List UInt8) :
    parseWavPcm codec exactInterpolation data ≠ .stuck ∧
      ∀ out, parseWavPcm codec exactInterpolation data = .ok out →
        ∃ pcm rate, decodeWav codec data = .ok (pcm, rate) ∧ 1 ≤ out.length ∧ out.length ≤ 96000 ∧
          (out.length : ℤ) = ⌈(pcm.length : ℚ) * 48000 / rate⌉ ∧
          ∀ x ∈ out, (∃ least ∈ pcm, least ≤ x) ∧ ∃ greatest ∈ pcm, x ≤ greatest := by
  refine ⟨parseWavPcm_ne_stuck codec exactInterpolation data, fun out h => ?_⟩
  obtain ⟨⟨pcm, rate⟩, hdecode, hout⟩ := bind_eq_ok h
  obtain ⟨hlow, hhigh, hlength⟩ := length_parseWavPcm h hdecode
  refine ⟨pcm, rate, hdecode, hlow, hhigh, hlength, fun x hx => ?_⟩
  dsimp only at hout
  split at hout
  · cases hout
    exact ⟨⟨x, hx, le_rfl⟩, x, hx, le_rfl⟩
  · cases hout
    obtain ⟨a, ha, b, hb, hmin, hmax⟩ := mem_resample (length_decodeWav hdecode).2.2 hx
    constructor
    · cases min_choice a b with
      | inl heq => exact ⟨a, ha, heq ▸ hmin⟩
      | inr heq => exact ⟨b, hb, heq ▸ hmin⟩
    · cases max_choice a b with
      | inl heq => exact ⟨a, ha, heq ▸ hmax⟩
      | inr heq => exact ⟨b, hb, heq ▸ hmax⟩

/-- Decoding over the rational numbers. -/
def exactCodec : Codec ℚ where
  ofInt n := n
  ofBits bits := (Binary32.ofBits bits).toRat.getD 0
  zero := 0
  add := (· + ·)
  div x n := x / n

/-- Two samples at 24 kHz become four. -/
theorem parseWavPcm_halfRate : ∃ pcm rate,
    decodeWav exactCodec (wavPcm16 24000 1 [0, 16384]) = .ok (pcm, rate) ∧
      ((4 : ℕ) : ℤ) = ⌈(pcm.length : ℚ) * 48000 / rate⌉ ∧
      ∀ x ∈ ([0, 1 / 4, 1 / 2, 1 / 2] : List ℚ), (∃ least ∈ pcm, least ≤ x) ∧
        ∃ greatest ∈ pcm, x ≤ greatest := by
  have hout : parseWavPcm exactCodec exactInterpolation (wavPcm16 24000 1 [0, 16384]) =
      .ok [0, 1 / 4, 1 / 2, 1 / 2] := by
    decide +kernel
  obtain ⟨pcm, rate, hdecode, -, -, hlength, hbounds⟩ :=
    (parseWavPcm_bounded exactCodec (wavPcm16 24000 1 [0, 16384])).2 _ hout
  exact ⟨pcm, rate, hdecode, hlength, hbounds⟩

/-! ### Installing a sample -/

/-- Every sample that is installed has between 1 and 96000 values. -/
def ShortSamples (samples : SfxSamples F) : Prop :=
  ∀ kind sample, samples kind = some sample → 1 ≤ sample.length ∧ sample.length ≤ 96000

/-- `ts_set_sfx_sample` keeps this, whatever data it is given. -/
theorem shortSamples_tsSetSfxSample (codec : Codec F) (interp : Interpolation F)
    {samples : SfxSamples F} (h : ShortSamples samples) (kind : UInt8)
    (data : Option (List UInt8)) :
    ShortSamples (tsSetSfxSample codec interp samples kind data).1 := by
  unfold tsSetSfxSample
  split
  · exact h
  · split
    · exact h
    · split
      · exact h
      · split
        · rename_i sample hparse
          obtain ⟨⟨pcm, rate⟩, hdecode, -⟩ := bind_eq_ok hparse
          have hlength := length_parseWavPcm hparse hdecode
          intro k installed hinstalled
          dsimp only at hinstalled
          by_cases hk : k = kind.toNat - 1
          · subst hk
            rw [Function.update_self, Option.some.injEq] at hinstalled
            subst hinstalled
            exact ⟨hlength.1, hlength.2.1⟩
          · rw [Function.update_of_ne hk] at hinstalled
            exact h k installed hinstalled
        · exact h
        · exact h
        · exact h

end Nek0.Proofs.Audio
