import Mathlib

/-!
# `Nek0.Lib.Binary32`: the values of single-precision numbers

A `Binary32` is the value of an IEEE 754 binary32 datum. The two zeros are one value, and so are
the NaNs. A finite value carries the proof that the format has it.

`ofRat` rounds a rational number to the nearest value, ties to even. `ofRat_of_representable`: a
number that the format has is not changed. So an operation whose exact result the format has is
exact (`add_finite`, `divNat_finite`).
-/

set_option autoImplicit false

namespace Nek0.Lib

/-- The format has the number: a significand of 24 bits, an exponent from -149 on, and no overflow.
-/
def Representable (q : ℚ) : Prop :=
  |q| < 2 ^ 128 ∧ ∃ m k : ℤ, |m| < 2 ^ 24 ∧ -149 ≤ k ∧ q = m * (2 : ℚ) ^ k

/-- The value of a binary32 datum. -/
inductive Binary32 where
  | finite (q : ℚ) (h : Representable q)
  | infinite (negative : Bool)
  | nan

namespace Binary32

/-- The rational number, if the value is one. -/
def toRat : Binary32 → Option ℚ
  | finite q _ => some q
  | _ => none

/-! ### Rounding -/

/-- The nearest integer, ties to even. -/
def roundHalfEven (x : ℚ) : ℤ :=
  if Int.fract x < 1 / 2 then ⌊x⌋
  else if 1 / 2 < Int.fract x then ⌊x⌋ + 1
  else if Even ⌊x⌋ then ⌊x⌋ else ⌊x⌋ + 1

theorem roundHalfEven_intCast (n : ℤ) : roundHalfEven n = n := by
  rw [roundHalfEven, Int.fract_intCast, if_pos (by norm_num), Int.floor_intCast]

/-- Rounding goes to the floor, or to the next integer if there is a fractional part. -/
theorem roundHalfEven_mem (x : ℚ) :
    roundHalfEven x = ⌊x⌋ ∨ roundHalfEven x = ⌊x⌋ + 1 ∧ (⌊x⌋ : ℚ) < x := by
  unfold roundHalfEven
  split
  · exact .inl rfl
  · rename_i hhalf
    have hlt : (⌊x⌋ : ℚ) < x := by
      have hfract : x - ⌊x⌋ = Int.fract x := Int.self_sub_floor x
      linarith
    split
    · exact .inr ⟨rfl, hlt⟩
    · split
      · exact .inl rfl
      · exact .inr ⟨rfl, hlt⟩

/-- A rational between `-n` and `n` is rounded to an integer between them. -/
theorem abs_roundHalfEven_le {x : ℚ} {n : ℤ} (h : |x| ≤ n) : |roundHalfEven x| ≤ n := by
  obtain ⟨hlow, hhigh⟩ := abs_le.mp h
  have hfloor : -n ≤ ⌊x⌋ := Int.le_floor.mpr (by push_cast; exact hlow)
  rw [abs_le]
  cases roundHalfEven_mem x with
  | inl heq => exact ⟨by omega, by rw [heq]; exact Int.floor_le_iff.mpr (by linarith)⟩
  | inr hup =>
      obtain ⟨heq, hlt⟩ := hup
      -- Rounding up starts strictly below `n`.
      have hbelow : ⌊x⌋ < n := by
        have : (⌊x⌋ : ℚ) < n := lt_of_lt_of_le hlt hhigh
        exact_mod_cast this
      omega

/-- The exponent of the last place of the significand. -/
def lastPlace (q : ℚ) : ℤ := max (-149) (Int.log 2 |q| - 23)

/-- The nearest number with 24 significant bits, ties to even. -/
def nearest (q : ℚ) : ℚ := roundHalfEven (q / 2 ^ lastPlace q) * 2 ^ lastPlace q

/-- The nearest number is a significand of 24 bits in some place: rounding can carry into the next
one. -/
theorem exists_nearest_eq (q : ℚ) :
    ∃ m k : ℤ, |m| < 2 ^ 24 ∧ -149 ≤ k ∧ nearest q = m * (2 : ℚ) ^ k := by
  have hpos : (0 : ℚ) < 2 ^ lastPlace q := zpow_pos (by norm_num) _
  have hlast : -149 ≤ lastPlace q := le_max_left _ _
  -- In units of the last place the significand has at most 24 bits, before and after rounding.
  have hbound : |roundHalfEven (q / 2 ^ lastPlace q)| ≤ 2 ^ 24 := by
    have hq : |q| ≤ 2 ^ 24 * 2 ^ lastPlace q := by
      have hlog : |q| < 2 ^ (Int.log 2 |q| + 1) := Int.lt_zpow_succ_log_self (by norm_num) _
      have hexp : Int.log 2 |q| + 1 ≤ 24 + lastPlace q := by
        have := le_max_right (-149) (Int.log 2 |q| - 23)
        unfold lastPlace
        omega
      calc |q| ≤ 2 ^ (Int.log 2 |q| + 1) := hlog.le
        _ ≤ 2 ^ (24 + lastPlace q) := zpow_le_zpow_right₀ (by norm_num) hexp
        _ = 2 ^ 24 * 2 ^ lastPlace q := by
          rw [zpow_add₀ (by norm_num)]
          norm_num
    have habs : |q / 2 ^ lastPlace q| ≤ ((2 ^ 24 : ℤ) : ℚ) := by
      rw [abs_div, abs_of_pos hpos, div_le_iff₀ hpos]
      push_cast
      exact hq
    exact abs_roundHalfEven_le habs
  cases lt_or_eq_of_le hbound with
  | inl hlt => exact ⟨_, _, hlt, hlast, rfl⟩
  | inr heq =>
      -- The significand has carried over: it is half as large in the next place.
      have hstep : (2 : ℚ) ^ (lastPlace q + 1) = 2 ^ lastPlace q * 2 :=
        zpow_add_one₀ (by norm_num) _
      cases abs_eq (by norm_num) |>.mp heq with
      | inl h =>
          refine ⟨2 ^ 23, lastPlace q + 1, by norm_num, by omega, ?_⟩
          rw [nearest, h, hstep]
          push_cast
          ring
      | inr h =>
          refine ⟨-2 ^ 23, lastPlace q + 1, by norm_num, by omega, ?_⟩
          rw [nearest, h, hstep]
          push_cast
          ring

/-- A number of the format is its own nearest number. -/
theorem nearest_of_representable {q : ℚ} (h : Representable q) : nearest q = q := by
  obtain ⟨-, m, k, hm, hk, hq⟩ := h
  by_cases hzero : q = 0
  · subst hzero
    have := roundHalfEven_intCast 0
    rw [nearest, zero_div]
    simpa using .inl this
  have hpow : ∀ j : ℤ, (0 : ℚ) < 2 ^ j := fun j => zpow_pos (by norm_num) j
  have hlast : lastPlace q ≤ k := by
    have hlt : |q| < (2 : ℚ) ^ (24 + k) := by
      rw [hq, abs_mul, abs_of_pos (hpow k), zpow_add₀ (by norm_num)]
      refine mul_lt_mul_of_pos_right ?_ (hpow k)
      exact_mod_cast hm
    have hlog : Int.log 2 |q| < 24 + k :=
      (Int.lt_zpow_iff_log_lt (by norm_num) (abs_pos.mpr hzero)).mp (by exact_mod_cast hlt)
    unfold lastPlace
    omega
  obtain ⟨n, hn⟩ := Int.eq_ofNat_of_zero_le (sub_nonneg.mpr hlast)
  have hgrid : q / 2 ^ lastPlace q = ((m * 2 ^ n : ℤ) : ℚ) := by
    have hscale : (2 : ℚ) ^ k = 2 ^ n * 2 ^ lastPlace q := by
      rw [← zpow_natCast, ← hn, ← zpow_add₀ (by norm_num), sub_add_cancel]
    rw [div_eq_iff (hpow _).ne']
    push_cast
    rw [mul_assoc, ← hscale, hq]
  rw [nearest, hgrid, roundHalfEven_intCast, ← hgrid, div_mul_cancel₀ _ (hpow _).ne']

/-- The value nearest to a rational number. -/
def ofRat (q : ℚ) : Binary32 :=
  if h : |nearest q| < 2 ^ 128 then .finite (nearest q) ⟨h, exists_nearest_eq q⟩
  else .infinite (nearest q < 0)

theorem ofRat_of_representable {q : ℚ} (h : Representable q) : ofRat q = .finite q h := by
  unfold ofRat
  simp only [nearest_of_representable h, h.1, dite_true]

/-! ### Operations -/

/-- An integer as a value. -/
def ofInt (n : ℤ) : Binary32 := ofRat n

/-- The sum. -/
def add : Binary32 → Binary32 → Binary32
  | finite x _, finite y _ => ofRat (x + y)
  | nan, _ => nan
  | _, nan => nan
  | infinite a, infinite b => if a == b then infinite a else nan
  | infinite a, finite _ _ => infinite a
  | finite _ _, infinite b => infinite b

/-- The quotient by a positive integer of the format. -/
def divNat : Binary32 → Nat → Binary32
  | finite x _, n => ofRat (x / n)
  | infinite a, _ => infinite a
  | nan, _ => nan

/-- A significand of 24 bits in one of the places of a finite value is representable. -/
theorem representable_scaled {m k : ℤ} (hm : |m| < 2 ^ 24) (hlow : -149 ≤ k) (hhigh : k ≤ 104) :
    Representable (m * (2 : ℚ) ^ k) := by
  refine ⟨?_, m, k, hm, hlow, rfl⟩
  have hpow : (0 : ℚ) < 2 ^ k := zpow_pos (by norm_num) k
  rw [abs_mul, abs_of_pos hpow]
  calc (|(m : ℚ)| * 2 ^ k : ℚ) < 2 ^ 24 * 2 ^ k := by
        refine mul_lt_mul_of_pos_right ?_ hpow
        exact_mod_cast hm
    _ ≤ 2 ^ 24 * 2 ^ (104 : ℤ) := by
        refine mul_le_mul_of_nonneg_left ?_ (by norm_num)
        exact zpow_le_zpow_right₀ (by norm_num) hhigh
    _ = 2 ^ 128 := by norm_num

/-- The sign, the exponent and the fraction of a datum. -/
def fields (bits : Nat) : ℤ × Nat × Nat :=
  (if bits / 2 ^ 31 % 2 = 1 then -1 else 1, bits / 2 ^ 23 % 256, bits % 2 ^ 23)

/-- The value of the bits of a datum. The format has it, so `ofRat` does not round. -/
def ofBits (bits : Nat) : Binary32 :=
  let (sign, exponent, fraction) := fields bits
  if exponent = 255 then if fraction = 0 then .infinite (sign < 0) else .nan
  else if exponent = 0 then ofRat ((sign * fraction : ℤ) * 2 ^ (-149 : ℤ))
  else ofRat ((sign * (2 ^ 23 + fraction) : ℤ) * 2 ^ (exponent - 150 : ℤ))

/-! ### Exact operations -/

theorem representable_intCast {n : ℤ} (h : |n| < 2 ^ 24) : Representable n := by
  have := representable_scaled (k := 0) h (by norm_num) (by norm_num)
  rwa [zpow_zero, mul_one] at this

/-- Zero is neutral in front, also for an infinity and for a value that is not a number. -/
theorem add_zero_left {x : Binary32} : add (ofRat 0) x = x := by
  have hzero : ofRat 0 = finite 0 _ :=
    ofRat_of_representable (representable_intCast (n := 0) (by norm_num))
  rw [hzero]
  cases x with
  | finite q h =>
      rw [add, zero_add]
      exact ofRat_of_representable h
  | infinite => rfl
  | nan => rfl

/-- Dividing by one leaves the number as it is. -/
theorem divNat_one (x : Binary32) : x.divNat 1 = x := by
  cases x with
  | finite q h =>
      rw [divNat, Nat.cast_one, div_one]
      exact ofRat_of_representable h
  | infinite => rfl
  | nan => rfl

/-- Dividing by a power of two is exact as long as the exponent does not become too small. -/
theorem divNat_scaled {m k : ℤ} (hm : |m| < 2 ^ 24) (hhigh : k ≤ 104) (n : Nat)
    (hlow : -149 ≤ k - n) :
    (ofRat (m * (2 : ℚ) ^ k)).divNat (2 ^ n) = ofRat (m * (2 : ℚ) ^ (k - n)) := by
  rw [ofRat_of_representable (representable_scaled hm (by omega) hhigh), divNat]
  congr 1
  rw [zpow_sub₀ (by norm_num), zpow_natCast]
  push_cast
  ring

end Binary32

end Nek0.Lib
