import Mathlib.Tactic.Ring

/-!
# `Nek0.Lib.LittleEndian`: numbers as bytes

`toLe n v` are the `n` bytes of `v`, least significant first, and `fromLe` reads them back.
-/

set_option autoImplicit false

namespace Nek0.Lib.LittleEndian

/-- The number that the bytes stand for. -/
def fromLe : List UInt8 → Nat
  | [] => 0
  | b :: bytes => b.toNat + 256 * fromLe bytes

/-- The first `n` bytes of a number. -/
def toLe : Nat → Nat → List UInt8
  | 0, _ => []
  | n + 1, v => .ofNat v :: toLe n (v / 256)

/-- The bytes stand for a number in two's complement. -/
def fromLeSigned (bytes : List UInt8) : Int := (fromLe bytes : Int).bmod (256 ^ bytes.length)

@[simp]
theorem length_toLe (n v : Nat) : (toLe n v).length = n := by
  induction n generalizing v with
  | zero => rfl
  | succ n ih => rw [toLe, List.length_cons, ih]

/-- Written into `n` bytes, a number is read back modulo `256 ^ n`. -/
theorem fromLe_toLe (n v : Nat) : fromLe (toLe n v) = v % 256 ^ n := by
  induction n generalizing v with
  | zero => rw [toLe, fromLe, Nat.pow_zero, Nat.mod_one]
  | succ n ih =>
      rw [toLe, fromLe, ih, UInt8.toNat_ofNat',
        show 256 ^ (n + 1) = 256 * 256 ^ n from Nat.pow_succ', Nat.mod_mul]

theorem fromLe_toLe_of_lt {n v : Nat} (h : v < 256 ^ n) : fromLe (toLe n v) = v := by
  rw [fromLe_toLe, Nat.mod_eq_of_lt h]

end Nek0.Lib.LittleEndian
