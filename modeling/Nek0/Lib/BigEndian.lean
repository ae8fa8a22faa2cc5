import Nek0.Lib.LittleEndian

/-!
# `Nek0.Lib.BigEndian`: numbers as bytes, most significant first

`toBe n v` are the `n` bytes of `v`. `readBe n` reads a number from the front of a text of bytes,
and fails when there are fewer than `n`.
-/

set_option autoImplicit false

namespace Nek0.Lib.BigEndian

open Nek0.Lib.LittleEndian (fromLe toLe fromLe_toLe_of_lt length_toLe)

/-- The `n` bytes of a number. -/
def toBe (n v : Nat) : List UInt8 := (toLe n v).reverse

/-- The number that the bytes stand for. -/
def fromBe (bytes : List UInt8) : Nat := fromLe bytes.reverse

/-- Reads a number of `n` bytes from the front. -/
def readBe (n : Nat) (bytes : List UInt8) : Option Nat :=
  if n ≤ bytes.length then some (fromBe (bytes.take n)) else none

@[simp]
theorem length_toBe (n v : Nat) : (toBe n v).length = n := by
  rw [toBe, List.length_reverse, length_toLe]

theorem fromBe_toBe_of_lt {n v : Nat} (h : v < 256 ^ n) : fromBe (toBe n v) = v := by
  rw [fromBe, toBe, List.reverse_reverse, fromLe_toLe_of_lt h]

/-- What was written is read back, whatever follows. -/
theorem readBe_toBe_append {n v : Nat} (h : v < 256 ^ n) (rest : List UInt8) :
    readBe n (toBe n v ++ rest) = some v := by
  have hlen : (toBe n v).length = n := length_toBe n v
  rw [readBe, if_pos (by rw [List.length_append]; omega), List.take_left' hlen,
    fromBe_toBe_of_lt h]

/-- Reading fails if and only if there are too few bytes. -/
theorem readBe_eq_none_iff {n : Nat} {bytes : List UInt8} :
    readBe n bytes = none ↔ bytes.length < n := by
  rw [readBe]
  split
  · next h =>
      constructor
      · intro heq
        cases heq
      · intro hlt
        omega
  · next h =>
      constructor
      · intro _
        omega
      · intro _
        rfl

end Nek0.Lib.BigEndian
