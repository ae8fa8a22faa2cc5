import Mathlib

/-!
# `Nek0.Lib.Blocks`: a list in blocks of one size

`blocks n l` are the whole blocks of `n` elements at the front of `l`, and `rest n l` is what is
left behind them.

* `blocks_of_lt`, `blocks_of_le`: the two as a loop finds them, one block at a time.
* `blocks_append`: a list that comes in pieces has the same blocks. The rest of the first piece is
  put before the second.
* `blocks_flatMap`: where each element becomes `k` elements, so does each block.
-/

set_option autoImplicit false

namespace Nek0.Lib.Blocks

variable {α : Type}

/-- The whole blocks of `n` elements. -/
def blocks (n : Nat) (l : List α) : List (List α) :=
  (List.range (l.length / n)).map fun i => (l.drop (n * i)).take n

/-- The elements behind the last whole block. -/
def rest (n : Nat) (l : List α) : List α := l.drop (n * (l.length / n))

variable {n : Nat}

@[simp]
theorem length_blocks (l : List α) : (blocks n l).length = l.length / n := by simp [blocks]

theorem length_rest (l : List α) : (rest n l).length = l.length % n := by
  rw [rest, List.length_drop, Nat.mod_def]

theorem length_rest_lt (hn : 0 < n) (l : List α) : (rest n l).length < n := by
  rw [length_rest]
  exact Nat.mod_lt _ hn

/-- A short list has no block. -/
theorem blocks_of_lt {l : List α} (h : l.length < n) : blocks n l = [] := by
  simp [blocks, Nat.div_eq_of_lt h]

theorem rest_of_lt {l : List α} (h : l.length < n) : rest n l = l := by
  simp [rest, Nat.div_eq_of_lt h]

theorem length_div_of_le (hn : 0 < n) {l : List α} (h : n ≤ l.length) :
    l.length / n = (l.drop n).length / n + 1 := by
  rw [List.length_drop, Nat.div_eq_sub_div hn h]

/-- The first block of a long list is at its front. -/
theorem blocks_of_le (hn : 0 < n) {l : List α} (h : n ≤ l.length) :
    blocks n l = l.take n :: blocks n (l.drop n) := by
  have hdiv := length_div_of_le hn h
  rw [blocks, hdiv, List.range_succ_eq_map, List.map_cons, List.map_map]
  congr 1
  refine List.map_congr_left fun i _ => ?_
  simp [List.drop_drop, Nat.mul_succ, Nat.add_comm]

theorem rest_of_le (hn : 0 < n) {l : List α} (h : n ≤ l.length) : rest n l = rest n (l.drop n) := by
  have hdiv := length_div_of_le hn h
  rw [rest, rest, hdiv, List.drop_drop, Nat.mul_succ, Nat.add_comm]

/-- The second piece starts with the rest of the first. -/
theorem blocks_append (hn : 0 < n) (l l' : List α) :
    blocks n (l ++ l') = blocks n l ++ blocks n (rest n l ++ l') := by
  -- One block of `l` after the other is taken away.
  induction hk : l.length / n generalizing l with
  | zero =>
      have hlt : l.length < n := (Nat.div_eq_zero_iff_lt hn).mp hk
      rw [blocks_of_lt hlt, rest_of_lt hlt, List.nil_append]
  | succ k ih =>
      have hle : n ≤ l.length := by
        by_contra h
        rw [Nat.div_eq_of_lt (Nat.lt_of_not_le h)] at hk
        exact absurd hk (Nat.succ_ne_zero k).symm
      have hk' : (l.drop n).length / n = k := by
        have h := length_div_of_le hn hle
        omega
      have hle' : n ≤ (l ++ l').length := by
        rw [List.length_append]
        omega
      rw [blocks_of_le hn hle', List.take_append_of_le_length hle,
        List.drop_append_of_le_length hle, ih _ hk', blocks_of_le hn hle, rest_of_le hn hle,
        List.cons_append]

/-- What is left of a long list is left behind the rest of its front. -/
theorem rest_append (hn : 0 < n) (l l' : List α) : rest n (l ++ l') = rest n (rest n l ++ l') := by
  -- The induction is on the whole blocks in `l`.
  induction hk : l.length / n generalizing l with
  | zero => rw [rest_of_lt ((Nat.div_eq_zero_iff_lt hn).mp hk)]
  | succ k ih =>
      have hle : n ≤ l.length := by
        by_contra h
        rw [Nat.div_eq_of_lt (Nat.lt_of_not_le h)] at hk
        exact absurd hk (Nat.succ_ne_zero k).symm
      have hk' : (l.drop n).length / n = k := by
        have h := length_div_of_le hn hle
        omega
      have hle' : n ≤ (l ++ l').length := by
        rw [List.length_append]
        omega
      rw [rest_of_le hn hle', List.drop_append_of_le_length hle, ih _ hk', ← rest_of_le hn hle]

/-! ### Elements that become lists of one length -/

section

variable {β : Type} {g : α → List β} {k : Nat}

/-- Pieces of one length add up. -/
theorem length_flatMap_of_length (hg : ∀ a, (g a).length = k) (l : List α) :
    (l.flatMap g).length = l.length * k := by
  induction l with
  | nil => rw [List.flatMap_nil, List.length_nil, List.length_nil, Nat.zero_mul]
  | cons a l ih =>
      rw [List.flatMap_cons, List.length_append, hg, ih, List.length_cons, Nat.succ_mul,
        Nat.add_comm]

/-- Dropping whole blocks drops the elements that they came from. -/
theorem drop_flatMap (hg : ∀ a, (g a).length = k) (l : List α) (i : Nat) :
    (l.flatMap g).drop (i * k) = (l.drop i).flatMap g := by
  induction i generalizing l with
  | zero => rw [Nat.zero_mul, List.drop_zero, List.drop_zero]
  | succ i ih =>
      cases l with
      | nil => simp
      | cons a l =>
          rw [List.flatMap_cons, List.drop_succ_cons, ← ih, Nat.succ_mul, Nat.add_comm,
            ← List.drop_drop, List.drop_left' (hg a)]

/-- Taking whole blocks takes the elements that they came from. -/
theorem take_flatMap (hg : ∀ a, (g a).length = k) (l : List α) (i : Nat) :
    (l.flatMap g).take (i * k) = (l.take i).flatMap g := by
  induction i generalizing l with
  | zero => rw [Nat.zero_mul, List.take_zero, List.take_zero, List.flatMap_nil]
  | succ i ih =>
      cases l with
      | nil => simp
      | cons a l =>
          rw [List.flatMap_cons, List.take_succ_cons, List.flatMap_cons, ← ih, Nat.succ_mul,
            Nat.add_comm, ← hg a, List.take_length_add_append]

/-- Whole pieces are cut where their elements are. -/
theorem blocks_flatMap (hk : 0 < k) (hg : ∀ a, (g a).length = k) (l : List α) :
    blocks (n * k) (l.flatMap g) = (blocks n l).map fun b => b.flatMap g := by
  rw [blocks, blocks, length_flatMap_of_length hg, Nat.mul_div_mul_right _ _ hk, List.map_map]
  refine List.map_congr_left fun i _ => ?_
  rw [Nat.mul_right_comm, drop_flatMap hg, take_flatMap hg]
  rfl

/-- Blocks of one element. -/
theorem blocks_one (l : List α) : blocks 1 l = l.map fun a => [a] := by
  induction l with
  | nil => exact blocks_of_lt Nat.one_pos
  | cons a l ih =>
      rw [blocks_of_le (by decide) (by simp), List.map_cons, ← ih]
      rfl

/-- The elements are the blocks. -/
theorem blocks_flatMap_self (hk : 0 < k) (hg : ∀ a, (g a).length = k) (l : List α) :
    blocks k (l.flatMap g) = l.map g := by
  have h := blocks_flatMap (n := 1) hk hg l
  rw [Nat.one_mul, blocks_one, List.map_map] at h
  rw [h]
  refine List.map_congr_left fun a _ => ?_
  rw [Function.comp_apply, List.flatMap_singleton]

end

end Nek0.Lib.Blocks
