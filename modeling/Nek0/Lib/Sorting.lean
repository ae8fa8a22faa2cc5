import Mathlib.Data.List.Sort

/-!
# `Nek0.Lib.Sorting`: sorting by a key

A `SortBy` is a sort that is only known to put a list in ascending order of a key. Elements with
equal keys can come in any order. `sort_eq_iff`: where the keys differ, an arrangement of the list
is the sorted one if and only if its keys ascend.
-/

set_option autoImplicit false

namespace Nek0.Lib

variable {α : Type}

/-- A sort by a key. -/
structure SortBy (key : α → Nat) where
  sort : List α → List α
  perm : ∀ l, (sort l).Perm l
  ascending : ∀ l, (sort l).Pairwise fun a b => key a ≤ key b

namespace SortBy

variable {key : α → Nat} (s : SortBy key)

theorem mem_sort {l : List α} {a : α} : a ∈ s.sort l ↔ a ∈ l := (s.perm l).mem_iff

/-- The arrangement is the sorted one if and only if its keys ascend. -/
theorem sort_eq_iff {l arranged : List α} (hperm : arranged.Perm l)
    (hkeys : (arranged.map key).Nodup) :
    s.sort l = arranged ↔ (arranged.map key).Pairwise (· < ·) := by
  constructor
  · intro heq
    have hle : (arranged.map key).Pairwise (· ≤ ·) := by
      rw [← heq, List.pairwise_map]
      exact s.ascending l
    exact (hle.and hkeys).imp fun h => lt_of_le_of_ne h.1 h.2
  · intro hlt
    rw [List.pairwise_map] at hlt
    refine List.Perm.eq_of_pairwise ?_ (s.ascending l) (hlt.imp le_of_lt)
      ((s.perm l).trans hperm.symm)
    intro a b ha hb hab hba
    have hinj := List.inj_on_of_nodup_map hkeys
    exact hinj (hperm.mem_iff.mpr (s.mem_sort.mp ha)) hb (le_antisymm hab hba)

/-- The merge sort. -/
def merge (key : α → Nat) : SortBy key where
  sort l := l.mergeSort fun a b => decide (key a ≤ key b)
  perm l := List.mergeSort_perm l _
  ascending l := by
    have h : (l.mergeSort fun a b => decide (key a ≤ key b)).Pairwise
        fun a b => decide (key a ≤ key b) = true := by
      refine List.pairwise_mergeSort ?_ ?_ l
      · intro a b c hab hbc
        rw [decide_eq_true_eq] at hab hbc ⊢
        exact le_trans hab hbc
      · intro a b
        rw [Bool.or_eq_true, decide_eq_true_eq, decide_eq_true_eq]
        exact le_total (key a) (key b)
    exact h.imp of_decide_eq_true

end SortBy

end Nek0.Lib
