import Mathlib

/-!
# `Nek0.Lib.Slots`: what an array of slots holds

Each slot holds one item or none. `contents` are the items of all slots, with repetitions.

* `contents_update`: what a swap takes out of a slot and puts into it.
* `card_contents_lt`: with an empty slot there are fewer items than slots.
* `eq_of_contents_eq`: leaving out items leaves the same contents only if none is left out.
-/

set_option autoImplicit false

namespace Nek0.Lib.Slots

variable {ι α : Type} [Fintype ι]

/-- The items in the slots. -/
def contents (slots : ι → Option α) : Multiset α := ∑ i, ((slots i).toList : Multiset α)

/-- A swap takes out what was in the slot, and puts in something else or nothing. -/
theorem contents_update [DecidableEq ι] (slots : ι → Option α) (i : ι) (o : Option α) :
    contents (Function.update slots i o) + ((slots i).toList : Multiset α) =
      contents slots + (o.toList : Multiset α) := by
  have hrest : ∀ s : ι → Option α, contents s =
      ((s i).toList : Multiset α) + ∑ j ∈ Finset.univ.erase i, ((s j).toList : Multiset α) :=
    fun s => (Finset.add_sum_erase _ _ (Finset.mem_univ i)).symm
  have hsame : ∑ j ∈ Finset.univ.erase i,
        ((Function.update slots i o j).toList : Multiset α) =
      ∑ j ∈ Finset.univ.erase i, ((slots j).toList : Multiset α) := by
    refine Finset.sum_congr rfl fun j hj => ?_
    rw [Function.update_of_ne (Finset.ne_of_mem_erase hj)]
  rw [hrest, hrest slots, hsame, Function.update_self]
  abel

theorem card_toList_le (o : Option α) : o.toList.length ≤ 1 := by
  cases o <;> simp

theorem card_contents (slots : ι → Option α) :
    (contents slots).card = ∑ i, (slots i).toList.length := by
  simp [contents, Multiset.card_sum]

/-- An empty slot leaves room. -/
theorem card_contents_lt {slots : ι → Option α} {i : ι} (h : slots i = none) :
    (contents slots).card < Fintype.card ι := by
  rw [card_contents]
  calc ∑ i, (slots i).toList.length < ∑ _i : ι, 1 :=
        Finset.sum_lt_sum (fun i _ => card_toList_le (slots i)) ⟨i, Finset.mem_univ i, by simp [h]⟩
    _ = Fintype.card ι := by simp

/-- The items that a choice of slots keeps, and those that it leaves out. -/
theorem contents_split (keep : ι → Prop) [DecidablePred keep] (slots : ι → Option α) :
    contents (fun i => if keep i then slots i else none) +
      contents (fun i => if keep i then none else slots i) = contents slots := by
  unfold contents
  rw [← Finset.sum_add_distrib]
  refine Finset.sum_congr rfl fun i _ => ?_
  by_cases hi : keep i <;> simp [hi]

/-- The items do not depend on the order of the slots. -/
theorem contents_comp (e : ι ≃ ι) (slots : ι → Option α) :
    contents (fun i => slots (e i)) = contents slots :=
  Equiv.sum_comp e fun i => ((slots i).toList : Multiset α)

/-- Slots with some items left out have the same contents only if none is left out. -/
theorem eq_of_contents_eq {slots rest : ι → Option α}
    (hrest : ∀ i, rest i = none ∨ rest i = slots i) (h : contents rest = contents slots) :
    rest = slots := by
  have hle : ∀ i ∈ Finset.univ, (rest i).toList.length ≤ (slots i).toList.length := by
    intro i _
    rcases hrest i with hi | hi <;> simp [hi]
  have hsum : ∑ i, (rest i).toList.length = ∑ i, (slots i).toList.length := by
    rw [← card_contents, ← card_contents, h]
  funext i
  have hlength := (Finset.sum_eq_sum_iff_of_le hle).mp hsum i (Finset.mem_univ i)
  rcases hrest i with hi | hi
  · rw [hi] at hlength ⊢
    cases hs : slots i with
    | none => rfl
    | some a => simp [hs] at hlength
  · exact hi

end Nek0.Lib.Slots
