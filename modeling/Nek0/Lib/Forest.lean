import Mathlib.Data.List.Nodup
import Mathlib.Data.List.Perm.Subperm

/-!
# `Nek0.Lib.Forest`: items that name their parent

Each item has an id and the id of its parent. 0 is no item's id, and the items that name it are the
roots. A parent that does not exist is possible, and so is a cycle.

`Chain c d` says that the parents of `c` lead to a root in `d` steps, and `Under a c k` says that
they lead to `a` in `k` steps. Where the ids differ:

* `Chain.depth_unique` and `Under.unique`: the number of steps and the ancestor are determined;
* `Chain.lt_length`: no chain is longer than the list of items.
-/

set_option autoImplicit false

namespace Nek0.Lib.Forest

variable {α : Type} (id parent : α → Nat) (all : List α)

/-- The ids differ from each other and from 0. -/
def Distinct : Prop := (0 :: all.map id).Nodup

/-- The parents of the item lead to a root. -/
inductive Chain : α → Nat → Prop
  | root {c : α} (hmem : c ∈ all) (hparent : parent c = 0) : Chain c 0
  | child {p c : α} {d : Nat} (hp : Chain p d) (hmem : c ∈ all) (hparent : parent c = id p) :
      Chain c (d + 1)

/-- The parents of the item lead to `a`. -/
inductive Under (a : α) : α → Nat → Prop
  | self : Under a a 0
  | child {p c : α} {k : Nat} (hp : Under a p k) (hmem : c ∈ all) (hparent : parent c = id p) :
      Under a c (k + 1)

variable {id parent all}

theorem Distinct.eq_of_id (h : Distinct id all) {a b : α} (ha : a ∈ all) (hb : b ∈ all)
    (hid : id a = id b) : a = b :=
  List.inj_on_of_nodup_map (List.nodup_cons.mp h).2 ha hb hid

theorem Distinct.id_ne_zero (h : Distinct id all) {a : α} (ha : a ∈ all) : id a ≠ 0 := by
  intro hzero
  exact (List.nodup_cons.mp h).1 (hzero ▸ List.mem_map_of_mem ha)

theorem Distinct.nodup (h : Distinct id all) : all.Nodup := (List.nodup_cons.mp h).2.of_map

theorem Chain.mem {c : α} {d : Nat} (h : Chain id parent all c d) : c ∈ all := by
  cases h <;> assumption

/-- An element has one depth. The parents of two chains agree, since ids are distinct. -/
theorem Chain.depth_unique (hids : Distinct id all) {c : α} {d e : Nat}
    (hd : Chain id parent all c d) (he : Chain id parent all c e) : d = e := by
  induction hd generalizing e with
  | root hmem hparent =>
      cases he with
      | root => rfl
      -- A root has the parent id zero, which no element has as its own id.
      | child hp _ hchild => exact absurd (hchild.symm.trans hparent) (hids.id_ne_zero hp.mem)
  | child hp _ hparent ih =>
      cases he with
      | root _ hroot => exact absurd (hparent.symm.trans hroot) (hids.id_ne_zero hp.mem)
      | child hq _ hchild =>
          have hsame := hids.eq_of_id hq.mem hp.mem (hchild.symm.trans hparent)
          rw [hsame] at hq
          rw [ih hq]

/-- The item and its ancestors are different items, and there is one for each depth. -/
theorem Chain.exists_path (hids : Distinct id all) {c : α} {d : Nat}
    (h : Chain id parent all c d) :
    ∃ path : List α, path.Nodup ∧ path.length = d + 1 ∧
      ∀ a ∈ path, ∃ e ≤ d, Chain id parent all a e := by
  induction h with
  | @root c hmem hparent =>
      refine ⟨[c], List.nodup_singleton c, rfl, ?_⟩
      intro a ha
      rw [List.mem_singleton.mp ha]
      exact ⟨0, Nat.le_refl _, .root hmem hparent⟩
  | @child p c d hp hmem hparent ih =>
      obtain ⟨path, hnodup, hlength, hpath⟩ := ih
      have hc : Chain id parent all c (d + 1) := .child hp hmem hparent
      have hnew : c ∉ path := by
        intro hold
        obtain ⟨e, he, hchain⟩ := hpath c hold
        have := hc.depth_unique hids hchain
        omega
      refine ⟨c :: path, List.nodup_cons.mpr ⟨hnew, hnodup⟩, by rw [List.length_cons, hlength], ?_⟩
      intro a ha
      cases List.mem_cons.mp ha with
      | inl hac => exact ⟨d + 1, Nat.le_refl _, hac ▸ hc⟩
      | inr hold =>
          obtain ⟨e, he, hchain⟩ := hpath a hold
          exact ⟨e, by omega, hchain⟩

/-- A chain is shorter than the list: its elements are distinct members. -/
theorem Chain.lt_length (hids : Distinct id all) {c : α} {d : Nat}
    (h : Chain id parent all c d) : d < all.length := by
  obtain ⟨path, hnodup, hlength, hpath⟩ := h.exists_path hids
  have hsub : path ⊆ all := by
    intro a ha
    obtain ⟨e, -, hchain⟩ := hpath a ha
    exact hchain.mem
  have := (hnodup.subperm hsub).length_le
  omega

theorem Chain.under {a c : α} {d k : Nat} (ha : Chain id parent all a d)
    (h : Under id parent all a c k) : Chain id parent all c (d + k) := by
  induction h with
  | self => exact ha
  | child _ hmem hparent ih => exact .child ih hmem hparent

theorem Under.mem {a c : α} {k : Nat} (ha : a ∈ all) (h : Under id parent all a c k) : c ∈ all := by
  cases h <;> assumption

/-- What is under a child is under its parent. -/
theorem Under.cons {a b c : α} {k : Nat} (hmem : b ∈ all) (hparent : parent b = id a)
    (h : Under id parent all b c k) : Under id parent all a c (k + 1) := by
  induction h with
  | self => exact .child .self hmem hparent
  | child _ hmem hparent ih => exact .child ih hmem hparent

/-- An item has one ancestor a number of steps up. -/
theorem Under.unique (hids : Distinct id all) {a b c : α} {k : Nat} (ha : a ∈ all) (hb : b ∈ all)
    (hac : Under id parent all a c k) (hbc : Under id parent all b c k) : a = b := by
  induction hac with
  | self =>
      cases hbc
      rfl
  | child hp _ hparent ih =>
      cases hbc with
      | child hq _ hchild =>
          -- Both ways up start at the same parent.
          have hsame := hids.eq_of_id (hq.mem hb) (hp.mem ha) (hchild.symm.trans hparent)
          rw [hsame] at hq
          exact ih hq

end Nek0.Lib.Forest
