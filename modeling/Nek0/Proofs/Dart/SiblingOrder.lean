import Mathlib
import Nek0.Dart.ChannelTree

/-!
# `Nek0.Proofs.Dart.SiblingOrder`: in which order siblings are shown

The server gives the order of siblings as a linked list: `order` is the id of the sibling before,
and 0 for the first. `children` and `_roots` sort by `order` as a number.

* `sort_siblings_iff`: the sort gives the server's order if and only if the ids ascend along it,
  except for the last;
* `siblingOrder_iff`: the same for the whole roster;
* `serverOrder_toTsChannel`: what `refresh_from_book` makes of numbers below `2 ^ 32` has the
  server's order.
-/

set_option autoImplicit false

namespace Nek0.Proofs.Dart

open Nek0.Lib Nek0.Dart Nek0.Dart.ChannelTree

/-- `chain p` are the channels with parent `p` in the server's order. -/
structure ServerOrder (channels : List TsChannel) (chain : Nat → List TsChannel) : Prop where
  perm : ∀ p, (chain p).Perm (channels.filter (·.parentId == p))
  orders : ∀ p, (chain p).map TsChannel.order = (0 :: (chain p).map TsChannel.id).dropLast

variable {channels : List TsChannel} {chain : Nat → List TsChannel}

/-- The ids of siblings differ from each other and from 0. -/
theorem ServerOrder.nodup (h : ServerOrder channels chain)
    (hids : (0 :: channels.map TsChannel.id).Nodup) (p : Nat) :
    (0 :: (chain p).map TsChannel.id).Nodup := by
  have hsub : ((channels.filter (·.parentId == p)).map TsChannel.id).Sublist
      (channels.map TsChannel.id) := List.filter_sublist.map _
  have hfilter := hids.sublist (hsub.cons_cons 0)
  exact (((h.perm p).map TsChannel.id).cons 0).nodup_iff.mpr hfilter

/-- Where 0 stands for "no channel", the orders of siblings ascend if and only if their ids do,
except for the last. -/
theorem pairwise_orders_iff {ids : List Nat} (hzero : 0 ∉ ids) :
    (0 :: ids).dropLast.Pairwise (· < ·) ↔ ids.dropLast.Pairwise (· < ·) := by
  cases ids with
  | nil => simp
  | cons a ids =>
      rw [List.dropLast_cons_cons, List.pairwise_cons]
      refine ⟨And.right, fun h => ⟨?_, h⟩⟩
      intro b hb
      have hmem : b ∈ a :: ids := (List.dropLast_subset _) hb
      exact Nat.pos_of_ne_zero fun hb => hzero (hb ▸ hmem)

/-- Sorting siblings gives the server's order if and only if their ids go up, but for the last. -/
theorem sort_siblings_iff (sorter : SortBy TsChannel.order) (h : ServerOrder channels chain)
    (hids : (0 :: channels.map TsChannel.id).Nodup) (p : Nat) :
    sorter.sort (channels.filter (·.parentId == p)) = chain p ↔
      ((chain p).map TsChannel.id).dropLast.Pairwise (· < ·) := by
  have hnodup := h.nodup hids p
  have hkeys : ((chain p).map TsChannel.order).Nodup := by
    rw [h.orders p]
    exact hnodup.sublist (List.dropLast_sublist _)
  rw [sorter.sort_eq_iff (h.perm p) hkeys, h.orders p]
  exact pairwise_orders_iff (List.nodup_cons.mp hnodup).1

/-- `_roots` and `children` list the siblings in the server's order if and only if the ids ascend
along it, except for the last of each group. -/
theorem siblingOrder_iff (sorter : SortBy TsChannel.order) (t : ChannelTree)
    {chain : Nat → List TsChannel} (h : ServerOrder t.channels chain)
    (hids : (0 :: t.channels.map TsChannel.id).Nodup) :
    (t.roots sorter = chain 0 ∧ ∀ c ∈ t.channels, c.children sorter t.channels = chain c.id) ↔
      ∀ p ∈ 0 :: t.channels.map TsChannel.id,
        ((chain p).map TsChannel.id).dropLast.Pairwise (· < ·) := by
  rw [List.forall_mem_cons, List.forall_mem_map]
  refine and_congr (sort_siblings_iff sorter h hids 0) (forall₂_congr fun c _ => ?_)
  exact sort_siblings_iff sorter h hids c.id

/-- Channels without sub-channels. -/
theorem serverOrder_flat (siblings : List TsChannel) (hroot : ∀ c ∈ siblings, c.parentId = 0)
    (hperm : siblings.Perm channels)
    (horders : siblings.map TsChannel.order = (0 :: siblings.map TsChannel.id).dropLast) :
    ServerOrder channels fun p => if p = 0 then siblings else [] where
  perm p := by
    have hall : ∀ c ∈ channels, c.parentId = 0 := fun c hc => hroot c (hperm.mem_iff.mpr hc)
    split
    · rename_i hp
      rwa [List.filter_eq_self.mpr fun c hc => by rw [hall c hc, hp, beq_self_eq_true]]
    · rename_i hp
      rw [List.filter_eq_nil_iff.mpr fun c hc => by simp [hall c hc, Ne.symm hp]]
  orders p := by
    split
    · exact horders
    · rfl

/-- A channel was added behind two others. The ids ascend, except for the last. -/
theorem siblingOrder_added :
    let t : ChannelTree := ⟨[⟨4, 0, 2⟩, ⟨2, 0, 0⟩, ⟨3, 0, 4⟩], [], [], []⟩
    t.roots (.merge TsChannel.order) = [⟨2, 0, 0⟩, ⟨4, 0, 2⟩, ⟨3, 0, 4⟩] := by
  have h : ServerOrder [⟨4, 0, 2⟩, ⟨2, 0, 0⟩, ⟨3, 0, 4⟩] _ :=
    serverOrder_flat [⟨2, 0, 0⟩, ⟨4, 0, 2⟩, ⟨3, 0, 4⟩] (by decide) (by decide) (by decide)
  exact ((siblingOrder_iff (.merge TsChannel.order) ⟨_, [], [], []⟩ h (by decide)).mpr
    (by decide)).1

/-- Channel 3 was moved behind channel 5, and channel 7 stands last. Channel 7 is shown before
channel 3. -/
theorem not_siblingOrder : ∃ (t : ChannelTree) (chain : Nat → List TsChannel),
    ServerOrder t.channels chain ∧ (0 :: t.channels.map TsChannel.id).Nodup ∧
      ∀ sorter, t.roots sorter ≠ chain 0 := by
  have h : ServerOrder [⟨3, 0, 5⟩, ⟨5, 0, 0⟩, ⟨7, 0, 3⟩] _ :=
    serverOrder_flat [⟨5, 0, 0⟩, ⟨3, 0, 5⟩, ⟨7, 0, 3⟩] (by decide) (by decide) (by decide)
  refine ⟨⟨_, [], [], []⟩, _, h, by decide, ?_⟩
  intro sorter hroots
  have hascend := (sort_siblings_iff sorter h (by decide) 0).mp hroots
  exact absurd hascend (by decide)

/-! ### The server's channels -/

/-- The channels of the book, in the server's order. -/
structure BookOrder (book : List BookChannel) (chain : UInt64 → List BookChannel) : Prop where
  perm : ∀ p, (chain p).Perm (book.filter (·.parent == p))
  orders : ∀ p, (chain p).map BookChannel.order = (0 :: (chain p).map BookChannel.id).dropLast

/-- A parent that fits in 32 bits is the parent that Dart reads. -/
theorem parentId_toTsChannel {c : BookChannel} (hsmall : c.parent.toNat < 2 ^ 32) :
    c.toTsChannel.parentId = c.parent.toNat := by
  rw [BookChannel.toTsChannel]
  split
  · rename_i hzero
    rw [hzero]
    rfl
  · show c.parent.toUInt32.toNat = c.parent.toNat
    rw [UInt64.toNat_toUInt32, Nat.mod_eq_of_lt hsmall]

/-- `refresh_from_book` keeps the server's order where the parents are numbers below `2 ^ 32`. -/
theorem serverOrder_toTsChannel {book : List BookChannel} {chain : UInt64 → List BookChannel}
    (h : BookOrder book chain) (hsmall : ∀ c ∈ book, c.parent.toNat < 2 ^ 32) :
    ServerOrder (book.map BookChannel.toTsChannel) fun p =>
      if p < 2 ^ 32 then (chain (.ofNat p)).map BookChannel.toTsChannel else [] where
  -- Cutting to 32 bits tells the parents apart that are numbers below `2 ^ 32`.
  perm p := by
    rw [List.filter_map]
    split
    · rename_i hp
      have hsame : book.filter ((fun c => c.parentId == p) ∘ BookChannel.toTsChannel) =
          book.filter (·.parent == .ofNat p) := by
        refine List.filter_congr ?_
        intro c hc
        have hp : p < UInt64.size := lt_trans hp (by decide)
        rw [Function.comp_apply, parentId_toTsChannel (hsmall c hc), Bool.eq_iff_iff, beq_iff_eq,
          beq_iff_eq, ← UInt64.toNat_inj, UInt64.toNat_ofNat_of_lt' hp]
      rw [hsame]
      exact (h.perm _).map _
    -- No channel has a parent from there on.
    · rename_i hp
      rw [List.filter_eq_nil_iff.mpr, List.map_nil]
      intro c hc
      rw [Function.comp_apply, parentId_toTsChannel (hsmall c hc), beq_iff_eq]
      have := hsmall c hc
      omega
  -- The order is cut along with the ids, and it is still the id of the one before.
  orders p := by
    split
    · have hcut := congrArg (List.map fun n : UInt64 => n.toUInt32.toNat) (h.orders (.ofNat p))
      rw [List.map_dropLast, List.map_cons, List.map_map, List.map_map] at hcut
      rw [List.map_map, List.map_map]
      exact hcut
    · rfl

end Nek0.Proofs.Dart
