import Mathlib
import Nek0.Dart.ChannelTree
import Nek0.Lib.Forest

/-!
# `Nek0.Proofs.Dart.TreeRows`: the channel tree on any roster

`_buildTile` follows the parent ids of a roster that can have dangling, self-referring and cyclic
ones. It starts at the channels with parent 0, and each channel names one parent. So it visits a
channel only along its one chain of parents, and a chain is no longer than the roster.

* `block_node`: the rows of a channel, from the rows of its children;
* `exists_block`: `_buildTile` comes to an end on a channel whose parents lead to 0;
* `showsTree_build`: the fully expanded tree has a row for each such channel, once, below its parent
  and as deep as its chain is long.
-/

set_option autoImplicit false

namespace Nek0.Proofs.Dart

open Nek0.Lib Nek0.Lib.Forest Nek0.Dart Nek0.Dart.ChannelTree

/-- The parents of the channel lead to 0. -/
abbrev ParentChain (t : ChannelTree) (c : TsChannel) (d : Nat) : Prop :=
  Chain TsChannel.id TsChannel.parentId t.channels c d

/-- The parents of the second channel lead to the first. -/
abbrev IsBelow (t : ChannelTree) (a c : TsChannel) (k : Nat) : Prop :=
  Under TsChannel.id TsChannel.parentId t.channels a c k

/-- The channels of the rows. -/
def channelsOf (rows : List Row) : List TsChannel :=
  rows.filterMap fun
    | .channel c _ => some c
    | .client _ _ => none

/-- A channel that is deeper than `d` stands below its parent, with nothing in between but what is
deeper than the parent. -/
def Nested (d : Nat) (rows : List Row) : Prop :=
  ∀ above c e below, rows = above ++ .channel c (e + 1) :: below → d ≤ e →
    ∃ before p between, above = before ++ .channel p e :: between ∧ p.id = c.parentId ∧
      ∀ c' e', .channel c' e' ∈ between → e < e'

/-- The rows show the roster as a tree. -/
structure ShowsTree (t : ChannelTree) (rows : List Row) : Prop where
  once : (channelsOf rows).Nodup
  shown : ∀ c d, .channel c d ∈ rows ↔ ParentChain t c d
  nested : Nested 0 rows

/-! ### Lists -/

section

variable {α β : Type}

/-- A list is mapped by a partial function if it is defined on each element. -/
theorem mapM_eq_some_map {f : α → Option β} {g : α → β} {l : List α}
    (h : ∀ a ∈ l, f a = some (g a)) : l.mapM f = some (l.map g) := by
  induction l with
  | nil => rfl
  | cons a l ih =>
      rw [List.mapM_cons, h a List.mem_cons_self, ih fun b hb => h b (List.mem_cons_of_mem a hb)]
      rfl

/-- An element of a concatenation is in the first list or in the second. -/
theorem append_eq_append_cons {xs ys above below : List α} {r : α}
    (h : xs ++ ys = above ++ r :: below) :
    (∃ rest, xs = above ++ r :: rest) ∨ ∃ rest, above = xs ++ rest ∧ ys = rest ++ r :: below := by
  rw [List.append_eq_append_iff] at h
  cases h with
  | inl h =>
      obtain ⟨rest, habove, hys⟩ := h
      exact .inr ⟨rest, habove, hys⟩
  | inr h =>
      obtain ⟨rest, hxs, hrest⟩ := h
      cases rest with
      | nil => exact .inr ⟨[], by simpa using hxs.symm, by simpa using hrest.symm⟩
      | cons r' rest =>
          injection hrest with hr _
          exact .inl ⟨rest, hr ▸ hxs⟩

end

/-- The channels of the rows are those that have a row. -/
theorem mem_channelsOf {rows : List Row} {c : TsChannel} :
    c ∈ channelsOf rows ↔ ∃ d, .channel c d ∈ rows := by
  unfold channelsOf
  rw [List.mem_filterMap]
  constructor
  · rintro ⟨row, hmem, hrow⟩
    cases row with
    | channel c' d =>
        obtain rfl := Option.some.inj hrow
        exact ⟨d, hmem⟩
    | client => cases hrow
  · rintro ⟨d, hmem⟩
    exact ⟨_, hmem, rfl⟩

theorem channelsOf_flatMap (l : List TsChannel) (g : TsChannel → List Row) :
    channelsOf (l.flatMap g) = l.flatMap fun c => channelsOf (g c) := by
  unfold channelsOf
  rw [List.filterMap_flatMap]

/-- Nested rows one behind the other are nested. -/
theorem Nested.append {d : Nat} {xs ys : List Row} (hxs : Nested d xs) (hys : Nested d ys) :
    Nested d (xs ++ ys) := by
  intro above c e below hrows hd
  cases append_eq_append_cons hrows with
  | inl h =>
      obtain ⟨rest, hrest⟩ := h
      exact hxs above c e rest hrest hd
  | inr h =>
      obtain ⟨rest, habove, hrest⟩ := h
      obtain ⟨before, p, between, hsplit, hp, hbetween⟩ := hys rest c e below hrest hd
      refine ⟨xs ++ before, p, between, ?_, hp, hbetween⟩
      rw [habove, hsplit, List.append_assoc]

/-- So are those of many channels. -/
theorem nested_flatMap {d : Nat} {l : List TsChannel} {g : TsChannel → List Row}
    (h : ∀ c ∈ l, Nested d (g c)) : Nested d (l.flatMap g) := by
  induction l with
  | nil =>
      intro above c e below hrows
      simp at hrows
  | cons c l ih =>
      rw [List.flatMap_cons]
      exact (h c List.mem_cons_self).append (ih fun b hb => h b (List.mem_cons_of_mem c hb))

/-! ### The rows of a channel -/

/-- The rows of a channel at a depth. -/
structure Block (t : ChannelTree) (c : TsChannel) (d : Nat) (rows : List Row) : Prop where
  head : .channel c d ∈ rows
  below : ∀ c' d', .channel c' d' ∈ rows → ∃ k, d' = d + k ∧ IsBelow t c c' k
  once : (channelsOf rows).Nodup
  nested : Nested d rows
  closed : (∀ c ∈ t.channels, t.isExpanded c = true) → ∀ p e, .channel p e ∈ rows →
    ∀ c ∈ t.channels, c.parentId = p.id → .channel c (e + 1) ∈ rows

variable {t : ChannelTree}

/-- The rows of siblings have no channel in common. -/
theorem once_siblings (hids : Distinct TsChannel.id t.channels) {d : Nat} {l : List TsChannel}
    {g : TsChannel → List Row} (hnodup : l.Nodup) (hl : ∀ c ∈ l, ParentChain t c d)
    (hg : ∀ c ∈ l, Block t c d (g c)) : (channelsOf (l.flatMap g)).Nodup := by
  rw [channelsOf_flatMap, List.nodup_flatMap]
  refine ⟨fun c hc => (hg c hc).once, hnodup.pairwise_of_forall_ne ?_⟩
  intro a ha b hb hab c hca hcb
  obtain ⟨e, he⟩ := mem_channelsOf.mp hca
  obtain ⟨f, hf⟩ := mem_channelsOf.mp hcb
  obtain ⟨k, -, hk⟩ := (hg a ha).below c e he
  obtain ⟨j, -, hj⟩ := (hg b hb).below c f hf
  have hdepth := ((hl a ha).under hk).depth_unique hids ((hl b hb).under hj)
  obtain rfl : k = j := by omega
  exact hab (hk.unique hids (hl a ha).mem (hl b hb).mem hj)

theorem mem_children {sorter : SortBy TsChannel.order} {c ch : TsChannel} :
    ch ∈ c.children sorter t.channels ↔ ch ∈ t.channels ∧ ch.parentId = c.id := by
  rw [TsChannel.children, sorter.mem_sort, List.mem_filter, beq_iff_eq]

theorem nodup_children (sorter : SortBy TsChannel.order)
    (hids : Distinct TsChannel.id t.channels) (c : TsChannel) :
    (c.children sorter t.channels).Nodup :=
  (sorter.perm _).nodup_iff.mpr (hids.nodup.filter _)

/-- The rows of a channel that is not expanded. -/
theorem block_folded {c : TsChannel} {d : Nat} (hc : ParentChain t c d)
    (hfolded : t.isExpanded c = false) : Block t c d [.channel c d] where
  head := List.mem_singleton_self _
  below c' d' h := by
    injection List.mem_singleton.mp h with hc' hd'
    exact ⟨0, hd', hc' ▸ .self⟩
  once := List.nodup_singleton c
  nested := by
    intro above c' e below hrows hd
    cases above with
    | nil =>
        injection hrows with hrow _
        injection hrow with _ hdepth
        omega
    | cons row above => simp at hrows
  closed hfull := by
    rw [hfull c hc.mem] at hfolded
    cases hfolded

/-- The rows of an expanded channel: its own, its clients', and those of its children. -/
theorem block_node {sorter : SortBy TsChannel.order} (hids : Distinct TsChannel.id t.channels)
    {c : TsChannel} {d : Nat} (hc : ParentChain t c d) {g : TsChannel → List Row}
    (hg : ∀ ch ∈ c.children sorter t.channels, Block t ch (d + 1) (g ch)) :
    Block t c d (.channel c d :: ((t.clientsInChannel c).map (.client · d) ++
      (c.children sorter t.channels).flatMap g)) := by
  have hchain : ∀ ch ∈ c.children sorter t.channels, ParentChain t ch (d + 1) := by
    intro ch hch
    exact .child hc (mem_children.mp hch).1 (mem_children.mp hch).2
  -- Every other channel is below a child.
  have hrest : ∀ c' d', .channel c' d' ∈ (t.clientsInChannel c).map (Row.client · d) ++
      (c.children sorter t.channels).flatMap g →
      ∃ ch ∈ c.children sorter t.channels, .channel c' d' ∈ g ch ∧
        ∃ k, d' = d + 1 + k ∧ IsBelow t ch c' k := by
    intro c' d' h
    cases List.mem_append.mp h with
    | inl h => simp at h
    | inr h =>
        obtain ⟨ch, hch, hmem⟩ := List.mem_flatMap.mp h
        exact ⟨ch, hch, hmem, (hg ch hch).below c' d' hmem⟩
  have honce : channelsOf ((t.clientsInChannel c).map (Row.client · d) ++
      (c.children sorter t.channels).flatMap g) =
      channelsOf ((c.children sorter t.channels).flatMap g) := by
    simp [channelsOf]
  refine ⟨List.mem_cons_self, ?_, ?_, ?_, ?_⟩
  · intro c' d' h
    cases List.mem_cons.mp h with
    | inl h =>
        injection h with hc' hd'
        exact ⟨0, hd', hc' ▸ .self⟩
    | inr h =>
        obtain ⟨ch, hch, -, k, hd', hk⟩ := hrest c' d' h
        exact ⟨k + 1, by omega, .cons (mem_children.mp hch).1 (mem_children.mp hch).2 hk⟩
  · rw [show channelsOf (.channel c d :: ((t.clientsInChannel c).map (Row.client · d) ++
        (c.children sorter t.channels).flatMap g)) = c :: channelsOf _ from rfl, honce,
      List.nodup_cons]
    refine ⟨?_, once_siblings hids (nodup_children sorter hids c) hchain hg⟩
    rw [← honce, mem_channelsOf]
    rintro ⟨d', h⟩
    obtain ⟨ch, hch, -, k, -, hk⟩ := hrest c d' h
    have hdepth := hc.depth_unique hids ((hchain ch hch).under hk)
    omega
  · intro above c' e below hrows hd
    cases above with
    | nil =>
        injection hrows with hrow _
        injection hrow with _ hdepth
        omega
    | cons row above =>
        injection hrows with hrow hrows
        subst hrow
        rcases Nat.eq_or_lt_of_le hd with rfl | hd
        · -- A child of `c` itself.
          obtain ⟨ch, hch, -, k, hk, hbelow⟩ := hrest c' (d + 1) (by rw [hrows]; simp)
          obtain rfl : k = 0 := by omega
          cases hbelow
          refine ⟨[], c, above, rfl, (mem_children.mp hch).2.symm, ?_⟩
          intro c'' e'' hmem
          obtain ⟨_, _, _, k, hk, _⟩ := hrest c'' e'' (by rw [hrows]; simp [hmem])
          omega
        · cases append_eq_append_cons hrows with
          | inl h =>
              obtain ⟨rest, hclients⟩ := h
              have hmem : Row.channel c' (e + 1) ∈ (t.clientsInChannel c).map (Row.client · d) := by
                rw [hclients]
                simp
              simp at hmem
          | inr h =>
              obtain ⟨rest, habove, hchildren⟩ := h
              obtain ⟨before, p, between, hsplit, hp, hbetween⟩ :=
                nested_flatMap (fun ch hch => (hg ch hch).nested) rest c' e below hchildren hd
              refine ⟨.channel c d :: ((t.clientsInChannel c).map (Row.client · d) ++ before), p,
                between, ?_, hp, hbetween⟩
              rw [habove, hsplit, List.cons_append, List.append_assoc]
  · intro hfull p e hp c' hc' hparent
    refine List.mem_cons_of_mem _ (List.mem_append_right _ (List.mem_flatMap.mpr ?_))
    cases List.mem_cons.mp hp with
    | inl h =>
        injection h with hpc he
        subst hpc he
        exact ⟨c', mem_children.mpr ⟨hc', hparent⟩, (hg c' (mem_children.mpr ⟨hc', hparent⟩)).head⟩
    | inr h =>
        obtain ⟨ch, hch, hmem, -⟩ := hrest p e h
        exact ⟨ch, hch, (hg ch hch).closed hfull p e hmem c' hc' hparent⟩

/-- On a channel whose parents lead to 0, `_buildTile` comes to an end. The induction is on what is
left of the longest possible chain. -/
theorem exists_block (sorter : SortBy TsChannel.order) (hids : Distinct TsChannel.id t.channels)
    {n : Nat} {c : TsChannel} {d : Nat} (hc : ParentChain t c d) (hn : t.channels.length ≤ d + n) :
    ∃ rows, Block t c d rows ∧
      ∀ fuel, t.channels.length ≤ d + fuel → t.buildTile sorter fuel c d = some rows := by
  have hdepth := hc.lt_length hids
  induction n generalizing c d with
  -- A chain is not longer than there are channels, so there is always fuel left.
  | zero => omega
  | succ n ih =>
      cases hexpanded : t.isExpanded c with
      | false =>
          refine ⟨_, block_folded hc hexpanded, ?_⟩
          intro fuel hfuel
          obtain ⟨fuel, rfl⟩ : ∃ m, fuel = m + 1 := ⟨fuel - 1, by omega⟩
          rw [buildTile, hexpanded, if_neg (by decide)]
      | true =>
          -- A child is one level deeper on its chain, where the induction applies.
          have hchild : ∀ ch ∈ c.children sorter t.channels,
              ∃ rows, Block t ch (d + 1) rows ∧ ∀ fuel, t.channels.length ≤ d + 1 + fuel →
                t.buildTile sorter fuel ch (d + 1) = some rows := by
            intro ch hch
            have hchain : ParentChain t ch (d + 1) :=
              .child hc (mem_children.mp hch).1 (mem_children.mp hch).2
            exact ih hchain (by omega) (hchain.lt_length hids)
          choose! g hg hbuild using hchild
          refine ⟨_, block_node hids hc hg, ?_⟩
          intro fuel hfuel
          obtain ⟨fuel, rfl⟩ : ∃ m, fuel = m + 1 := ⟨fuel - 1, by omega⟩
          rw [buildTile, hexpanded, if_pos rfl]
          dsimp only
          rw [mapM_eq_some_map fun ch hch => hbuild ch hch fuel (by omega), Option.map_some,
            List.flatMap_def]

/-! ### The tree -/

theorem mem_roots {sorter : SortBy TsChannel.order} {c : TsChannel} :
    c ∈ t.roots sorter ↔ c ∈ t.channels ∧ c.parentId = 0 := by
  rw [roots, sorter.mem_sort, List.mem_filter, beq_iff_eq]

/-- The rows of the roots together show the roster as a tree. -/
theorem showsTree_roots {sorter : SortBy TsChannel.order} (hids : Distinct TsChannel.id t.channels)
    (hfull : ∀ c ∈ t.channels, t.isExpanded c = true) {g : TsChannel → List Row}
    (hg : ∀ c ∈ t.roots sorter, Block t c 0 (g c)) :
    ShowsTree t ((t.roots sorter).flatMap g) := by
  have hchain : ∀ c ∈ t.roots sorter, ParentChain t c 0 := by
    intro c hc
    exact .root (mem_roots.mp hc).1 (mem_roots.mp hc).2
  have hnodup : (t.roots sorter).Nodup := (sorter.perm _).nodup_iff.mpr (hids.nodup.filter _)
  refine ⟨once_siblings hids hnodup hchain hg, fun c d => ⟨?_, ?_⟩,
    nested_flatMap fun c hc => (hg c hc).nested⟩
  · intro h
    obtain ⟨r, hr, hmem⟩ := List.mem_flatMap.mp h
    obtain ⟨k, rfl, hk⟩ := (hg r hr).below c d hmem
    exact (hchain r hr).under hk
  · intro h
    rw [List.mem_flatMap]
    -- A root has a row, and a channel with a row has its children below it.
    induction h with
    | root hmem hparent =>
        exact ⟨_, mem_roots.mpr ⟨hmem, hparent⟩, (hg _ (mem_roots.mpr ⟨hmem, hparent⟩)).head⟩
    | child hp hmem hparent ih =>
        obtain ⟨r, hr, hrow⟩ := ih
        exact ⟨r, hr, (hg r hr).closed hfull _ _ hrow _ hmem hparent⟩

/-- Building the fully expanded tree comes to an end, and shows the roster as a tree. -/
theorem showsTree_build (sorter : SortBy TsChannel.order) (t : ChannelTree)
    (hids : (0 :: t.channels.map TsChannel.id).Nodup)
    (hfull : ∀ c ∈ t.channels, t.isExpanded c = true) :
    ∃ rows, ShowsTree t rows ∧
      ∀ fuel ≥ t.channels.length, t.build sorter fuel = some rows := by
  have hroot : ∀ c ∈ t.roots sorter, ∃ rows, Block t c 0 rows ∧
      ∀ fuel, t.channels.length ≤ 0 + fuel → t.buildTile sorter fuel c 0 = some rows := by
    intro c hc
    exact exists_block sorter hids (.root (mem_roots.mp hc).1 (mem_roots.mp hc).2)
      (Nat.le_add_left _ _)
  choose! g hg hbuild using hroot
  refine ⟨_, showsTree_roots hids hfull hg, ?_⟩
  intro fuel hfuel
  rw [build, mapM_eq_some_map fun c hc => hbuild c hc fuel (by omega), Option.map_some,
    List.flatMap_def]

/-- A roster with a tree of three channels, a cycle, and a channel whose parent does not exist. -/
def oddRoster : ChannelTree where
  channels := [⟨3, 2, 0⟩, ⟨1, 0, 0⟩, ⟨2, 1, 0⟩, ⟨4, 5, 0⟩, ⟨5, 4, 0⟩, ⟨6, 6, 0⟩, ⟨7, 9, 0⟩]
  clients := [⟨10, 2⟩]
  expanded := [1, 3, 4, 5, 6, 7]
  collapsed := []

/-- Its tree is built. -/
theorem showsTree_oddRoster :
    ∃ rows, ShowsTree oddRoster rows ∧
      ∀ fuel ≥ 7, oddRoster.build (.merge TsChannel.order) fuel = some rows :=
  showsTree_build (.merge TsChannel.order) oddRoster (by decide) (by decide)

example : (oddRoster.build (.merge TsChannel.order) 7) =
    some [.channel ⟨1, 0, 0⟩ 0, .channel ⟨2, 1, 0⟩ 1, .client ⟨10, 2⟩ 1, .channel ⟨3, 2, 0⟩ 2] := by
  decide +kernel

end Nek0.Proofs.Dart
