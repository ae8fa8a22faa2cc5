import Nek0.Lib.Sorting

/-!
# `Nek0.Dart.ChannelTree`: the channel tree

`TsChannel.children` (`lib/models/channel.dart`) and `_ChannelTreeState`
(`lib/widgets/channel_tree.dart`), with what `refresh_from_book` makes of the server's channels: the
numbers are cut to 32 bits. `_buildTile` follows the children without a visited set, so here
it has fuel: `none` tells that it has not come to an end.

`List.sort` is not stable. It is a `SortBy`, of which nothing more is known.

Left out: what a row shows besides its place, and the taps on it.
-/

set_option autoImplicit false

namespace Nek0.Dart

open Nek0.Lib (SortBy)

/-- `TsChannel`. -/
structure TsChannel where
  id : Nat
  parentId : Nat
  order : Nat
  deriving DecidableEq, Repr

/-- A channel of the library's book. -/
structure BookChannel where
  id : UInt64
  parent : UInt64
  order : UInt64
  deriving DecidableEq, Repr

/-- `refresh_from_book`, for a channel. -/
def BookChannel.toTsChannel (c : BookChannel) : TsChannel where
  id := c.id.toUInt32.toNat
  parentId := if c.parent = 0 then 0 else c.parent.toUInt32.toNat
  order := c.order.toUInt32.toNat

/-- `TsClient`. -/
structure TsClient where
  id : Nat
  channelId : Nat
  deriving DecidableEq, Repr

/-- `children`. -/
def TsChannel.children (sorter : SortBy TsChannel.order) (c : TsChannel) (all : List TsChannel) :
    List TsChannel :=
  sorter.sort (all.filter (·.parentId == c.id))

/-- `_ChannelTreeState` and its widget. -/
structure ChannelTree where
  channels : List TsChannel
  clients : List TsClient
  expanded : List Nat
  collapsed : List Nat

/-- A row of the tree, from top to bottom, and its indentation. -/
inductive Row where
  | channel (c : TsChannel) (depth : Nat)
  | client (c : TsClient) (depth : Nat)
  deriving DecidableEq, Repr

namespace ChannelTree

/-- `_roots`. -/
def roots (sorter : SortBy TsChannel.order) (t : ChannelTree) : List TsChannel :=
  sorter.sort (t.channels.filter (·.parentId == 0))

/-- `_clientsByChannel[channel.id] ?? const []`. -/
def clientsInChannel (t : ChannelTree) (c : TsChannel) : List TsClient :=
  t.clients.filter (·.channelId == c.id)

/-- `isExpanded`. -/
def isExpanded (t : ChannelTree) (c : TsChannel) : Bool :=
  let hasClients := !(t.clientsInChannel c).isEmpty
  if hasClients then !t.collapsed.contains c.id else t.expanded.contains c.id

/-- `_buildTile`. -/
def buildTile (sorter : SortBy TsChannel.order) (t : ChannelTree) :
    Nat → TsChannel → Nat → Option (List Row)
  | 0, _, _ => none
  | fuel + 1, channel, depth =>
    if t.isExpanded channel then
      let children := channel.children sorter t.channels
      (children.mapM fun ch => buildTile sorter t fuel ch (depth + 1)).map fun below =>
        .channel channel depth ::
          ((t.clientsInChannel channel).map (.client · depth) ++ below.flatten)
    else some [.channel channel depth]

/-- `build`: the rows of the list. -/
def build (sorter : SortBy TsChannel.order) (t : ChannelTree) (fuel : Nat) : Option (List Row) :=
  ((t.roots sorter).mapM fun c => t.buildTile sorter fuel c 0).map List.flatten

end ChannelTree

end Nek0.Dart
