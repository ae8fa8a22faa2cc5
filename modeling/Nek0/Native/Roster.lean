/-!
# `Nek0.Native.Roster`: the channel and client lists

The parts of `TsChannel` and `TsClient` (`native/src/lib.rs`) that the modelled functions read.
-/

set_option autoImplicit false

namespace Nek0.Native

/-- A monotonic time stamp, in milliseconds. -/
abbrev Instant := Nat

/-- `TsChannel`, as `refresh_from_book` fills it. -/
structure TsChannel where
  id : UInt32
  parentId : UInt32
  order : UInt32
  deriving DecidableEq, Repr

/-- `TsClient`, as `refresh_from_book` fills it. -/
structure TsClient where
  id : UInt32
  channelId : UInt32
  uid : Option String
  databaseId : UInt64
  deriving DecidableEq, Repr

end Nek0.Native
