import Nek0.Native.RemotePaths

/-!
# `Nek0.Dart.FtCalls`: the file-transfer calls of `TsNative`

`ftListToken`, `ftDelete` and `ftDownload` of `lib/services/ts_ffi.dart`, down to the command that
the native side makes of the call. It refuses some paths and passes the others on in its own form,
so what a call comes to here are the paths of its command.
-/

set_option autoImplicit false

namespace Nek0.Dart

open Nek0.Native (cstrToString tsFtDelete tsFtDownload tsFtList)

/-- The arguments of the native calls beside the path. Each request has a token of its own. The
paths to delete go through `jsonEncode`, and the native side reads them back with `fromStr`. -/
structure TsNative where
  channelId : UInt32
  password : Option String
  token : Nat → String
  jsonEncode : List String → String
  fromStr : String → Option (List String)
  token_ne_empty : ∀ n, (cstrToString (some (token n))).isEmpty = false
  fromStr_jsonEncode : ∀ path, fromStr (cstrToString (some (jsonEncode [path]))) = some [path]

namespace TsNative

/-- `ftListToken`: the path of the command, unless `ts_ft_list` refuses. -/
def ftListToken (N : TsNative) (n : Nat) (path : String) : Option String :=
  match tsFtList N.channelId (some path) N.password (some (N.token n)) with
  | some (.queueFtCommand (.ftList _ path _ _)) => some path
  | _ => none

/-- `ftDelete`: the paths of the command, unless `ts_ft_delete` refuses. -/
def ftDelete (N : TsNative) (n : Nat) (paths : List String) : Option (List String) :=
  match tsFtDelete N.fromStr N.channelId (some (N.jsonEncode paths)) N.password
    (some (N.token n)) with
  | some (.queueFtCommand (.ftDelete _ names _ _)) => some names
  | _ => none

/-- `ftDownload`: the remote path of the transfer, unless `ts_ft_download` refuses. -/
def ftDownload (N : TsNative) (remotePath destLocalPath : String) : Option String :=
  match tsFtDownload N.channelId (some remotePath) (some destLocalPath) N.password with
  | some (.startTransfer t) => some t.path
  | _ => none

end TsNative

end Nek0.Dart
