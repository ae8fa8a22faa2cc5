import Nek0.Lib.Paths
import Nek0.Native.Calls

/-!
# `Nek0.Native.RemotePaths`: the arguments of the file-transfer calls

`normalize_remote_path`, `valid_remote_path`, and how the six entry points make a call of their
arguments. An entry point that refuses its arguments makes none. `ft_ready` and the queue are in
`Nek0.Native.Calls`.

A C string argument is the string it was made from, or `none` for the null pointer. It ends at the
first NUL. What the entry points get from other code is a parameter: `fromStr` parses a JSON list of
strings, `decode` decodes Base64, and `metadata` gives the size of a local file.
-/

set_option autoImplicit false

namespace Nek0.Native

open Nek0.Lib.Paths (rooted segments)

/-- `char::is_whitespace`: the Unicode property `White_Space`. -/
def isWhitespace (c : Char) : Bool :=
  let n := c.toNat
  (9 ≤ n && n ≤ 13) || n == 0x20 || n == 0x85 || n == 0xA0 || n == 0x1680 ||
    (0x2000 ≤ n && n ≤ 0x200A) || n == 0x2028 || n == 0x2029 || n == 0x202F || n == 0x205F ||
    n == 0x3000

/-- `str::trim`. -/
def trim (s : List Char) : List Char := Nek0.Lib.Paths.trim isWhitespace s

/-- `normalize_remote_path`. -/
def normalizeRemotePath (path : String) : String :=
  .ofList (rooted '/' (segments '/' (trim path.toList)))

/-- `valid_remote_path`. -/
def validRemotePath (path : String) : Bool :=
  if path == "/" then true
  else
    path.toList.head? == some '/' && !path.toList.contains '\x00' &&
      !(path.toList.splitOn '/').any (· == ['.', '.'])

/-- `remote_basename`. -/
def remoteBasename (path : String) : String :=
  (((path.toList.splitOn '/').reverse.find? (!·.isEmpty)).map String.ofList).getD "/"

/-- `cstr_to_string`. -/
def cstrToString : Option String → String
  | none => ""
  | some s => .ofList (s.toList.takeWhile (· ≠ '\x00'))

/-- `ft_password`. -/
def ftPassword (pw : Option String) : Option String :=
  let s := cstrToString pw
  if s.isEmpty then none else some s

/-- `ts_ft_list`. -/
def tsFtList (cid : UInt32) (path pw token : Option String) : Option Call :=
  if token.isNone then none
  else
    let path := normalizeRemotePath (cstrToString path)
    if !validRemotePath path then none
    else
      let token := cstrToString token
      if token.isEmpty then none
      else some (.queueFtCommand (.ftList cid.toUInt64 path (ftPassword pw) token))

/-- `ts_ft_mkdir`. -/
def tsFtMkdir (cid : UInt32) (path pw token : Option String) : Option Call :=
  if token.isNone then none
  else
    let dirname := normalizeRemotePath (cstrToString path)
    if !validRemotePath dirname then none
    else
      let token := cstrToString token
      if token.isEmpty then none
      else some (.queueFtCommand (.ftCreateDir cid.toUInt64 dirname (ftPassword pw) token))

/-- `ts_ft_delete`. -/
def tsFtDelete (fromStr : String → Option (List String)) (cid : UInt32)
    (namesJson pw token : Option String) : Option Call :=
  if token.isNone then none
  else
    match fromStr (cstrToString namesJson) with
    | none => none
    | some raw =>
      -- No names at all.
      if raw.isEmpty then none
      else
        let names := (raw.map normalizeRemotePath).filter validRemotePath
        -- No name is left that is valid.
        if names.isEmpty then none
        else
          let token := cstrToString token
          if token.isEmpty then none
          else some (.queueFtCommand (.ftDelete cid.toUInt64 names (ftPassword pw) token))

/-- `ts_ft_download`. -/
def tsFtDownload (cid : UInt32) (path dest pw : Option String) : Option Call :=
  if dest.isNone then none
  else
    let path := normalizeRemotePath (cstrToString path)
    if !validRemotePath path then none
    else
      let dest := cstrToString dest
      if dest.isEmpty then none
      else
        some (.startTransfer
          { kind := .download, name := remoteBasename path, localPath := dest, total := 0,
            cid := cid.toUInt64, path := path, password := ftPassword pw })

/-- `Uid::as_avatar`: in hexadecimal, with the digits `a` to `p`. -/
def asAvatar (uid : List UInt8) : String :=
  .ofList (uid.flatMap fun (b : UInt8) =>
    [Char.ofNat (97 + (b >>> 4).toNat), Char.ofNat (97 + (b &&& 0xf).toNat)])

/-- `ts_download_avatar`. -/
def tsDownloadAvatar (decode : String → Option (List UInt8)) (uid dest : Option String) :
    Option Call :=
  -- A null pointer.
  if dest.isNone then none
  else
    match decode (cstrToString uid) with
    | none => none
    | some raw =>
      let path := normalizeRemotePath ("/avatar_" ++ asAvatar raw)
      if !validRemotePath path then none
      else
        let dest := cstrToString dest
        if dest.isEmpty then none
        else
          some (.startTransfer
            { kind := .download, name := remoteBasename path, localPath := dest, total := 0,
              cid := 0, path := path, password := none })

/-- `ts_ft_upload`. Only an existing regular file has a size. -/
def tsFtUpload (metadata : String → Option UInt64) (cid : UInt32) (path src pw : Option String) :
    Option Call :=
  -- A null pointer.
  if src.isNone then none
  else
    let path := normalizeRemotePath (cstrToString path)
    if !validRemotePath path then none
    else
      let src := cstrToString src
      if src.isEmpty then none
      else
        match metadata src with
        | none => none
        | some total =>
          some (.startTransfer
            { kind := .upload, name := remoteBasename path, localPath := src, total := total,
              cid := cid.toUInt64, path := path, password := ftPassword pw })

/-- A call of one of the six entry points with its arguments. -/
inductive FtEntry where
  | list (cid : UInt32) (path pw token : Option String)
  | mkdir (cid : UInt32) (path pw token : Option String)
  | delete (cid : UInt32) (namesJson pw token : Option String)
  | download (cid : UInt32) (path dest pw : Option String)
  | downloadAvatar (uid dest : Option String)
  | upload (cid : UInt32) (path src pw : Option String)
  deriving DecidableEq, Repr

/-- What the entry point makes of its arguments. -/
def FtEntry.call (fromStr : String → Option (List String)) (decode : String → Option (List UInt8))
    (metadata : String → Option UInt64) : FtEntry → Option Call
  | .list cid path pw token => tsFtList cid path pw token
  | .mkdir cid path pw token => tsFtMkdir cid path pw token
  | .delete cid namesJson pw token => tsFtDelete fromStr cid namesJson pw token
  | .download cid path dest pw => tsFtDownload cid path dest pw
  | .downloadAvatar uid dest => tsDownloadAvatar decode uid dest
  | .upload cid path src pw => tsFtUpload metadata cid path src pw

end Nek0.Native
