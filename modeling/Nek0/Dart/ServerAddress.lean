import Nek0.Dart.ServerList
import Nek0.Native.RemotePaths
import Nek0.Native.Resolver

/-!
# `Nek0.Dart.ServerAddress`: `Server.connectAddress`

`lib/models/server.dart`: the address that is handed to the connection, with the custom voice port.
`intTryParse` is `int.tryParse` without a radix, for integers of 64 bits. A text is the list of its
characters.
-/

set_option autoImplicit false

namespace Nek0.Dart

open Nek0.Native (isDigit numberOf)

/-- What `String.trim` drops: white space and the byte order mark. -/
def isBlank (c : Char) : Bool := Nek0.Native.isWhitespace c || c == '\uFEFF'

/-- `String.trim`. -/
def stringTrim (s : List Char) : List Char := Nek0.Lib.Paths.trim isBlank s

/-- The sign in front of a number, and the rest. -/
def splitSign : List Char → Int × List Char
  | '+' :: rest => (1, rest)
  | '-' :: rest => (-1, rest)
  | s => (1, s)

/-- The number that a text of digits stands for. -/
def parseDigits (radix : Nat) (s : List Char) : Option Nat :=
  if s = [] ∨ s.all (isDigit radix) = false then none else some (numberOf radix s)

/-- The digits behind `0x`. -/
def hexDigits : List Char → Option (List Char)
  | '0' :: 'x' :: digits => some digits
  | '0' :: 'X' :: digits => some digits
  | _ => none

/-- `int.tryParse`. White space around the number is skipped. A hexadecimal number is read as one
without a sign. -/
def intTryParse (s : List Char) : Option Int :=
  let (sign, s) := splitSign (stringTrim s)
  match hexDigits s with
  | some digits =>
    match parseDigits 16 digits with
    | some n => if n < 2 ^ 64 then some ((sign * n).bmod (2 ^ 64)) else none
    | none => none
  | none =>
    match parseDigits 10 s with
    | some n => if -2 ^ 63 ≤ sign * n ∧ sign * n < 2 ^ 63 then some (sign * n) else none
    | none => none

/-- `ServerPorts.voice`. -/
def ServerPorts.voice : Int := 9987

namespace Server

/-- `Server._hasExplicitPort`: brackets in front are stripped first. -/
def stripBrackets (s : List Char) : List Char :=
  if s.head? = some '[' then
    match s.idxOf? ']' with
    | some close => s.drop (close + 1)
    | none => s
  else
    s

/-- `Server._hasExplicitPort`. -/
def hasExplicitPort (a : List Char) : Bool :=
  let s := stripBrackets (stringTrim a)
  match Nek0.Lib.Paths.lastIdxOf? ':' s with
  | none => false
  | some colon => (intTryParse (s.drop (colon + 1))).isSome

/-- `Server.connectAddress`. -/
def connectAddress (s : Server) : String :=
  match s.voicePort with
  | none => s.address
  | some voice =>
    if voice = ServerPorts.voice then
      s.address
    else if hasExplicitPort s.address.toList then
      -- If the address already carries a port leave it as the user entered it
      s.address
    else
      s.address ++ ":" ++ toString voice

end Server

end Nek0.Dart
