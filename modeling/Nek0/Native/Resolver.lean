import Nek0.Lib.Parser
import Nek0.Lib.Paths

/-!
# `Nek0.Native.Resolver`: what an address of a server denotes

`parse_ip` of `local_tsclientlib/tsclientlib/src/resolver.rs`, with the readers of `std::net` that
it calls (`Ipv4Addr`, `Ipv6Addr`, `SocketAddr`, and `ToSocketAddrs` for a text and for a text with a
port). A text is the list of its characters. A position counts characters, not bytes: positions are
only compared, and used to cut the text that they were found in.

Where the operating system looks up a name, the result holds the name (`Host.name`).
-/

set_option autoImplicit false

namespace Nek0.Native

open Nek0.Lib (Parser)
open Nek0.Lib.Parser (char span)

/-! ### Numbers -/

/-- `char::to_digit`. -/
def toDigit (radix : Nat) (c : Char) : Option Nat :=
  let digit :=
    if '0' ≤ c ∧ c ≤ '9' then c.toNat - '0'.toNat
    else if 'a' ≤ c ∧ c ≤ 'z' then c.toNat - 'a'.toNat + 10
    else if 'A' ≤ c ∧ c ≤ 'Z' then c.toNat - 'A'.toNat + 10
    else radix
  if digit < radix then some digit else none

def isDigit (radix : Nat) (c : Char) : Bool := (toDigit radix c).isSome

/-- The number that the digits stand for. -/
def numberOf (radix : Nat) (digits : List Char) : Nat :=
  digits.foldl (fun n c => radix * n + (toDigit radix c).getD 0) 0

/-- `Parser::read_number`, for a type whose largest value is `max`. -/
def readNumber (radix : Nat) (maxDigits : Option Nat) (allowZeroPrefix : Bool) (max : Nat) :
    Parser Nat := do
  let digits ← span (isDigit radix)
  if digits = [] ∨ maxDigits.any (· < digits.length) = true ∨
      (allowZeroPrefix = false ∧ digits.head? = some '0' ∧ 1 < digits.length) ∨
      max < numberOf radix digits then
    failure
  else
    pure (numberOf radix digits)

/-- A number may start with a plus sign. -/
def stripPlus : List Char → List Char
  | '+' :: rest => rest
  | s => s

/-- `u16::from_str`. -/
def parseU16 (s : List Char) : Option Nat :=
  let digits := stripPlus s
  if digits = [] ∨ digits.all (isDigit 10) = false ∨ 65535 < numberOf 10 digits then
    none
  else
    some (numberOf 10 digits)

/-! ### Addresses -/

/-- `IpAddr`: four bytes, or eight groups of sixteen bits. -/
inductive IpAddr where
  | v4 (octets : List Nat)
  | v6 (groups : List Nat)
  deriving DecidableEq, Repr

/-- An address, or a name that the operating system looks up. -/
inductive Host where
  | ip (addr : IpAddr)
  | name (name : List Char)
  deriving DecidableEq, Repr

/-- `SocketAddr`. -/
structure SocketAddr where
  host : Host
  port : Nat
  scopeId : Nat
  deriving DecidableEq, Repr

/-- `Parser::read_separator`. -/
def readSeparator {α : Type} (sep : Char) (index : Nat) (inner : Parser α) : Parser α :=
  if 0 < index then do
    char sep
    inner
  else
    inner

/-- `Parser::read_ipv4_addr`: the bytes from the given one on. -/
def readOctets (index : Nat) : Nat → Parser (List Nat)
  | 0 => pure []
  | left + 1 => do
    let octet ← readSeparator '.' index (readNumber 10 (some 3) false 255)
    let octets ← readOctets (index + 1) left
    pure (octet :: octets)

/-- `Parser::read_ipv4_addr`. -/
def readIpv4Addr : Parser (List Nat) := readOctets 0 4

/-- The two groups that four bytes fill. -/
def groupsOf : List Nat → List Nat
  | [one, two, three, four] => [one * 256 + two, three * 256 + four]
  | _ => []

/-- `read_groups` of `Parser::read_ipv6_addr`, from group `index` on with `left` groups to go. Also
says whether the last two groups were read as an IPv4 address, for which there must be two. -/
def readGroups (index : Nat) : Nat → Parser (List Nat × Bool)
  | 0 => pure ([], false)
  | left + 1 => do
    let ipv4 ← (if 0 < left then optional (readSeparator ':' index readIpv4Addr) else pure none)
    match ipv4 with
    | some octets => pure (groupsOf octets, true)
    | none => do
      let group ← optional (readSeparator ':' index (readNumber 16 (some 4) true 65535))
      match group with
      | none => pure ([], false)
      | some g => do
        let rest ← readGroups (index + 1) left
        pure (g :: rest.1, rest.2)

/-- `Parser::read_ipv6_addr`. -/
def readIpv6Addr : Parser (List Nat) := do
  let head ← readGroups 0 8
  if head.1.length = 8 then
    pure head.1
  else if head.2 = true then
    -- IPv4 part is not allowed before `::`
    failure
  else do
    char ':'
    char ':'
    let tail ← readGroups 0 (8 - (head.1.length + 1))
    pure (head.1 ++ List.replicate (8 - head.1.length - tail.1.length) 0 ++ tail.1)

/-- `Parser::read_ip_addr`. -/
def readIpAddr : Parser IpAddr := IpAddr.v4 <$> readIpv4Addr <|> IpAddr.v6 <$> readIpv6Addr

/-- `Parser::read_port`. -/
def readPort : Parser Nat := do
  char ':'
  readNumber 10 none true 65535

/-- `Parser::read_scope_id`. -/
def readScopeId : Parser Nat := do
  char '%'
  readNumber 10 none true 4294967295

/-- `Parser::read_socket_addr_v4`. -/
def readSocketAddrV4 : Parser SocketAddr := do
  let octets ← readIpv4Addr
  let port ← readPort
  pure { host := .ip (.v4 octets), port := port, scopeId := 0 }

/-- `Parser::read_socket_addr_v6`. -/
def readSocketAddrV6 : Parser SocketAddr := do
  char '['
  let groups ← readIpv6Addr
  let scopeId ← optional readScopeId
  char ']'
  let port ← readPort
  pure { host := .ip (.v6 groups), port := port, scopeId := scopeId.getD 0 }

/-- `Parser::read_socket_addr`. -/
def readSocketAddr : Parser SocketAddr := readSocketAddrV4 <|> readSocketAddrV6

/-! ### `parse_ip` -/

/-- `str::find`. -/
def find (c : Char) (s : List Char) : Option Nat := s.idxOf? c

/-- `str::rfind`. -/
def rfind (c : Char) (s : List Char) : Option Nat := Nek0.Lib.Paths.lastIdxOf? c s

/-- `ToSocketAddrs for str`. -/
def toSocketAddrs (s : List Char) : Option SocketAddr :=
  match readSocketAddr.whole s with
  | some addr => some addr
  | none => do
    let pos ← rfind ':' s
    let port ← parseU16 (s.drop (pos + 1))
    some { host := .name (s.take pos), port := port, scopeId := 0 }

/-- `ToSocketAddrs for (&str, u16)`. -/
def toSocketAddrsWith (host : List Char) (port : Nat) : SocketAddr :=
  match readIpAddr.whole host with
  | some ip => { host := .ip ip, port := port, scopeId := 0 }
  | none => { host := .name host, port := port, scopeId := 0 }

/-- `DEFAULT_PORT`. -/
def DEFAULT_PORT : Nat := 9987

/-- The errors of `parse_ip`. -/
inductive ResolveError where
  | invalidIp4Address
  | invalidIp6Address
  | invalidIpAddress
  | invalidPort
  deriving DecidableEq, Repr

/-- `ParseIpResult`. -/
inductive ParseIpResult where
  | addr (addr : SocketAddr)
  | other (name : List Char) (port : Option Nat)
  deriving DecidableEq, Repr

/-- `Ok(ParseIpResult::Addr(addr?))`, with the error of the branch. -/
def addrOr (error : ResolveError) : Option SocketAddr → Except ResolveError ParseIpResult
  | some addr => .ok (.addr addr)
  | none => .error error

/-- A digit or a dot. -/
def isIpv4Char (c : Char) : Bool := isDigit 10 c || c == '.'

/-- `parse_ip`. -/
def parseIp (address : List Char) : Except ResolveError ParseIpResult :=
  match rfind ':' address with
  | some pos =>
    -- Either with port or IPv6 address
    if find ':' address = some pos then
      -- Port is appended
      if (address.take pos).all isIpv4Char then
        addrOr .invalidIp4Address (toSocketAddrs address)
      else
        match parseU16 (address.drop (pos + 1)) with
        | some port => .ok (.other (address.take pos) (some port))
        | none => .error .invalidPort
    else
      match rfind ']' address with
      | some bracket =>
        if bracket < pos then
          -- IPv6 address and port
          addrOr .invalidIp6Address (toSocketAddrs address)
        else if bracket = address.length - 1 ∧ address.head? = some '[' then
          .ok (.addr (toSocketAddrsWith ((address.take bracket).drop 1) DEFAULT_PORT))
        else
          .error .invalidIpAddress
      | none => .ok (.addr (toSocketAddrsWith address DEFAULT_PORT))
  | none =>
    if address.all isIpv4Char then
      .ok (.addr (toSocketAddrsWith address DEFAULT_PORT))
    else
      .ok (.other address none)

end Nek0.Native
