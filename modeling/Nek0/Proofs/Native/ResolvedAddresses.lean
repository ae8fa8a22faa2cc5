import Nek0.Native.Resolver

/-!
# `Nek0.Proofs.Native.ResolvedAddresses`: the addresses that `parse_ip` understands

A host is a name, an IPv4 address, or an IPv6 address with or without brackets (`Spelling`). With a
port behind a colon it denotes the host with this port (`parseIp_withPort`), except for an IPv6
address without brackets: two colons and no bracket always mean the default port
(`port_of_colons`).

No reader reads past a character that its grammar does not have (`Stops`), so what an address is
read as does not depend on what follows it.
-/

set_option autoImplicit false

namespace Nek0.Proofs.Native

open Nek0.Lib (Parser)
open Nek0.Lib.Parser
open Nek0.Lib.Paths
open Nek0.Native

/-! ### Where the readers stop -/

section Stops

variable {c : Char}

theorem stops_readNumber {radix : Nat} (h : isDigit radix c = false) (maxDigits : Option Nat)
    (allowZeroPrefix : Bool) (max : Nat) :
    Stops c (readNumber radix maxDigits allowZeroPrefix max) :=
  (Stops.span h).bind fun _ => Stops.failure.ite (Stops.pure _)

/-- A separated item stops where the item does. -/
theorem stops_readSeparator {α : Type} {sep : Char} (hsep : c ≠ sep) (index : Nat)
    {inner : Parser α} (h : Stops c inner) : Stops c (readSeparator sep index inner) := by
  unfold readSeparator
  split
  · exact (Stops.char hsep).bind fun _ => h
  · exact h

/-- Octets stop at anything but a digit or a dot. -/
theorem stops_readOctets (hdigit : isDigit 10 c = false) (hdot : c ≠ '.') (index left : Nat) :
    Stops c (readOctets index left) := by
  induction left generalizing index with
  | zero => exact Stops.pure []
  | succ left ih =>
      refine (stops_readSeparator hdot index (stops_readNumber hdigit _ _ _)).bind fun octet => ?_
      exact (ih (index + 1)).bind fun octets => Stops.pure _

theorem stops_readIpv4Addr (hdigit : isDigit 10 c = false) (hdot : c ≠ '.') :
    Stops c readIpv4Addr :=
  stops_readOctets hdigit hdot 0 4

/-- Groups stop at anything but a digit, a dot or a colon. -/
theorem stops_readGroups (hdigit : isDigit 10 c = false) (hhex : isDigit 16 c = false)
    (hdot : c ≠ '.') (hcolon : c ≠ ':') (index left : Nat) : Stops c (readGroups index left) := by
  induction left generalizing index with
  | zero => exact Stops.pure _
  | succ left ih =>
      have hipv4 := (stops_readSeparator hcolon index (stops_readIpv4Addr hdigit hdot)).optional
      refine (hipv4.ite (Stops.pure none)).bind fun ipv4 => ?_
      cases ipv4 with
      | some octets => exact Stops.pure _
      | none =>
          have hgroup := stops_readSeparator hcolon index
            (stops_readNumber hhex (some 4) true 65535)
          refine hgroup.optional.bind fun group => ?_
          cases group with
          | none => exact Stops.pure _
          | some g => exact (ih (index + 1)).bind fun rest => Stops.pure _

/-- So does an IPv6 address. -/
theorem stops_readIpv6Addr (hdigit : isDigit 10 c = false) (hhex : isDigit 16 c = false)
    (hdot : c ≠ '.') (hcolon : c ≠ ':') : Stops c readIpv6Addr := by
  have hgroups := stops_readGroups hdigit hhex hdot hcolon
  refine (hgroups 0 8).bind fun head => (Stops.pure _).ite (Stops.failure.ite ?_)
  refine (Stops.char hcolon).bind fun _ => (Stops.char hcolon).bind fun _ => ?_
  exact (hgroups _ _).bind fun tail => Stops.pure _

end Stops

/-! ### The colons of an IPv6 address -/

/-- A separated item behind the first reads its separator. -/
theorem reads_readSeparator {α : Type} (sep : Char) (index : Nat) {inner : Parser α}
    (h : Reads sep (fun _ => 0) inner) :
    Reads sep (fun _ => min index 1) (readSeparator sep index inner) := by
  unfold readSeparator
  split
  · exact (Reads.char sep).bind fun _ => h.mono fun _ => by omega
  · exact h.mono fun _ => by omega

theorem reads_readNumber (c : Char) (radix : Nat) (maxDigits : Option Nat) (allowZeroPrefix : Bool)
    (max : Nat) : Reads c (fun _ => 0) (readNumber radix maxDigits allowZeroPrefix max) :=
  (Reads.span _).bind fun _ => Reads.ite (fun _ => Reads.failure _) (Reads.pure rfl)

/-- Octets read no colon. -/
theorem reads_readOctets (c : Char) (index left : Nat) :
    Reads c (fun _ => 0) (readOctets index left) := by
  induction left generalizing index with
  | zero => exact Reads.pure rfl
  | succ left ih =>
      have hoctet : Reads c (fun _ => 0)
          (readSeparator '.' index (readNumber 10 (some 3) false 255)) := by
        unfold readSeparator
        split
        · exact (Reads.char_zero c '.').bind fun _ => reads_readNumber c _ _ _ _
        · exact reads_readNumber c _ _ _ _
      exact hoctet.bind fun octet => (ih (index + 1)).bind fun octets => Reads.pure rfl

theorem length_groupsOf (octets : List Nat) : (groupsOf octets).length ≤ 2 := by
  unfold groupsOf
  split <;> simp

/-- Every group but the first has a colon in front, and an IPv4 address fills two groups. -/
theorem reads_readGroups (index left : Nat) :
    Reads ':' (fun r => r.1.length + min index 1 - 2) (readGroups index left) := by
  induction left generalizing index with
  | zero => exact Reads.pure (by simp)
  | succ left ih =>
      have hipv4 : Reads ':' (fun ipv4 => ipv4.elim 0 fun _ => min index 1)
          (if 0 < left then optional (readSeparator ':' index readIpv4Addr) else pure none) :=
        Reads.ite (fun _ => (reads_readSeparator ':' index (reads_readOctets ':' 0 4)).optional)
          (Reads.pure rfl)
      refine hipv4.bind fun ipv4 => ?_
      cases ipv4 with
      | some octets =>
          have hlength := length_groupsOf octets
          exact Reads.pure (by dsimp only [Option.elim]; omega)
      | none =>
          have hgroup := (reads_readSeparator ':' index
            (reads_readNumber ':' 16 (some 4) true 65535)).optional
          refine hgroup.bind fun group => ?_
          cases group with
          | none => exact Reads.pure (by dsimp only [Option.elim, List.length_nil]; omega)
          | some g =>
              refine (ih (index + 1)).bind fun rest => Reads.pure ?_
              dsimp only [Option.elim, List.length_cons]
              omega

/-- An IPv6 address has two colons or more. -/
theorem reads_readIpv6Addr : Reads ':' (fun _ => 2) readIpv6Addr := by
  refine (reads_readGroups 0 8).bind fun head => ?_
  refine Reads.ite (fun hlength => Reads.pure ?_) (Reads.ite (fun _ => Reads.failure _) ?_)
  · -- Eight groups have at least six colons.
    rw [hlength]
    rfl
  · refine Reads.mono (n := fun _ => 2) ?_ fun _ => Nat.sub_le _ _
    refine (Reads.char ':').bind fun _ => (Reads.char ':').bind fun _ => ?_
    exact (reads_readGroups 0 _).bind fun tail => Reads.pure (by omega)

/-! ### Ports -/

/-- A number of any length that consists of digits. -/
theorem readNumber_of_digits {radix max : Nat} {text : List Char}
    (h : ∀ c ∈ text, isDigit radix c = true) :
    readNumber radix none true max text =
      if text = [] ∨ max < numberOf radix text then none else some (numberOf radix text, []) := by
  have hspan : span (isDigit radix) text = some (text, []) := by
    rw [span, List.takeWhile_eq_self_iff.mpr h, List.dropWhile_eq_nil_iff.mpr h]
  rw [readNumber, bind_of_eq hspan]
  by_cases hbad : text = [] ∨ max < numberOf radix text
  · rw [if_pos hbad, if_pos (by simpa using hbad)]
    rfl
  · rw [if_neg hbad, if_neg (by simpa using hbad)]
    rfl

/-- The number of a port, as it is written. -/
structure Port where
  text : List Char
  value : Nat
  parsed : readNumber 10 none true 65535 text = some (value, [])

namespace Port

variable (q : Port)

theorem digits {c : Char} (hc : c ∈ q.text) : isDigit 10 c = true := by
  by_contra hdigit
  exact (stops_readNumber (by simpa using hdigit) none true 65535).not_mem q.parsed hc

/-- A port is written in decimal, and fits into 16 bits. -/
theorem text_ne_nil_and_value : q.text ≠ [] ∧ numberOf 10 q.text = q.value ∧ q.value ≤ 65535 := by
  have h := q.parsed
  rw [readNumber_of_digits fun c hc => q.digits hc] at h
  split at h
  · cases h
  · next hgood =>
      rw [not_or, Nat.not_lt] at hgood
      simp only [Option.some.injEq, Prod.mk.injEq, and_true] at h
      exact ⟨hgood.1, h, h ▸ hgood.2⟩

theorem not_mem_text {c : Char} (hc : isDigit 10 c = false) : c ∉ q.text := by
  intro hmem
  rw [q.digits hmem] at hc
  cases hc

/-- `u16::from_str` reads the text of a port. -/
theorem parseU16_text : parseU16 q.text = some q.value := by
  obtain ⟨hne, hvalue, hmax⟩ := q.text_ne_nil_and_value
  have hsign : stripPlus q.text = q.text := by
    unfold stripPlus
    split
    · next rest heq => exact absurd (heq ▸ List.mem_cons_self ..) (q.not_mem_text (c := '+') rfl)
    · rfl
  have hall : q.text.all (isDigit 10) = true := List.all_eq_true.mpr fun c hc => q.digits hc
  show (if stripPlus q.text = [] ∨ _ ∨ _ then none else _) = _
  rw [hsign, if_neg (by simp [hne, hall, hvalue, hmax]), hvalue]

end Port

/-- A decimal digit stands for its distance from `0`. -/
theorem toDigit_ten {c : Char} (hc : c.isDigit = true) :
    toDigit 10 c = some (c.toNat - '0'.toNat) := by
  rw [Char.isDigit_iff_toNat] at hc
  have hnine : '9'.toNat = '0'.toNat + 9 := rfl
  have hrange : '0' ≤ c ∧ c ≤ '9' := ⟨hc.1, hc.2⟩
  unfold toDigit
  rw [if_pos hrange]
  exact if_pos (by omega)

/-- The number of decimal digits is the one that Lean reads. -/
theorem numberOf_ten {digits : List Char} (h : ∀ c ∈ digits, c.isDigit = true) :
    numberOf 10 digits = Nat.ofDigitChars 10 digits 0 := by
  rw [numberOf, Nat.ofDigitChars_eq_foldl]
  refine List.foldl_ext _ _ 0 fun n c hc => ?_
  rw [toDigit_ten (h c hc)]
  rfl

/-- The decimal digits of a number. -/
def Port.ofNat (p : Nat) (h : p ≤ 65535) : Port where
  text := Nat.toDigits 10 p
  value := p
  parsed := by
    have hdigit : ∀ c ∈ Nat.toDigits 10 p, c.isDigit = true := fun c hc =>
      Nat.isDigit_of_mem_toDigits (by decide) (by decide) hc
    have hvalue : numberOf 10 (Nat.toDigits 10 p) = p := by
      rw [numberOf_ten hdigit, Nat.ofDigitChars_ten_toDigits]
    rw [readNumber_of_digits fun c hc => by rw [isDigit, toDigit_ten (hdigit c hc)]; rfl, hvalue,
      if_neg (by simp [Nat.toDigits_ne_nil, h])]

/-! ### Hosts -/

/-- The host of an address, as it is written. A name holds no colon, and is not made of digits and
dots alone. -/
inductive Spelling where
  | name (text : List Char) (valid : ':' ∉ text ∧ text.all isIpv4Char = false)
  | ipv4 (text : List Char) (octets : List Nat) (parsed : readIpv4Addr text = some (octets, []))
  | bracketed (text : List Char) (groups : List Nat)
      (parsed : readIpv6Addr text = some (groups, []))
  | bare (text : List Char) (groups : List Nat) (parsed : readIpv6Addr text = some (groups, []))

namespace Spelling

/-- The text of an address as the user spells it. -/
def text : Spelling → List Char
  | .name text _ => text
  | .ipv4 text _ _ => text
  | .bracketed text _ _ => '[' :: text ++ [']']
  | .bare text _ _ => text

/-- An IPv6 address without brackets. -/
def isBare : Spelling → Bool
  | .bare _ _ _ => true
  | _ => false

/-- The host with a port. -/
def withPort (p : Nat) : Spelling → ParseIpResult
  | .name text _ => .other text (some p)
  | .ipv4 _ octets _ => .addr { host := .ip (.v4 octets), port := p, scopeId := 0 }
  | .bracketed _ groups _ => .addr { host := .ip (.v6 groups), port := p, scopeId := 0 }
  | .bare _ groups _ => .addr { host := .ip (.v6 groups), port := p, scopeId := 0 }

end Spelling

/-- An IPv4 address is made of digits and dots. -/
theorem isIpv4Char_of_readIpv4Addr {text : List Char} {octets : List Nat}
    (h : readIpv4Addr text = some (octets, [])) : text.all isIpv4Char = true := by
  refine List.all_eq_true.mpr fun c hc => ?_
  by_contra hchar
  simp only [isIpv4Char, Bool.or_eq_true, beq_iff_eq, not_or, Bool.not_eq_true] at hchar
  exact (stops_readIpv4Addr hchar.1 hchar.2).not_mem h hc

theorem colons_of_readIpv6Addr {text : List Char} {groups : List Nat}
    (h : readIpv6Addr text = some (groups, [])) : 2 ≤ text.count ':' := by
  have hcount := reads_readIpv6Addr text groups [] h
  simpa using hcount

/-- A port is read behind its colon. -/
theorem readPort_cons {text : List Char} {value : Nat}
    (h : readNumber 10 none true 65535 text = some (value, [])) :
    readPort (':' :: text) = some (value, []) := by
  rw [readPort, bind_of_eq (char_cons_self ':' text)]
  exact h

/-- No number starts with anything but a digit. -/
theorem readNumber_cons {radix : Nat} {c : Char} (hc : isDigit radix c = false)
    (maxDigits : Option Nat) (allowZeroPrefix : Bool) (max : Nat) (text : List Char) :
    readNumber radix maxDigits allowZeroPrefix max (c :: text) = none := by
  have hspan : span (isDigit radix) (c :: text) = some ([], c :: text) := by
    simp [span, hc]
  rw [readNumber, bind_of_eq hspan, if_pos (.inl rfl)]
  rfl

/-- No address with four bytes starts here. -/
theorem readSocketAddrV4_cons {c : Char} (hc : isDigit 10 c = false) (text : List Char) :
    readSocketAddrV4 (c :: text) = none :=
  bind_of_none (bind_of_none (readNumber_cons hc _ _ _ text) _) _

/-- An IPv4 address and a port are read as a socket address. -/
theorem readSocketAddr_ipv4 {text : List Char} {octets : List Nat}
    (h : readIpv4Addr text = some (octets, [])) (q : Port) :
    readSocketAddr (text ++ ':' :: q.text) =
      some ({ host := .ip (.v4 octets), port := q.value, scopeId := 0 }, []) := by
  have hstops : Stops ':' readIpv4Addr := stops_readIpv4Addr rfl (by decide)
  rw [readSocketAddr, orElse_apply, readSocketAddrV4, bind_of_eq (hstops.append h q.text),
    bind_of_eq (readPort_cons q.parsed)]
  rfl

/-- So are a bracketed IPv6 address and a port. -/
theorem readSocketAddr_ipv6 {text : List Char} {groups : List Nat}
    (h : readIpv6Addr text = some (groups, [])) (q : Port) :
    readSocketAddr ('[' :: text ++ ']' :: ':' :: q.text) =
      some ({ host := .ip (.v6 groups), port := q.value, scopeId := 0 }, []) := by
  have hstops : Stops ']' readIpv6Addr := stops_readIpv6Addr rfl rfl (by decide) (by decide)
  have hscope : optional readScopeId (']' :: ':' :: q.text) =
      some (none, ']' :: ':' :: q.text) := rfl
  rw [readSocketAddr, orElse_apply, List.cons_append, readSocketAddrV4_cons rfl, readSocketAddrV6,
    bind_of_eq (char_cons_self '[' _), bind_of_eq (hstops.append h _), bind_of_eq hscope,
    bind_of_eq (char_cons_self ']' _), bind_of_eq (readPort_cons q.parsed)]
  rfl

/-- Nothing stands in front of the bracket. -/
theorem readSocketAddr_cons {c : Char} (hdigit : isDigit 10 c = false) (hbracket : c ≠ '[')
    (text : List Char) : readSocketAddr (c :: text) = none := by
  rw [readSocketAddr, orElse_apply, readSocketAddrV4_cons hdigit, readSocketAddrV6,
    bind_of_none (char_cons_of_ne hbracket text)]
  rfl

/-- Only a colon stands behind the bracket. -/
theorem readSocketAddr_behind {text : List Char} {groups : List Nat}
    (h : readIpv6Addr text = some (groups, [])) {c : Char} (hc : c ≠ ':') (rest : List Char) :
    readSocketAddr ('[' :: text ++ ']' :: c :: rest) = none := by
  have hstops : Stops ']' readIpv6Addr := stops_readIpv6Addr rfl rfl (by decide) (by decide)
  have hscope : optional readScopeId (']' :: c :: rest) = some (none, ']' :: c :: rest) := rfl
  have hport : readPort (c :: rest) = none := bind_of_none (char_cons_of_ne hc rest) _
  rw [readSocketAddr, orElse_apply, List.cons_append, readSocketAddrV4_cons rfl, readSocketAddrV6,
    bind_of_eq (char_cons_self '[' _), bind_of_eq (hstops.append h _), bind_of_eq hscope,
    bind_of_eq (char_cons_self ']' _), bind_of_none hport]
  rfl

/-- A text that is no address is a name with a port. -/
theorem host_of_toSocketAddrs {text : List Char} (h : readSocketAddr text = none)
    {addr : SocketAddr} (haddr : toSocketAddrs text = some addr) :
    ∃ name, addr.host = .name name := by
  have hwhole : readSocketAddr.whole text = none := by
    rw [whole, h]
  rw [toSocketAddrs, hwhole] at haddr
  obtain ⟨pos, -, haddr⟩ := Option.bind_eq_some_iff.mp haddr
  obtain ⟨port, -, haddr⟩ := Option.bind_eq_some_iff.mp haddr
  cases haddr
  exact ⟨_, rfl⟩

theorem toSocketAddrs_of_readSocketAddr {text : List Char} {addr : SocketAddr}
    (h : readSocketAddr text = some (addr, [])) : toSocketAddrs text = some addr := by
  rw [toSocketAddrs, whole_eq_some.mpr h]

/-! ### What an address denotes -/

/-- One colon, behind which there is a port. -/
theorem parseIp_colon {text : List Char} (htext : ':' ∉ text) (q : Port) :
    parseIp (text ++ ':' :: q.text) =
      if text.all isIpv4Char then
        addrOr .invalidIp4Address (toSocketAddrs (text ++ ':' :: q.text))
      else .ok (.other text (some q.value)) := by
  have hlast : rfind ':' (text ++ ':' :: q.text) = some text.length :=
    lastIdxOf?_append text (q.not_mem_text rfl)
  have hfirst : find ':' (text ++ ':' :: q.text) = some text.length := idxOf?_append htext q.text
  unfold parseIp
  simp only [hlast, hfirst, if_true]
  have hdrop : (text ++ ':' :: q.text).drop (text.length + 1) = q.text := by simp
  rw [List.take_left, hdrop]
  simp only [q.parseU16_text]

/-- Two colons at least, and the last bracket stands in front of the last colon. -/
theorem parseIp_bracket {inner after : List Char} (hinner : ':' ∈ inner) (hbracket : ']' ∉ after)
    (q : Port) :
    parseIp (inner ++ ']' :: after ++ ':' :: q.text) =
      addrOr .invalidIp6Address (toSocketAddrs (inner ++ ']' :: after ++ ':' :: q.text)) := by
  have hlast : rfind ':' (inner ++ ']' :: after ++ ':' :: q.text) =
      some (inner ++ ']' :: after).length := lastIdxOf?_append _ (q.not_mem_text rfl)
  have hclose : rfind ']' (inner ++ ']' :: after ++ ':' :: q.text) = some inner.length := by
    rw [List.append_assoc, List.cons_append]
    refine lastIdxOf?_append inner ?_
    simp [hbracket, q.not_mem_text (c := ']') rfl]
  have hfirst : find ':' (inner ++ ']' :: after ++ ':' :: q.text) ≠
      some (inner ++ ']' :: after).length := by
    obtain ⟨x, y, rfl, hx⟩ := List.eq_append_cons_of_mem hinner
    have hsplit : x ++ ':' :: y ++ ']' :: after ++ ':' :: q.text =
        x ++ ':' :: (y ++ ']' :: after ++ ':' :: q.text) := by simp
    rw [hsplit, find, idxOf?_append hx]
    simp
  unfold parseIp
  simp only [hlast, hclose, if_neg hfirst]
  exact if_pos (by simp)

/-- A host with a port behind a colon denotes the host with this port, unless it is an IPv6 address
without brackets. -/
theorem parseIp_withPort {s : Spelling} (hbare : s.isBare = false) (q : Port) :
    parseIp (s.text ++ ':' :: q.text) = .ok (s.withPort q.value) := by
  cases s with
  | name text valid =>
      rw [Spelling.text, parseIp_colon valid.1, valid.2]
      rfl
  | ipv4 text octets parsed =>
      have hcolon : ':' ∉ text := (stops_readIpv4Addr rfl (by decide)).not_mem parsed
      rw [Spelling.text, parseIp_colon hcolon, if_pos (isIpv4Char_of_readIpv4Addr parsed),
        toSocketAddrs_of_readSocketAddr (readSocketAddr_ipv4 parsed q)]
      rfl
  | bracketed text groups parsed =>
      have hcolon : ':' ∈ '[' :: text := List.mem_cons_of_mem _
        (List.count_pos_iff.mp (by have := colons_of_readIpv6Addr parsed; omega))
      have hsplit : (Spelling.bracketed text groups parsed).text ++ ':' :: q.text =
          '[' :: text ++ ']' :: [] ++ ':' :: q.text := by rfl
      have hjoin : '[' :: text ++ ']' :: [] ++ ':' :: q.text =
          '[' :: text ++ ']' :: ':' :: q.text := by simp
      rw [hsplit, parseIp_bracket hcolon List.not_mem_nil q, hjoin,
        toSocketAddrs_of_readSocketAddr (readSocketAddr_ipv6 parsed q)]
      rfl
  | bare text groups parsed => cases hbare

/-- With two colons and without a bracket, the port is the default one. -/
theorem port_of_colons {text : List Char} (hcolons : 2 ≤ text.count ':') (hbracket : ']' ∉ text) :
    parseIp text = .ok (.addr (toSocketAddrsWith text DEFAULT_PORT)) := by
  obtain ⟨pos, hlast, hfirst⟩ := exists_lastIdxOf?_ne hcolons
  have hnone : rfind ']' text = none := lastIdxOf?_eq_none hbracket
  unfold parseIp
  simp only [show rfind ':' text = some pos from hlast, hnone]
  exact if_neg hfirst

end Nek0.Proofs.Native
