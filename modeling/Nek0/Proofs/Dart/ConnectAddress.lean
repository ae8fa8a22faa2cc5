import Nek0.Dart.ServerAddress
import Nek0.Proofs.Native.ResolvedAddresses

/-!
# `Nek0.Proofs.Dart.ConnectAddress`: the custom voice port is part of the address

`connectAddress` appends the voice port to an address without a port. This denotes the host with the
port for a name, an IPv4 address and an IPv6 address in brackets. An IPv6 address without brackets
gets no brackets, and where its last group is a number it is taken for a port. White space around
the address is skipped when a port is looked for, but it stays in front of the port.
-/

set_option autoImplicit false

namespace Nek0.Proofs.Dart

open Nek0.Dart
open Nek0.Lib.Paths
open Nek0.Native
open Nek0.Proofs.Native

/-- An address: a host with or without a port, and white space around it. An IPv6 address without
brackets has no port. -/
structure Address where
  before : List Char
  spelling : Spelling
  port : Option Port
  after : List Char
  blank_before : ∀ c ∈ before, isBlank c = true
  blank_after : ∀ c ∈ after, isBlank c = true
  not_blank : ∀ c ∈ spelling.text, isBlank c = false
  port_of_bare : spelling.isBare = true → port = none

namespace Address

/-- The host and its port. -/
def core (a : Address) : List Char :=
  a.spelling.text ++ a.port.elim [] fun q => ':' :: q.text

def text (a : Address) : List Char := a.before ++ a.core ++ a.after

end Address

/-- An address with a port stays as it is. Another one denotes its host with the voice port. -/
def Applied (s : Server) (a : Address) (p : Nat) : Prop :=
  match a.port with
  | some _ => s.connectAddress = s.address
  | none => parseIp s.connectAddress.toList = .ok (a.spelling.withPort p)

/-! ### Characters -/

/-- White space is not a printable ASCII character. -/
theorem isBlank_of_toNat {c : Char} (h : 33 ≤ c.toNat ∧ c.toNat ≤ 126) : isBlank c = false := by
  have hbom : c ≠ '\uFEFF' := by
    rintro rfl
    revert h
    decide
  simp only [isBlank, Nek0.Native.isWhitespace, Bool.or_eq_false_iff, Bool.and_eq_false_iff,
    beq_eq_false_iff_ne, decide_eq_false_iff_not]
  exact ⟨by omega, hbom⟩

/-- A decimal digit is one of the ten characters. -/
theorem toNat_of_isDigit {c : Char} (h : isDigit 10 c = true) : 48 ≤ c.toNat ∧ c.toNat ≤ 57 := by
  by_contra hrange
  have hnot : ¬ ('0' ≤ c ∧ c ≤ '9') := hrange
  unfold isDigit toDigit at h
  rw [if_neg hnot] at h
  -- The letters stand for ten and more.
  rw [if_neg (by split_ifs <;> omega)] at h
  cases h

/-- A blank is no digit. -/
theorem not_isDigit_of_isBlank {c : Char} (h : isBlank c = true) : isDigit 10 c = false := by
  by_contra hdigit
  have hrange := toNat_of_isDigit (by simpa using hdigit)
  rw [isBlank_of_toNat (by omega)] at h
  cases h

/-- A blank is no printable character. -/
theorem ne_of_isBlank {c d : Char} (h : isBlank c = true) (hd : 33 ≤ d.toNat ∧ d.toNat ≤ 126) :
    c ≠ d := by
  rintro rfl
  rw [isBlank_of_toNat hd] at h
  cases h

/-! ### `int.tryParse` reads a port -/

theorem trim_of_not_blank {s : List Char} (h : ∀ c ∈ s, isBlank c = false) : stringTrim s = s := by
  have htrim : Nek0.Lib.Paths.trim isBlank ([] ++ s ++ []) = s :=
    trim_append (List.forall_mem_nil _) h (List.forall_mem_nil _)
  simpa [stringTrim] using htrim

/-- Dart reads the text of a port as a number. -/
theorem intTryParse_port (q : Port) : (intTryParse q.text).isSome = true := by
  obtain ⟨hne, hvalue, hmax⟩ := q.text_ne_nil_and_value
  have htrim : stringTrim q.text = q.text := trim_of_not_blank fun c hc => by
    by_contra hblank
    have hdigit := q.digits hc
    rw [not_isDigit_of_isBlank (by simpa using hblank)] at hdigit
    cases hdigit
  have hsign : splitSign q.text = (1, q.text) := by
    unfold splitSign
    split
    · next rest heq => exact absurd (heq ▸ List.mem_cons_self ..) (q.not_mem_text (c := '+') rfl)
    · next rest heq => exact absurd (heq ▸ List.mem_cons_self ..) (q.not_mem_text (c := '-') rfl)
    · rfl
  have hhex : hexDigits q.text = none := by
    unfold hexDigits
    split
    · next rest heq => exact absurd (by simp [heq]) (q.not_mem_text (c := 'x') rfl)
    · next rest heq => exact absurd (by simp [heq]) (q.not_mem_text (c := 'X') rfl)
    · rfl
  have hall : q.text.all (isDigit 10) = true := List.all_eq_true.mpr fun c hc => q.digits hc
  have hparse : parseDigits 10 q.text = some q.value := by
    rw [parseDigits, if_neg (by simp [hne, hall]), hvalue]
  have hrange : -2 ^ 63 ≤ (1 : Int) * q.value ∧ (1 : Int) * q.value < 2 ^ 63 := by omega
  simp only [intTryParse, htrim, hsign, hhex, hparse, if_pos hrange]
  rfl

/-! ### Which addresses have a port -/

/-- A port behind a colon is not stripped. -/
theorem stripBrackets_colon (x : List Char) (q : Port) :
    ∃ y, Server.stripBrackets (x ++ ':' :: q.text) = y ++ ':' :: q.text := by
  unfold Server.stripBrackets
  split
  · split
    · next close hclose =>
        -- The bracket stands in front of the colon.
        have hmem : ']' ∈ x := by
          have hany := List.isSome_idxOf?.mp (Option.isSome_of_mem hclose)
          simpa [q.not_mem_text (c := ']') rfl] using hany
        obtain ⟨y, z, rfl, hy⟩ := List.eq_append_cons_of_mem hmem
        have hsplit : y ++ ']' :: z ++ ':' :: q.text = y ++ ']' :: (z ++ ':' :: q.text) := by simp
        rw [hsplit, idxOf?_append hy, Option.some.injEq] at hclose
        refine ⟨z, ?_⟩
        rw [hsplit, ← hclose]
        simp
    · exact ⟨x, rfl⟩
  · exact ⟨x, rfl⟩

/-- A port after a colon is an explicit port. -/
theorem hasExplicitPort_colon {a x : List Char} {q : Port}
    (h : stringTrim a = x ++ ':' :: q.text) : Server.hasExplicitPort a = true := by
  obtain ⟨y, hstrip⟩ := stripBrackets_colon x q
  have hdrop : (y ++ ':' :: q.text).drop (y.length + 1) = q.text := by simp
  unfold Server.hasExplicitPort
  simp only [h, hstrip, lastIdxOf?_append y (q.not_mem_text (c := ':') rfl), hdrop]
  exact intTryParse_port q

theorem hasExplicitPort_of_not_mem {a : List Char}
    (h : ':' ∉ Server.stripBrackets (stringTrim a)) : Server.hasExplicitPort a = false := by
  unfold Server.hasExplicitPort
  simp only [lastIdxOf?_eq_none h]

/-- A host without a port has none, unless it is an IPv6 address without brackets. -/
theorem not_mem_stripBrackets {s : Spelling} (h : s.isBare = false) :
    ':' ∉ Server.stripBrackets s.text := by
  have hstrip : ∀ text : List Char, ':' ∉ text → ':' ∉ Server.stripBrackets text := by
    intro text htext
    unfold Server.stripBrackets
    split
    · split
      · exact fun hmem => htext (List.mem_of_mem_drop hmem)
      · exact htext
    · exact htext
  cases s with
  | name text valid => exact hstrip text valid.1
  | ipv4 text octets parsed =>
      exact hstrip text ((stops_readIpv4Addr rfl (by decide)).not_mem parsed)
  | bracketed text groups parsed =>
      have hclose : ']' ∉ '[' :: text := by
        rw [List.mem_cons, not_or]
        exact ⟨by decide, (stops_readIpv6Addr rfl rfl (by decide) (by decide)).not_mem parsed⟩
      have hidx := idxOf?_append hclose []
      have hdrop : ('[' :: text ++ [']']).drop (('[' :: text).length + 1) = [] := by simp
      show ':' ∉ Server.stripBrackets ('[' :: text ++ [']'])
      unfold Server.stripBrackets
      rw [if_pos (show ('[' :: text ++ [']']).head? = some '[' from rfl), hidx]
      dsimp only
      rw [hdrop]
      exact List.not_mem_nil
  | bare text groups parsed => cases h

/-! ### What the connection is given -/

section Connecting

variable {s : Server} {a : Address} {p : Nat}

/-- The address as it is, or with the port behind a colon. -/
theorem connectAddress_cases (haddress : s.address.toList = a.text)
    (hport : s.voicePort = some (p : Int)) (hp : p ≤ 65535)
    (hdefault : (p : Int) ≠ ServerPorts.voice) :
    s.connectAddress.toList = if Server.hasExplicitPort a.text then a.text
      else a.text ++ ':' :: (Port.ofNat p hp).text := by
  unfold Server.connectAddress
  simp only [hport, if_neg hdefault, haddress]
  split
  · exact haddress
  · have hdigits : (toString (p : Int)).toList = Nat.toDigits 10 p := by
      show (Int.repr (Int.ofNat p)).toList = _
      exact Nat.toList_repr
    rw [String.toList_append, String.toList_append, hdigits, haddress, List.append_assoc]
    rfl

/-- Trimming an address removes the blanks around it and nothing else. -/
theorem trim_text (a : Address) : stringTrim a.text = a.core := by
  refine trim_append a.blank_before (fun c hc => ?_) a.blank_after
  rw [Address.core, List.mem_append] at hc
  rcases hc with hc | hc
  · exact a.not_blank c hc
  · cases hq : a.port with
    | none => simp [hq] at hc
    | some q =>
        rw [hq] at hc
        rcases List.mem_cons.mp hc with rfl | hc
        · rfl
        · have hrange := toNat_of_isDigit (q.digits hc)
          exact isBlank_of_toNat (by omega)

/-- A bare IPv6 address never gets the voice port: two colons and no bracket always mean the
default port. -/
theorem not_applied_bare (haddress : s.address.toList = a.text)
    (hport : s.voicePort = some (p : Int)) (hp : p ≤ 65535)
    (hdefault : (p : Int) ≠ ServerPorts.voice) (hbare : a.spelling.isBare = true) :
    parseIp s.connectAddress.toList ≠ .ok (a.spelling.withPort p) := by
  have hnone := a.port_of_bare hbare
  cases hspelling : a.spelling with
  | bare text groups parsed =>
      have hcore : a.core = text := by
        rw [Address.core, hnone, hspelling]
        exact List.append_nil text
      have hbracket : ']' ∉ a.text := by
        have hblank : ∀ l : List Char, (∀ c ∈ l, isBlank c = true) → ']' ∉ l := fun l hl hmem =>
          absurd (hl ']' hmem) (by decide)
        rw [Address.text, hcore]
        simp [hblank _ a.blank_before, hblank _ a.blank_after,
          (stops_readIpv6Addr (c := ']') rfl rfl (by decide) (by decide)).not_mem parsed]
      have hcolons : 2 ≤ a.text.count ':' := by
        rw [Address.text, hcore, List.count_append, List.count_append]
        have hcount := colons_of_readIpv6Addr parsed
        omega
      -- Either way the result has its two colons and no bracket.
      have hresult : 2 ≤ s.connectAddress.toList.count ':' ∧ ']' ∉ s.connectAddress.toList := by
        rw [connectAddress_cases haddress hport hp hdefault]
        split
        · exact ⟨hcolons, hbracket⟩
        · refine ⟨?_, ?_⟩
          · rw [List.count_append]
            omega
          · simp [hbracket, (Port.ofNat p hp).not_mem_text (c := ']') rfl]
      rw [port_of_colons hresult.1 hresult.2]
      intro h
      have hdenoted : (toSocketAddrsWith s.connectAddress.toList DEFAULT_PORT).port = p := by
        simp only [Except.ok.injEq, Spelling.withPort, ParseIpResult.addr.injEq] at h
        rw [h]
      have hvoice : (toSocketAddrsWith s.connectAddress.toList DEFAULT_PORT).port = 9987 := by
        unfold toSocketAddrsWith
        split <;> rfl
      rw [hvoice] at hdenoted
      exact hdefault (congrArg Nat.cast hdenoted.symm)
  | name text valid => rw [hspelling] at hbare; cases hbare
  | ipv4 text octets parsed => rw [hspelling] at hbare; cases hbare
  | bracketed text groups parsed => rw [hspelling] at hbare; cases hbare

end Connecting

/-! ### White space in front of the port -/

section Spaced

variable {before after : List Char}

theorem not_mem_of_blank {l : List Char} (hl : ∀ c ∈ l, isBlank c = true) {d : Char}
    (hd : 33 ≤ d.toNat ∧ d.toNat ≤ 126) : d ∉ l :=
  fun hmem => ne_of_isBlank (hl d hmem) hd rfl

/-- With white space around it, an address in brackets is no longer read. -/
theorem readSocketAddr_spaced {text : List Char} {groups : List Nat}
    (parsed : readIpv6Addr text = some (groups, [])) (hbefore : ∀ c ∈ before, isBlank c = true)
    (hafter : ∀ c ∈ after, isBlank c = true) (hspaced : ¬ (before = [] ∧ after = []))
    (rest : List Char) :
    readSocketAddr (before ++ '[' :: text ++ ']' :: after ++ rest) = none := by
  cases before with
  | cons c before =>
      have hc := hbefore c (List.mem_cons_self ..)
      exact readSocketAddr_cons (not_isDigit_of_isBlank hc) (ne_of_isBlank hc (by decide)) _
  | nil =>
      cases after with
      | nil => exact absurd ⟨rfl, rfl⟩ hspaced
      | cons c after =>
          have hc := hafter c (List.mem_cons_self ..)
          have hsplit : [] ++ '[' :: text ++ ']' :: c :: after ++ rest =
              '[' :: text ++ ']' :: c :: (after ++ rest) := by simp
          rw [hsplit]
          exact readSocketAddr_behind parsed (ne_of_isBlank hc (by decide)) _

/-- A host with a port behind it denotes the host with the port just if there is no white space. -/
theorem parseIp_spaced {s : Spelling} (hbare : s.isBare = false)
    (hbefore : ∀ c ∈ before, isBlank c = true) (hafter : ∀ c ∈ after, isBlank c = true)
    (q : Port) :
    parseIp (before ++ s.text ++ after ++ ':' :: q.text) = .ok (s.withPort q.value) ↔
      before = [] ∧ after = [] := by
  constructor
  · intro h
    by_contra hspaced
    have hlonger : ∀ text : List Char, before ++ text ++ after ≠ text := by
      intro text heq
      have hlength := congrArg List.length heq
      simp only [List.length_append] at hlength
      exact hspaced ⟨List.eq_nil_of_length_eq_zero (by omega),
        List.eq_nil_of_length_eq_zero (by omega)⟩
    have hcolon : ∀ text : List Char, ':' ∉ text → ':' ∉ before ++ text ++ after := by
      intro text htext
      simp [htext, not_mem_of_blank hbefore (d := ':') (by decide),
        not_mem_of_blank hafter (d := ':') (by decide)]
    cases s with
    | name text valid =>
        have hall : (before ++ text ++ after).all isIpv4Char = false := by
          rw [List.all_append, List.all_append, valid.2]
          simp
        rw [Spelling.text, parseIp_colon (hcolon text valid.1), hall] at h
        simp only [Bool.false_eq_true, if_false, Spelling.withPort, Except.ok.injEq,
          ParseIpResult.other.injEq] at h
        exact hlonger text h.1
    | ipv4 text octets parsed =>
        have htext : ':' ∉ text := (stops_readIpv4Addr rfl (by decide)).not_mem parsed
        have hall : (before ++ text ++ after).all isIpv4Char = false := by
          -- One of the two sides has a blank, which is neither a digit nor a dot.
          have hblank : ∀ c, isBlank c = true → isIpv4Char c = false := by
            intro c hc
            rw [isIpv4Char, not_isDigit_of_isBlank hc, Bool.false_or, beq_eq_false_iff_ne]
            exact ne_of_isBlank hc (by decide)
          rw [List.all_append, List.all_append]
          cases before with
          | cons c before => simp [hblank c (hbefore c (List.mem_cons_self ..))]
          | nil =>
              cases after with
              | nil => exact absurd ⟨rfl, rfl⟩ hspaced
              | cons c after => simp [hblank c (hafter c (List.mem_cons_self ..))]
        rw [Spelling.text, parseIp_colon (hcolon text htext), hall] at h
        cases h
    | bracketed text groups parsed =>
        have hmem : ':' ∈ before ++ '[' :: text := by
          refine List.mem_append_right _ (List.mem_cons_of_mem _ (List.count_pos_iff.mp ?_))
          have hcount := colons_of_readIpv6Addr parsed
          omega
        have hsplit : before ++ (Spelling.bracketed text groups parsed).text ++ after =
            before ++ '[' :: text ++ ']' :: after := by simp [Spelling.text]
        rw [hsplit, parseIp_bracket hmem (not_mem_of_blank hafter (by decide)) q] at h
        have hnone := readSocketAddr_spaced parsed hbefore hafter hspaced (':' :: q.text)
        cases haddr : toSocketAddrs (before ++ '[' :: text ++ ']' :: after ++ ':' :: q.text) with
        | some addr =>
            obtain ⟨name, hname⟩ := host_of_toSocketAddrs hnone haddr
            rw [haddr] at h
            cases h
            cases hname
        | none =>
            rw [haddr] at h
            cases h
    | bare text groups parsed => cases hbare
  · rintro ⟨rfl, rfl⟩
    simpa using parseIp_withPort hbare q

end Spaced

/-! ### The voice port -/

/-- The voice port is applied just if the address has a port of its own, or else is not an IPv6
address without brackets and has no white space around it. -/
theorem applied_iff (s : Server) (a : Address) (p : Nat) (haddress : s.address.toList = a.text)
    (hport : s.voicePort = some (p : Int)) (hp : p ≤ 65535)
    (hdefault : (p : Int) ≠ ServerPorts.voice) :
    Applied s a p ↔
      a.port.isSome = true ∨ (a.spelling.isBare = false ∧ a.before = [] ∧ a.after = []) := by
  have hconnect := connectAddress_cases haddress hport hp hdefault
  unfold Applied
  cases hq : a.port with
  -- With a port of its own the address is passed on as it is.
  | some q =>
      refine iff_of_true ?_ (.inl rfl)
      have hcore : stringTrim a.text = a.spelling.text ++ ':' :: q.text := by
        rw [trim_text, Address.core, hq]
        rfl
      rw [hasExplicitPort_colon hcore, if_pos rfl, ← haddress] at hconnect
      exact String.toList_injective hconnect
  | none =>
      cases hbare : a.spelling.isBare with
      | true => exact iff_of_false (not_applied_bare haddress hport hp hdefault hbare) (by simp)
      | false =>
          -- Without one the voice port is appended to the text, blanks and all.
          have hcore : a.core = a.spelling.text := by
            rw [Address.core, hq]
            exact List.append_nil _
          have hnone : Server.hasExplicitPort a.text = false := by
            refine hasExplicitPort_of_not_mem ?_
            rw [trim_text, hcore]
            exact not_mem_stripBrackets hbare
          rw [hnone, if_neg (by decide), Address.text, hcore] at hconnect
          have hspaced := parseIp_spaced hbare a.blank_before a.blank_after (Port.ofNat p hp)
          rw [hconnect]
          show parseIp _ = .ok (a.spelling.withPort (Port.ofNat p hp).value) ↔ _
          simpa using hspaced

/-- A server at an IPv6 address without brackets. -/
def localServer : Server where
  id := "1"
  name := "local"
  address := "::1"
  nickname := "guest"
  channel := none
  password := none
  voicePort := some 9988
  serverQueryPort := none
  serverQuerySshPort := none
  fileTransferPort := none

/-- `::1`. -/
def loopback : Address where
  before := []
  spelling := .bare [':', ':', '1'] [0, 0, 0, 0, 0, 0, 0, 1] rfl
  port := none
  after := []
  blank_before := List.forall_mem_nil _
  blank_after := List.forall_mem_nil _
  not_blank := fun c hc => isBlank_of_toNat
    ((show ∀ c ∈ [':', ':', '1'], 33 ≤ c.toNat ∧ c.toNat ≤ 126 by simp) c hc)
  port_of_bare := fun _ => rfl

/-- In brackets the address gets the voice port. -/
theorem applied_bracketed : Applied { localServer with address := "[::1]" }
    { loopback with
      spelling := .bracketed [':', ':', '1'] [0, 0, 0, 0, 0, 0, 0, 1] rfl
      not_blank := fun c hc => isBlank_of_toNat
        ((show ∀ c ∈ ['[', ':', ':', '1', ']'], 33 ≤ c.toNat ∧ c.toNat ≤ 126 by simp) c hc)
      port_of_bare := fun h => by cases h } 9988 :=
  (applied_iff _ _ 9988 rfl rfl (by decide) (by decide)).mpr (.inr ⟨rfl, rfl, rfl⟩)

/-- Without brackets the group behind the last colon is taken for a port. -/
theorem not_applied : localServer.address.toList = loopback.text ∧
    localServer.voicePort = some 9988 ∧ localServer.connectAddress = "::1" ∧
    ¬ Applied localServer loopback 9988 := by
  refine ⟨rfl, rfl, by decide, ?_⟩
  show ¬ parseIp localServer.connectAddress.toList = _
  decide

end Nek0.Proofs.Dart
