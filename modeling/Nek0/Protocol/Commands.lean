import Nek0.Protocol.Packets

/-!
# `Nek0.Protocol.Commands`: the texts of commands

A command is a name and arguments, in parts that are separated by `|`. `OutCommand` writes one into
a packet, and `CommandParser` reads it item by item. The parser's position is given by the bytes
that are left.
-/

set_option autoImplicit false

namespace Nek0.Protocol

def space : UInt8 := 0x20

def pipe : UInt8 := 0x7c

def equals : UInt8 := 0x3d

def backslash : UInt8 := 0x5c

/-- One of `b"\x0b\x0c\t\r\n "`. -/
def isSpace (c : UInt8) : Bool := [0x0b, 0x0c, 0x09, 0x0d, 0x0a, space].contains c

def isAsciiAlphanumeric (c : UInt8) : Bool :=
  decide (0x30 ≤ c ∧ c ≤ 0x39 ∨ 0x41 ≤ c ∧ c ≤ 0x5a ∨ 0x61 ≤ c ∧ c ≤ 0x7a)

/-- `CommandArgument`, with its `CommandArgumentValue`. -/
structure CommandArgument where
  name : List UInt8
  raw : List UInt8
  /-- The number of escape sequences in the value. -/
  escapes : Nat
  deriving DecidableEq, Repr

inductive CommandItem where
  | argument (arg : CommandArgument)
  /-- Pipe symbol marking the start of the next command. -/
  | nextCommand
  deriving DecidableEq, Repr

/-! ### Reading -/

namespace CommandParser

/-- `CommandParser::new`: the name of the command and what is left. -/
def new (data : List UInt8) : List UInt8 × List UInt8 :=
  match data.dropWhile isAsciiAlphanumeric with
  | [] => (data, [])
  | c :: rest =>
    if c = space then (data.takeWhile isAsciiAlphanumeric, c :: rest)
    -- Not a command name.
    else ([], data)

/-- Where a value ends. -/
def endsValue (c : UInt8) : Bool := isSpace c || c == pipe

/-- The value, the number of its escape sequences, and what is left. `escaped`: behind a backslash,
which is not the start of an escape sequence then. -/
def value (escaped : Bool) : List UInt8 → List UInt8 × Nat × List UInt8
  | [] => ([], 0, [])
  | c :: rest =>
    if endsValue c then ([], 0, c :: rest)
    else if !escaped && c == backslash then
      let v := value true rest
      (c :: v.1, v.2.1 + 1, v.2.2)
    else
      let v := value false rest
      (c :: v.1, v.2.1, v.2.2)

/-- Where the name of an argument ends. -/
def endsName (c : UInt8) : Bool := c == space || c == equals || c == pipe

/-- `next`: an item, if there is one, and what is left. -/
def next (data : List UInt8) : Option (CommandItem × List UInt8) :=
  match data.dropWhile isSpace with
  | [] => none
  | c :: rest =>
    -- A new part begins.
    if c = pipe then some (.nextCommand, rest)
    else
      let name := (c :: rest).takeWhile fun c => !endsName c
      match (c :: rest).dropWhile fun c => !endsName c with
      -- The text ends behind the name.
      | [] => some (.argument ⟨name, [], 0⟩, [])
      | d :: rest' =>
        if d = equals then
          let v := value false rest'
          some (.argument ⟨name, v.1, v.2.1⟩, v.2.2)
        else some (.argument ⟨name, [], 0⟩, d :: rest')

/-- Reading a value does not make the data longer. -/
theorem length_value_le (escaped : Bool) (data : List UInt8) :
    (value escaped data).2.2.length ≤ data.length := by
  induction data generalizing escaped with
  | nil => exact Nat.le_refl _
  | cons c rest ih =>
      rw [value]
      split
      · exact Nat.le_refl _
      · split
        · exact (ih true).trans (Nat.le_succ _)
        · exact (ih false).trans (Nat.le_succ _)

theorem not_of_dropWhile_eq_cons {p : UInt8 → Bool} {data rest : List UInt8} {c : UInt8}
    (h : data.dropWhile p = c :: rest) : p c = false := by
  have hhead := List.head?_dropWhile_not p data
  rw [h] at hhead
  exact hhead

/-- The parser goes on. -/
theorem length_next_lt {data rest : List UInt8} {item : CommandItem}
    (h : next data = some (item, rest)) : rest.length < data.length := by
  have hskip := (List.dropWhile_suffix isSpace (l := data)).length_le
  rw [next] at h
  split at h
  · cases h
  · next c left hleft =>
      rw [hleft, List.length_cons] at hskip
      split at h
      · cases h
        omega
      · next hpipe =>
          dsimp only at h
          -- Only `=` can end the name at once.
          have hname : c = equals ∨
              ((c :: left).dropWhile fun c => !endsName c).length ≤ left.length := by
            by_cases hc : c = equals
            · exact .inl hc
            · have hspace : c ≠ space := by
                intro heq
                have hnot := not_of_dropWhile_eq_cons hleft
                rw [heq] at hnot
                revert hnot
                decide
              have hends : endsName c = false := by
                simp [endsName, hspace, hc, hpipe]
              rw [List.dropWhile_cons_of_pos (by rw [hends]; rfl)]
              exact .inr (List.dropWhile_suffix _).length_le
          split at h
          · cases h
            show 0 < _
            omega
          · next d rest' hd =>
              have hsuffix := (List.dropWhile_suffix (fun c => !endsName c)
                (l := c :: left)).length_le
              rw [hd, List.length_cons, List.length_cons] at hsuffix
              split at h
              · cases h
                have hvalue := length_value_le false rest'
                omega
              · next heq =>
                  cases h
                  rcases hname with hc | hlen
                  · -- The name is empty, and ends at `=`.
                    rw [hc, List.dropWhile_cons_of_neg (by decide)] at hd
                    cases hd
                    exact absurd rfl heq
                  · rw [hd] at hlen
                    omega

/-- All the items. -/
def items (data : List UInt8) : List CommandItem :=
  match _h : next data with
  | none => []
  | some (item, rest) => item :: items rest
termination_by data.length
decreasing_by exact length_next_lt ‹_›

/-- The items behind one that is read. -/
theorem items_of_some {data rest : List UInt8} {item : CommandItem}
    (h : next data = some (item, rest)) : items data = item :: items rest := by
  rw [items]
  split
  · next hnone =>
      rw [h] at hnone
      cases hnone
  · next hsome =>
      rw [h] at hsome
      cases hsome
      rfl

/-- No item is left. -/
theorem items_of_none {data : List UInt8} (h : next data = none) : items data = [] := by
  rw [items]
  split
  · rfl
  · next hsome =>
      rw [h] at hsome
      cases hsome

end CommandParser

namespace CommandArgument

/-- The byte that an escape sequence stands for. -/
def unescapeByte (c : UInt8) : UInt8 :=
  match Char.ofNat c.toNat with
  | 'v' => 0x0b
  | 'f' => 0x0c
  | 't' => 0x09
  | 'r' => 0x0d
  | 'n' => 0x0a
  | 'p' => pipe
  | 's' => space
  | _ => c

/-- A backslash at the end stands for nothing. -/
def unescape : List UInt8 → List UInt8
  | [] => []
  | [c] => if c = backslash then [] else [c]
  | c :: d :: rest =>
    if c = backslash then unescapeByte d :: unescape rest else c :: unescape (d :: rest)

/-- `value().get()`. -/
def get (a : CommandArgument) : List UInt8 := if a.escapes = 0 then a.raw else unescape a.raw

end CommandArgument

/-! ### Writing -/

/-- What `EscapedWriter` writes for a byte. -/
def escapeByte (c : UInt8) : List UInt8 :=
  match Char.ofNat c.toNat with
  | '\x0b' => ascii "\\v"
  | '\x0c' => ascii "\\f"
  | '\\' => ascii "\\\\"
  | '\t' => ascii "\\t"
  | '\r' => ascii "\\r"
  | '\n' => ascii "\\n"
  | '|' => ascii "\\p"
  | ' ' => ascii "\\s"
  | '/' => ascii "\\/"
  | _ => [c]

def escape (value : List UInt8) : List UInt8 := value.flatMap escapeByte

/-- `str::as_bytes`. -/
def asBytes (text : String) : List UInt8 := text.toByteArray.data.toList

/-- `OutCommand`. -/
structure OutCommand where
  packet : OutPacket

namespace OutCommand

def new (dir : Direction) (flags : Flags) (packetType : PacketType) (name : String) :
    OutCommand :=
  ⟨(OutPacket.newWithDir dir flags packetType).extend (asBytes name)⟩

/-- What stands before an argument. -/
def separator (content : List UInt8) : List UInt8 :=
  if content.getLast? ≠ some pipe ∧ content ≠ [] then [space] else []

/-- For binary arguments. The value will still be escaped. -/
def writeBinArg (c : OutCommand) (name : String) (value : List UInt8) : OutCommand :=
  ⟨c.packet.extend (separator c.packet.content ++ asBytes name ++
    if value.isEmpty then [] else equals :: escape value)⟩

/-- The value is formatted and escaped. `=` goes again when nothing was written. -/
def writeArg (c : OutCommand) (name value : String) : OutCommand :=
  let escaped := escape (asBytes value)
  ⟨c.packet.extend (separator c.packet.content ++ asBytes name ++
    if escaped.length = 0 then [] else equals :: escaped)⟩

/-- Adds a pipe symbol `|` to the command. -/
def startNewPart (c : OutCommand) : OutCommand := ⟨c.packet.extend [pipe]⟩

end OutCommand

end Nek0.Protocol
