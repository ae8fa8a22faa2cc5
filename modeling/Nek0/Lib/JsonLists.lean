import Mathlib

/-!
# `Nek0.Lib.JsonLists`: lists of strings as JSON texts

`encode` writes a list of strings as a JSON array, without white space between the items. `decode`
reads such a text one character at a time (`step`).

* `decode_encode`: what was written is read back.
* `visible_of_mem_encode`: the text has no control character, so that it is also a C string.
-/

set_option autoImplicit false

namespace Nek0.Lib.JsonLists

/-! ### Writing -/

/-- A hexadecimal digit. -/
def hexDigit (d : Nat) : Char := if d < 10 then .ofNat (48 + d) else .ofNat (87 + d)

/-- A character in a string: quotes and backslashes have a backslash before them, and control
characters are numbers. -/
def escapeChar (c : Char) : List Char :=
  if c = '"' then ['\\', '"']
  else if c = '\\' then ['\\', '\\']
  else if c.toNat < 32 then
    ['\\', 'u', '0', '0', hexDigit (c.toNat / 16), hexDigit (c.toNat % 16)]
  else [c]

/-- A string between quotes. -/
def quoted (s : String) : List Char := '"' :: (s.toList.flatMap escapeChar ++ ['"'])

/-- The array. -/
def encode : List String → String
  | [] => "[]"
  | s :: l => .ofList ('[' :: (quoted s ++ ((l.flatMap fun s => ',' :: quoted s) ++ [']'])))

/-! ### Reading -/

/-- Where the reader is. `done` are the strings before, and `cur` is what it has of this one. -/
inductive State where
  | start
  /-- Before a string. Before the first one the array may also end. -/
  | item (first : Bool) (done : List String)
  | body (done : List String) (cur : List Char)
  /-- After a backslash. -/
  | escaped (done : List String) (cur : List Char)
  /-- In the number of a character. -/
  | number (done : List String) (cur : List Char) (left value : Nat)
  | after (done : List String)
  | closed (done : List String)
  deriving DecidableEq, Repr

/-- The value of a hexadecimal digit. -/
def hexValue (c : Char) : Option Nat :=
  if '0' ≤ c ∧ c ≤ '9' then some (c.toNat - 48)
  else if 'a' ≤ c ∧ c ≤ 'f' then some (c.toNat - 87)
  else if 'A' ≤ c ∧ c ≤ 'F' then some (c.toNat - 55)
  else none

/-- The character that a backslash and this one stand for. -/
def unescape (c : Char) : Option Char :=
  match c with
  | '"' => some '"'
  | '\\' => some '\\'
  | '/' => some '/'
  | 'b' => some '\x08'
  | 'f' => some '\x0c'
  | 'n' => some '\n'
  | 'r' => some '\r'
  | 't' => some '\t'
  | _ => none

/-- Reads one character. -/
def step : State → Char → Option State
  | .start, c => if c = '[' then some (.item true []) else none
  | .item first done, c =>
    if c = '"' then some (.body done [])
    else if c = ']' ∧ first then some (.closed done)
    else none
  | .body done cur, c =>
    if c = '"' then some (.after (done ++ [.ofList cur]))
    else if c = '\\' then some (.escaped done cur)
    else if c.toNat < 32 then none
    else some (.body done (cur ++ [c]))
  | .escaped done cur, c =>
    if c = 'u' then some (.number done cur 4 0)
    else (unescape c).map fun c => .body done (cur ++ [c])
  | .number done cur left value, c =>
    (hexValue c).map fun d =>
      if left = 1 then .body done (cur ++ [.ofNat (16 * value + d)])
      else .number done cur (left - 1) (16 * value + d)
  | .after done, c =>
    if c = ',' then some (.item false done)
    else if c = ']' then some (.closed done)
    else none
  | .closed _, _ => none

/-- Reads an array. -/
def decode (s : String) : Option (List String) :=
  match s.toList.foldlM step .start with
  | some (.closed done) => some done
  | _ => none

/-! ### What was written is read back -/

/-- The reader takes an escaped character for the character. -/
theorem foldlM_escapeChar (done : List String) (cur : List Char) (c : Char) :
    (escapeChar c).foldlM step (.body done cur) = some (.body done (cur ++ [c])) := by
  unfold escapeChar
  split
  · next h =>
      rw [h]
      rfl
  · split
    · next h =>
        rw [h]
        rfl
    · next hquote hslash =>
        split
        · next hcontrol =>
            have hc : c = Char.ofNat c.toNat := (Char.ofNat_toNat c).symm
            generalize c.toNat = n at hc hcontrol
            subst hc
            -- The 32 control characters, one by one.
            interval_cases n <;> rfl
        · next hcontrol => simp [step, hquote, hslash, hcontrol]

/-- The reader takes an escaped text for the text. -/
theorem foldlM_body (done : List String) (cur l : List Char) :
    (l.flatMap escapeChar).foldlM step (.body done cur) = some (.body done (cur ++ l)) := by
  induction l generalizing cur with
  | nil => simp
  | cons c l ih =>
      rw [List.flatMap_cons, List.foldlM_append, foldlM_escapeChar]
      simpa using ih (cur ++ [c])

/-- The reader takes a quoted string for the item. -/
theorem foldlM_quoted (first : Bool) (done : List String) (s : String) :
    (quoted s).foldlM step (.item first done) = some (.after (done ++ [s])) := by
  have hopen : step (.item first done) '"' = some (.body done []) := rfl
  rw [quoted, List.foldlM_cons, hopen]
  show List.foldlM step (.body done []) (s.toList.flatMap escapeChar ++ ['"']) = _
  rw [List.foldlM_append, foldlM_body]
  simp [step]

/-- The reader takes the items behind the first, each with its comma. -/
theorem foldlM_rest (done l : List String) :
    (l.flatMap fun s => ',' :: quoted s).foldlM step (.after done) = some (.after (done ++ l)) := by
  induction l generalizing done with
  | nil => simp
  | cons s l ih =>
      have hcomma : step (.after done) ',' = some (.item false done) := rfl
      rw [List.flatMap_cons, List.cons_append, List.foldlM_cons, hcomma]
      show List.foldlM step (.item false done) (quoted s ++ _) = _
      rw [List.foldlM_append, foldlM_quoted]
      simpa using ih (done ++ [s])

/-- What was written is read back. -/
@[simp] theorem decode_encode (l : List String) : decode (encode l) = some l := by
  cases l with
  | nil => rfl
  | cons s l =>
      have hopen : step .start '[' = some (.item true []) := rfl
      have hread : (encode (s :: l)).toList.foldlM step .start = some (.closed (s :: l)) := by
        rw [encode, String.toList_ofList, List.foldlM_cons, hopen]
        show List.foldlM step (.item true []) (quoted s ++ _) = _
        rw [List.foldlM_append, foldlM_quoted]
        show List.foldlM step (.after [s]) (_ ++ _) = _
        rw [List.foldlM_append, foldlM_rest]
        rfl
      rw [decode, hread]

/-! ### Control characters -/

theorem visible_hexDigit {d : Nat} (h : d < 16) : 32 ≤ (hexDigit d).toNat := by
  interval_cases d <;> decide

/-- What a character is escaped to has no control character. -/
theorem visible_of_mem_escapeChar {c d : Char} (h : d ∈ escapeChar c) : 32 ≤ d.toNat := by
  unfold escapeChar at h
  split at h
  · simp only [List.mem_cons, List.not_mem_nil, or_false] at h
    rcases h with rfl | rfl <;> decide
  · split at h
    · simp only [List.mem_cons, List.not_mem_nil, or_false] at h
      rcases h with rfl | rfl <;> decide
    · split at h
      · next hcontrol =>
          simp only [List.mem_cons, List.not_mem_nil, or_false] at h
          -- Of `\u00xy` the first four characters are fixed. The last two are hex digits.
          rcases h with rfl | rfl | rfl | rfl | rfl | rfl
          · decide
          · decide
          · decide
          · decide
          · exact visible_hexDigit (by omega)
          · exact visible_hexDigit (by omega)
      · next hcontrol =>
          rw [List.mem_singleton.mp h]
          omega

/-- A quoted string has no control character. -/
theorem visible_of_mem_quoted {s : String} {c : Char} (h : c ∈ quoted s) : 32 ≤ c.toNat := by
  rw [quoted, List.mem_cons, List.mem_append, List.mem_singleton, List.mem_flatMap] at h
  rcases h with rfl | ⟨c', -, h⟩ | rfl
  · decide
  · exact visible_of_mem_escapeChar h
  · decide

/-- The text has no control character. -/
theorem visible_of_mem_encode {l : List String} {c : Char} (h : c ∈ (encode l).toList) :
    32 ≤ c.toNat := by
  cases l with
  | nil =>
      have hc : c = '[' ∨ c = ']' := by simpa [encode] using h
      rcases hc with rfl | rfl <;> decide
  | cons s l =>
      rw [encode, String.toList_ofList, List.mem_cons, List.mem_append, List.mem_append,
        List.mem_flatMap, List.mem_singleton] at h
      rcases h with rfl | h | ⟨s', -, h⟩ | rfl
      · decide
      · exact visible_of_mem_quoted h
      · rcases List.mem_cons.mp h with rfl | h
        · decide
        · exact visible_of_mem_quoted h
      · decide

end Nek0.Lib.JsonLists
