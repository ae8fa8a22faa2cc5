import Mathlib.Data.List.Basic

/-!
# `Nek0.Lib.Parser`: parsers that take text from the front

A failed parser has taken nothing, so alternatives start from the same text (`<|>`).

* `Stops`: the parser never reads past the character `c`. What it makes of a text does not depend
  on what stands behind the next `c`, so a text that it reads to the end can stand in front of `c`
  (`Stops.append`) and does not hold a `c` (`Stops.not_mem`).
* `Reads`: the parser takes at least a given number of `c`.

Both have a rule for each way to build a parser.
-/

set_option autoImplicit false

namespace Nek0.Lib

/-- Takes text from the front. -/
abbrev Parser (α : Type) := StateT (List Char) Option α

namespace Parser

variable {α β : Type}

/-- `c`, next. -/
def char (c : Char) : Parser Unit
  | [] => none
  | d :: text => if d = c then some ((), text) else none

/-- The longest run of characters that are `ok`, which may be empty. -/
def span (ok : Char → Bool) : Parser (List Char) := fun text =>
  some (text.takeWhile ok, text.dropWhile ok)

/-- What the parser makes of the whole text. -/
def whole (p : Parser α) (text : List Char) : Option α :=
  match p text with
  | some (a, []) => some a
  | _ => none

/-- A whole text is parsed if nothing is left of it. -/
theorem whole_eq_some {p : Parser α} {text : List Char} {a : α} :
    p.whole text = some a ↔ p text = some (a, []) := by
  unfold whole
  split
  · next b h => simp [h]
  · next h =>
      constructor
      · intro heq
        cases heq
      · exact fun heq => absurd heq (h a)

/-! ### Steps -/

theorem bind_apply (p : Parser α) (f : α → Parser β) (text : List Char) :
    (p >>= f) text = (p text).bind fun r => f r.1 r.2 := rfl

theorem orElse_apply (p q : Parser α) (text : List Char) :
    (p <|> q) text = (p text).or (q text) := by
  show Option.orElse (p text) (fun _ => q text) = _
  cases p text <;> rfl

theorem bind_of_eq {p : Parser α} {text left : List Char} {a : α} (h : p text = some (a, left))
    (f : α → Parser β) : (p >>= f) text = f a left := by
  rw [bind_apply, h]
  rfl

theorem bind_of_none {p : Parser α} {text : List Char} (h : p text = none) (f : α → Parser β) :
    (p >>= f) text = none := by
  rw [bind_apply, h]
  rfl

@[simp] theorem char_cons_self (c : Char) (text : List Char) :
    char c (c :: text) = some ((), text) := if_pos rfl

theorem char_cons_of_ne {c d : Char} (h : d ≠ c) (text : List Char) : char c (d :: text) = none :=
  if_neg h

/-! ### A character that ends what a parser reads -/

/-- The parser never reads past `c`. -/
def Stops (c : Char) (p : Parser α) : Prop :=
  ∀ text rest, p (text ++ c :: rest) = (p text).map fun r => (r.1, r.2 ++ c :: rest)

namespace Stops

variable {c : Char}

theorem append {p : Parser α} (h : Stops c p) {text : List Char} {a : α}
    (hp : p text = some (a, [])) (rest : List Char) :
    p (text ++ c :: rest) = some (a, c :: rest) := by
  rw [h text rest, hp]
  rfl

/-- A parser that stops at `c` takes no `c`. -/
theorem not_mem {p : Parser α} (h : Stops c p) {text : List Char} {a : α}
    (hp : p text = some (a, [])) : c ∉ text := by
  intro hmem
  obtain ⟨before, after, rfl⟩ := List.append_of_mem hmem
  rw [h before after] at hp
  obtain ⟨r, -, hr⟩ := Option.map_eq_some_iff.mp hp
  -- Behind what was taken there is still the `c`.
  have hleft : r.2 ++ c :: after = [] := congrArg Prod.snd hr
  exact absurd hleft (by simp)

theorem pure (a : α) : Stops c (pure a : Parser α) := fun _ _ => rfl

theorem failure : Stops c (failure : Parser α) := fun _ _ => rfl

/-- A parser that stops at `c` is followed by parsers that do. -/
theorem bind {p : Parser α} {f : α → Parser β} (hp : Stops c p) (hf : ∀ a, Stops c (f a)) :
    Stops c (p >>= f) := by
  intro text rest
  rw [bind_apply, bind_apply, hp text rest]
  cases p text with
  | none => rfl
  | some r => exact hf r.1 r.2 rest

theorem map (f : α → β) {p : Parser α} (hp : Stops c p) : Stops c (f <$> p) :=
  hp.bind fun a => pure (f a)

theorem orElse {p q : Parser α} (hp : Stops c p) (hq : Stops c q) : Stops c (p <|> q) := by
  intro text rest
  rw [orElse_apply, orElse_apply, hp text rest, hq text rest]
  cases p text <;> rfl

theorem ite {condition : Prop} [Decidable condition] {p q : Parser α} (hp : Stops c p)
    (hq : Stops c q) : Stops c (if condition then p else q) := by
  split
  · exact hp
  · exact hq

theorem optional {p : Parser α} (hp : Stops c p) : Stops c (optional p) :=
  (hp.map some).orElse (pure none)

/-- A character other than `c` is parsed up to the next `c`, or not at all. -/
theorem char {d : Char} (h : c ≠ d) : Stops c (char d) := by
  intro text rest
  cases text with
  | nil => exact char_cons_of_ne h rest
  | cons e text =>
      show (if e = d then _ else _) = _
      by_cases he : e = d
      · subst he
        simp
      · rw [if_neg he, char_cons_of_ne he]
        rfl

/-- A run of characters without `c` stops at `c`. -/
theorem span {ok : Char → Bool} (h : ok c = false) : Stops c (span ok) := by
  intro text rest
  induction text with
  | nil => simp [Parser.span, h]
  | cons d text ih =>
      by_cases hd : ok d
      · simp only [Parser.span, Option.map_some, Option.some.injEq, Prod.mk.injEq] at ih ⊢
        simp [hd, ih]
      · simp [Parser.span, hd]

end Stops

/-! ### How often a character is read -/

/-- The parser takes at least `n a` times `c`, where `a` is its result. -/
def Reads (c : Char) (n : α → Nat) (p : Parser α) : Prop :=
  ∀ text a left, p text = some (a, left) → left.count c + n a ≤ text.count c

namespace Reads

variable {c : Char}

/-- A parser that reads many `c` reads few. -/
theorem mono {n m : α → Nat} {p : Parser α} (h : Reads c n p) (hle : ∀ a, m a ≤ n a) :
    Reads c m p := by
  intro text a left hp
  have hcount := h text a left hp
  have hn := hle a
  omega

theorem pure {n : α → Nat} {a : α} (h : n a = 0) : Reads c n (pure a : Parser α) := by
  intro text b left hp
  cases hp
  omega

theorem failure (n : α → Nat) : Reads c n (failure : Parser α) := by
  intro text a left hp
  cases hp

/-- What is read in a row adds up. -/
theorem bind {n : α → Nat} {m : β → Nat} {p : Parser α} {f : α → Parser β} (hp : Reads c n p)
    (hf : ∀ a, Reads c (fun b => m b - n a) (f a)) : Reads c m (p >>= f) := by
  intro text b left h
  rw [bind_apply] at h
  obtain ⟨r, hr, hb⟩ := Option.bind_eq_some_iff.mp h
  have hfirst := hp text r.1 r.2 hr
  have hsecond := hf r.1 r.2 b left hb
  dsimp only at hsecond
  omega

/-- Both alternatives read enough. -/
theorem orElse {n : α → Nat} {p q : Parser α} (hp : Reads c n p) (hq : Reads c n q) :
    Reads c n (p <|> q) := by
  intro text a left h
  rw [orElse_apply] at h
  rcases Option.or_eq_some_iff.mp h with h | ⟨-, h⟩
  · exact hp text a left h
  · exact hq text a left h

theorem optional {n : α → Nat} {p : Parser α} (hp : Reads c n p) :
    Reads c (fun a => a.elim 0 n) (optional p) := by
  have hsome : Reads c (fun a => a.elim 0 n) (p >>= fun a => Pure.pure (some a)) :=
    hp.bind fun a => pure (Nat.sub_self (n a))
  exact hsome.orElse (pure rfl)

/-- Both branches read enough. -/
theorem ite {condition : Prop} [Decidable condition] {n : α → Nat} {p q : Parser α}
    (hp : condition → Reads c n p) (hq : Reads c n q) :
    Reads c n (if condition then p else q) := by
  split
  · next h => exact hp h
  · exact hq

/-- The parser of `c` reads one `c`. -/
theorem char (c : Char) : Reads c (fun _ => 1) (char c) := by
  intro text a left h
  cases text with
  | nil => cases h
  | cons d text =>
      by_cases hd : d = c
      · subst hd
        rw [char_cons_self] at h
        cases h
        simp
      · rw [char_cons_of_ne hd] at h
        cases h

/-- The parser of another character takes nothing from the count of `c`. -/
theorem char_zero (c d : Char) : Reads c (fun _ => 0) (Parser.char d) := by
  intro text a left h
  cases text with
  | nil => cases h
  | cons e text =>
      by_cases he : e = d
      · subst he
        rw [char_cons_self] at h
        cases h
        exact List.count_le_count_cons
      · rw [char_cons_of_ne he] at h
        cases h

theorem span (ok : Char → Bool) : Reads c (fun _ => 0) (span ok) := by
  intro text a left h
  cases h
  exact (List.dropWhile_sublist ok).count_le c

end Reads

end Parser

end Nek0.Lib
