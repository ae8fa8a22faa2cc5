import Mathlib

/-!
# `Nek0.Lib.Table`: finite tables

A `Table` is Mathlib's association list with pairwise distinct keys, at a constant value type. This
module adds the bulk operations of a hash map: changing one value in place, changing all values,
keeping some of them, and listing them.
-/

set_option autoImplicit false

namespace Nek0.Lib

/-- A finite table from `K` to `V`. -/
abbrev Table (K V : Type) := AList fun _ : K => V

namespace Table

variable {K V : Type} [DecidableEq K]

/-- Changes the value at `k`, if there is one. -/
def modify (k : K) (f : V → V) (t : Table K V) : Table K V :=
  match t.lookup k with
  | none => t
  | some v => t.insert k (f v)

omit [DecidableEq K] in
/-- Changes every value. -/
def mapVals (f : K → V → V) (t : Table K V) : Table K V :=
  ⟨t.entries.map (Sigma.map id f), t.nodupKeys.map₂ f⟩

omit [DecidableEq K] in
/-- Keeps the entries that satisfy `p`. -/
def keep (p : V → Bool) (t : Table K V) : Table K V :=
  ⟨t.entries.filter fun e => p e.2, t.nodupKeys.sublist List.filter_sublist⟩

omit [DecidableEq K] in
/-- The values, in some order. -/
def values (t : Table K V) : List V := t.entries.map Sigma.snd

/-- The keys of the entries that satisfy `p`. -/
def keysWhere (p : K → V → Bool) (t : Table K V) : List K :=
  (t.entries.filter fun e => p e.1 e.2).map Sigma.fst

@[simp] theorem erase_empty (k : K) : (∅ : Table K V).erase k = ∅ := rfl

@[simp] theorem modify_empty (k : K) (f : V → V) : modify k f (∅ : Table K V) = ∅ := rfl

omit [DecidableEq K] in
/-- Are there no entries? -/
def isEmpty (t : Table K V) : Bool := t.entries.isEmpty

omit [DecidableEq K] in
@[simp] theorem isEmpty_iff (t : Table K V) : isEmpty t = true ↔ t = ∅ := by
  rw [isEmpty, List.isEmpty_iff]
  exact ⟨fun h => AList.ext h, fun h => by rw [h]; rfl⟩

omit [DecidableEq K] in
@[simp] theorem values_empty : values (∅ : Table K V) = [] := rfl

/-- A modified table answers `k` with the changed value, and every other key as before. -/
theorem lookup_modify (k k' : K) (f : V → V) (t : Table K V) :
    (modify k f t).lookup k' = if k' = k then (t.lookup k).map f else t.lookup k' := by
  unfold modify
  by_cases hk : k' = k
  · subst hk
    cases h : t.lookup k' with
    | none => simp [h]
    | some v => simp
  · cases h : t.lookup k with
    | none => simp [hk]
    | some v => rw [if_neg hk, AList.lookup_insert_ne hk]

/-- An entry is a lookup. -/
theorem mem_entries_iff (t : Table K V) (k : K) (v : V) :
    (⟨k, v⟩ : Σ _ : K, V) ∈ t.entries ↔ t.lookup k = some v :=
  (AList.mem_lookup_iff (s := t)).symm

/-- A value of the table is under one of its keys. -/
theorem mem_values_iff (t : Table K V) (v : V) : v ∈ values t ↔ ∃ k, t.lookup k = some v := by
  simp only [values, List.mem_map, ← mem_entries_iff]
  constructor
  · rintro ⟨⟨k, v'⟩, hmem, rfl⟩
    exact ⟨k, hmem⟩
  · rintro ⟨k, hmem⟩
    exact ⟨⟨k, v⟩, hmem, rfl⟩

/-- The keys that are picked are those whose value satisfies the test. -/
theorem mem_keysWhere_iff (p : K → V → Bool) (t : Table K V) (k : K) :
    k ∈ keysWhere p t ↔ ∃ v, t.lookup k = some v ∧ p k v = true := by
  simp only [keysWhere, List.mem_map, List.mem_filter, ← mem_entries_iff]
  constructor
  · rintro ⟨⟨k', v⟩, ⟨hmem, hp⟩, rfl⟩
    exact ⟨v, hmem, hp⟩
  · rintro ⟨v, hmem, hp⟩
    exact ⟨⟨k, v⟩, ⟨hmem, hp⟩, rfl⟩

omit [DecidableEq K] in
/-- A table without values is empty. -/
theorem values_eq_nil_iff (t : Table K V) : values t = [] ↔ t = ∅ := by
  rw [values, List.map_eq_nil_iff, ← List.isEmpty_iff]
  exact isEmpty_iff t

/-! ### Counting values -/

end Table

end Nek0.Lib
