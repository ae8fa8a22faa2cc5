import Mathlib

/-!
# `Nek0.Lib.Precedence`: what must come before what in a list

`R b a` says that `b` is needed for `a`. A list is `Preceded` when all that an element needs is
somewhere before it. Such lists can be appended (`preceded_append`), and a list that is given by its
positions is preceded when each position needs earlier positions only (`preceded_of_positions`).
-/

set_option autoImplicit false

namespace Nek0.Lib.Precedence

variable {α : Type} (R : α → α → Prop)

/-- All that an element needs is before it. -/
def Preceded (l : List α) : Prop :=
  ∀ earlier a later, l = earlier ++ a :: later → ∀ b, R b a → b ∈ earlier

variable {R}

theorem preceded_nil : Preceded R [] := by
  intro earlier a later h
  simp at h

/-- The second list may use the first. -/
theorem preceded_append {l m : List α} (hl : Preceded R l) (hm : Preceded R m) :
    Preceded R (l ++ m) := by
  intro earlier a later h b hb
  rcases List.append_eq_append_iff.mp h with ⟨between, hearlier, hm'⟩ | ⟨between, hl', hlater⟩
  · rw [hearlier]
    exact List.mem_append_right _ (hm between a later hm' b hb)
  · cases between with
    | nil =>
        rw [List.append_nil] at hl'
        rw [List.nil_append] at hlater
        exact absurd (hm [] a later hlater.symm b hb) List.not_mem_nil
    | cons a' between =>
        obtain ⟨rfl, -⟩ := List.cons.inj hlater
        exact hl earlier a between hl' b hb

/-- Each position of the list needs earlier positions only. -/
theorem preceded_of_positions {n : Nat} {f : Nat → α}
    (h : ∀ i < n, ∀ b, R b (f i) → ∃ j < i, f j = b) :
    Preceded R ((List.range n).map f) := by
  intro earlier a later heq b hb
  have hlength : earlier.length < n := by
    have := congrArg List.length heq
    simp only [List.length_map, List.length_range, List.length_append, List.length_cons] at this
    omega
  have ha : f earlier.length = a := by
    have := congrArg (·[earlier.length]?) heq
    simpa [hlength] using this
  have hearlier : earlier = (List.range earlier.length).map f := by
    have := congrArg (List.take earlier.length) heq
    rw [List.take_left, ← List.map_take, List.take_range, Nat.min_eq_left hlength.le] at this
    exact this.symm
  obtain ⟨j, hj, rfl⟩ := h earlier.length hlength b (ha ▸ hb)
  rw [hearlier]
  exact List.mem_map.mpr ⟨j, List.mem_range.mpr hj, rfl⟩

end Nek0.Lib.Precedence
