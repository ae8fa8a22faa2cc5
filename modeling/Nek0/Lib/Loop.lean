import Mathlib

/-!
# `Nek0.Lib.Loop`: a loop that may run forever

A `step` gives the next state of a loop, or `none` when the loop ends. `loop` makes the steps as
long as there is fuel.

* `loop_of_measure`: a loop whose steps decrease a measure ends.
* `loop_invariant`: what every step keeps holds when the loop ends.
-/

set_option autoImplicit false

namespace Nek0.Lib.Loop

variable {σ : Type} (step : σ → Option σ)

/-- The state in which the loop ends. It is `none` when the fuel is used up before. -/
def loop : Nat → σ → Option σ
  | 0, _ => none
  | fuel + 1, s =>
    match step s with
    | none => some s
    | some s' => loop fuel s'

variable {step}

theorem loop_of_none {fuel : Nat} {s : σ} (h : step s = none) :
    loop step (fuel + 1) s = some s := by
  rw [loop, h]

theorem loop_of_some {fuel : Nat} {s s' : σ} (h : step s = some s') :
    loop step (fuel + 1) s = loop step fuel s' := by
  rw [loop, h]

/-- With fuel for as many steps as the measure has, the loop ends, and more fuel changes nothing. -/
theorem loop_of_measure (measure : σ → Nat)
    (hstep : ∀ s s', step s = some s' → measure s' < measure s) (s : σ) :
    ∃ s', ∀ fuel > measure s, loop step fuel s = some s' := by
  induction hm : measure s using Nat.strong_induction_on generalizing s with
  | _ m ih =>
      cases hs : step s with
      | none =>
          refine ⟨s, fun fuel hfuel => ?_⟩
          obtain ⟨fuel, rfl⟩ : ∃ n, fuel = n + 1 := ⟨fuel - 1, by omega⟩
          exact loop_of_none hs
      | some s₁ =>
          have hlt := hstep s s₁ hs
          obtain ⟨s', hs'⟩ := ih (measure s₁) (by omega) s₁ rfl
          refine ⟨s', fun fuel hfuel => ?_⟩
          obtain ⟨fuel, rfl⟩ : ∃ n, fuel = n + 1 := ⟨fuel - 1, by omega⟩
          rw [loop_of_some hs]
          exact hs' fuel (by omega)

/-- What every step keeps holds behind the loop. -/
theorem loop_invariant {P : σ → Prop} (hstep : ∀ s s', P s → step s = some s' → P s') {fuel : Nat}
    {s s' : σ} (hs : P s) (h : loop step fuel s = some s') : P s' := by
  induction fuel generalizing s with
  | zero => cases h
  | succ fuel ih =>
      -- The loop ends here, or goes on behind one step.
      cases hs₁ : step s with
      | none =>
          rw [loop_of_none hs₁] at h
          cases h
          exact hs
      | some s₁ =>
          rw [loop_of_some hs₁] at h
          exact ih (hstep s s₁ hs hs₁) h

/-- The loop ends where there is no further step. -/
theorem step_of_loop {fuel : Nat} {s s' : σ} (h : loop step fuel s = some s') : step s' = none := by
  induction fuel generalizing s with
  | zero => cases h
  | succ fuel ih =>
      cases hs₁ : step s with
      | none =>
          rw [loop_of_none hs₁] at h
          cases h
          exact hs₁
      | some s₁ =>
          rw [loop_of_some hs₁] at h
          exact ih h

end Nek0.Lib.Loop
