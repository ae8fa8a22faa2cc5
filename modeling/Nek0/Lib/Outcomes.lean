import Mathlib.Data.List.Basic

/-!
# `Nek0.Lib.Outcomes`: what a computation that can fail ends with

`Ends E P x` says that `x` gives a value with `P`, or fails with an error with `E`. There is a rule
for each way to build a computation: `Ends.bind` hands on what is known of the first value.
-/

set_option autoImplicit false

namespace Nek0.Lib.Outcomes

variable {ε α β : Type} {E : ε → Prop} {P P' : α → Prop} {Q : β → Prop}

/-- The value satisfies `P`, or the error satisfies `E`. -/
def Ends (E : ε → Prop) (P : α → Prop) : Except ε α → Prop
  | .ok a => P a
  | .error e => E e

theorem Ends.of_ok {x : Except ε α} {a : α} (h : Ends E P x) (hx : x = .ok a) : P a := by
  rw [hx] at h
  exact h

theorem Ends.of_error {x : Except ε α} {e : ε} (h : Ends E P x) (hx : x = .error e) : E e := by
  rw [hx] at h
  exact h

theorem Ends.bind {x : Except ε α} {f : α → Except ε β} (hx : Ends E P x)
    (hf : ∀ a, P a → Ends E Q (f a)) : Ends E Q (x >>= f) := by
  cases x with
  | ok a => exact hf a hx
  | error e => exact hx

theorem Ends.ite {c : Prop} [Decidable c] {x y : Except ε α} (hx : c → Ends E P x)
    (hy : ¬c → Ends E P y) : Ends E P (if c then x else y) := by
  split
  · next h => exact hx h
  · next h => exact hy h

theorem ok_bind (a : α) (f : α → Except ε β) : ((.ok a : Except ε α) >>= f) = f a := rfl

theorem error_bind (e : ε) (f : α → Except ε β) :
    ((.error e : Except ε α) >>= f) = .error e := rfl

theorem bind_eq_ok {x : Except ε α} {f : α → Except ε β} {b : β} (h : (x >>= f) = .ok b) :
    ∃ a, x = .ok a ∧ f a = .ok b := by
  cases x with
  | ok a => exact ⟨a, rfl, h⟩
  | error e => cases h

/-- A loop that collects values ends with one for each round. -/
theorem Ends.mapM {f : α → Except ε β} {as : List α} (h : ∀ a ∈ as, Ends E Q (f a)) :
    Ends E (fun bs => bs.length = as.length ∧ ∀ b ∈ bs, Q b) (as.mapM f) := by
  induction as with
  | nil => exact ⟨rfl, fun b hb => absurd hb List.not_mem_nil⟩
  | cons a as ih =>
      rw [List.mapM_cons]
      refine (h a List.mem_cons_self).bind fun b hb => ?_
      refine (ih fun a' ha' => h a' (List.mem_cons_of_mem a ha')).bind fun bs hbs => ?_
      refine ⟨congrArg (· + 1) hbs.1, fun b' hb' => ?_⟩
      cases List.mem_cons.mp hb' with
      | inl heq => exact heq ▸ hb
      | inr hmem => exact hbs.2 b' hmem

end Nek0.Lib.Outcomes
