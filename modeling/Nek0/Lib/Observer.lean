import Nek0.Lib.Pool

/-!
# `Nek0.Lib.Observer`: runs with a record

An `Observer` keeps a record of a run: it sees the label of each step, and the state before it. It
blocks no step and changes no state, so a run with a record is a run (`Run.of_observed`). The record
tells what a run did where the state no longer shows it.

`getElem?_step` says what the thread in one place of a pool is after a step, for records that are
kept by place.
-/

set_option autoImplicit false

namespace Nek0.Lib

/-- Keeps a record of a run. -/
structure Observer (σ ι μ : Type) where
  start : μ
  see : ι → σ → μ → μ

namespace System

variable {σ ι μ : Type}

/-- The system with the record of an observer. -/
def observed (S : System σ ι) (O : Observer σ ι μ) : System (σ × μ) ι where
  init := fun p => S.init p.1 ∧ p.2 = O.start
  next := fun i p => (S.next i p.1).map fun s => (s, O.see i p.1 p.2)

variable {S : System σ ι} {O : Observer σ ι μ} {ok : σ × μ → ι → Prop} {ok' : σ → ι → Prop}

/-- A step with a record is a step, and the observer has seen it. -/
theorem next_observed {i : ι} {p p' : σ × μ} (h : (S.observed O).next i p = some p') :
    S.next i p.1 = some p'.1 ∧ p'.2 = O.see i p.1 p.2 := by
  obtain ⟨s, hnext, rfl⟩ := Option.map_eq_some_iff.mp h
  exact ⟨hnext, rfl⟩

/-- A run with a record is a run. -/
theorem Run.of_observed (hok : ∀ p i, ok p i → ok' p.1 i) {p : σ × μ}
    (hrun : Run (S.observed O) ok p) : Run S ok' p.1 := by
  induction hrun with
  | start h => exact .start h.1
  | step _ h hnext ih => exact ih.step (hok _ _ h) (next_observed hnext).1

end System

namespace Pool

variable {σ ω κ : Type} {P : Pool σ ω κ}

/-- After a step of thread `i`, a place holds the thread that ran, the thread that it held, or a
new one. -/
theorem getElem?_step {i j : Nat} {th th' t : Thread ω κ} {spawn : List (Thread ω κ)}
    (hth : P.threads[i]? = some th) (h : (P.threads.set i th' ++ spawn)[j]? = some t) :
    (j = i ∧ t = th') ∨ (j ≠ i ∧ P.threads[j]? = some t) ∨
      (P.threads.length ≤ j ∧ t ∈ spawn) := by
  by_cases hj : j < P.threads.length
  · rw [List.getElem?_append_left (by rwa [List.length_set])] at h
    by_cases hij : j = i
    · subst hij
      rw [List.getElem?_set_self hj] at h
      exact .inl ⟨rfl, (Option.some.inj h).symm⟩
    · rw [List.getElem?_set_ne (Ne.symm hij)] at h
      exact .inr (.inl ⟨hij, h⟩)
  · have hle : P.threads.length ≤ j := Nat.le_of_not_lt hj
    rw [List.getElem?_append_right (by rwa [List.length_set])] at h
    exact .inr (.inr ⟨hle, List.mem_of_getElem? h⟩)

end Pool

end Nek0.Lib
